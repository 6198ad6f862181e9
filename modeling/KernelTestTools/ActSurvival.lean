import KernelTestTools.SetActReturn

/-! Which tests Set_ACT_Return gets to. A failing command leads into a handler that reads
last_line, dat_id and prefix; it ends the script where no match so far has assigned them. -/
namespace KernelTestTools.SetActReturn
open TextFile DatFiles Xml
open SetReturn (sampleFunction sampleParam sampleEnvironment samplePath onlyDat ownLast)

structure Bound (g : Globals) : Prop where
  numbered : g.lastLine.isSome → g.datId.isSome ∧ g.datPath.isSome
  read : g.lastLine.isSome → ∃ l ls, g.lines = some (l::ls)
  split : g.keyPrefix.isSome → g.lastLine.isSome

section
variable {newValue : Text}

theorem globalsBound {s : Globals × Dats} (bound : Bound s.1) (visit : Visit) :
    Bound (updateGlobals newValue s visit).1 := by
  have numbers : (updateGlobals newValue s visit).1.datId = some visit.path.2 ∧
      (updateGlobals newValue s visit).1.datPath = some visit.path := ⟨rfl,rfl⟩
  rcases assignedForms newValue visit.key (s.2 visit.path) with ⟨same,none⟩ | ⟨l,ls,line,read,same⟩
  · refine ⟨fun _ => by simp [numbers],?_,?_⟩
    · simpa [updateGlobals,same,unassigned] using bound.read
    · simpa [updateGlobals,same,unassigned] using bound.split
  · refine ⟨fun _ => by simp [numbers],fun _ => ⟨l,ls,by simp [updateGlobals,same]⟩,fun _ => ?_⟩
    simp [updateGlobals,same]

theorem visitsBound (visits : List Visit) (s : Globals × Dats) (bound : Bound s.1) :
    Bound (visits.foldl (updateGlobals newValue) s).1 := by
  induction visits generalizing s with
  | nil => exact bound
  | cons visit visits ih => exact ih (updateGlobals newValue s visit) (globalsBound bound visit)

end

def commands (events : List Event) : List Text := events.filterMap (fun event => match event with
  | .clicast command _ => some command
  | .rewrite _ => none)

section
variable {env : Environment} {index : Nat} {command line id : Text} {s : State}
  (known : s.globals.lastLine = some line) (numbered : s.globals.datId = some id)
include known numbered

theorem failedRetry {c : Char} {value keyPrefix l : Text} {ls : List Text} {path : Path}
    (found : reported env index id line = some (c::value)) (split : s.globals.keyPrefix = some keyPrefix)
    (read : s.globals.lines = some (l::ls)) (located : s.globals.datPath = some path) :
    ∃ changed after r, changed ≠ [] ∧ clicastFailed env index command s =
      (⟨{ s.globals with lines := some changed },write s.dats path after,
        s.events ++ [.rewrite r,.clicast command (env.retry index)]⟩,.next) := by
  unfold reported at found
  let changed := (l::ls).dropLast ++ [entryLine keyPrefix (c::value)]
  let after := some (DatFile.text changed.flatten)
  refine ⟨changed,after,⟨path,s.dats path,after,(env.stem,id),env.report index id⟩,by simp [changed],?_⟩
  simp only [clicastFailed,known,numbered,found,split,read,located,changed,after]

end

/- What a failed command needs: last_line, and prefix if there is a value to write back. -/
structure Prepared (env : Environment) (index : Nat) (g : Globals) (line id : Text) : Prop where
  known : g.lastLine = some line
  numbered : g.datId = some id
  split : (∃ c value, reported env index id line = some (c::value)) → g.keyPrefix.isSome

theorem failedForms {env : Environment} {index : Nat} (command : Text) {s : State}
    (bound : Bound s.globals) :
    ((∃ line id, Prepared env index s.globals line id) ∧
      (clicastFailed env index command s).2 = .next ∧
      Bound (clicastFailed env index command s).1.globals ∧
      ∃ more, commands (clicastFailed env index command s).1.events =
        commands s.events ++ List.replicate more command ∧ more ≤ 1) ∨
    ((∀ line id, ¬ Prepared env index s.globals line id) ∧
      (clicastFailed env index command s).2 = .crash) := by
  cases known : s.globals.lastLine with
  | none =>
    refine .inr ⟨fun line id prepared => ?_,by simp [clicastFailed,known]⟩
    rw [prepared.known] at known
    cases known
  | some line =>
    obtain ⟨hasId,hasPath⟩ := bound.numbered (by rw [known]; rfl)
    obtain ⟨id,numbered⟩ := Option.isSome_iff_exists.mp hasId
    obtain ⟨path,located⟩ := Option.isSome_iff_exists.mp hasPath
    obtain ⟨l,ls,read⟩ := bound.read (by rw [known]; rfl)
    by_cases some' : ∃ c value, reported env index id line = some (c::value)
    · obtain ⟨c,value,found⟩ := some'
      cases split : s.globals.keyPrefix with
      | none =>
        refine .inr ⟨fun line' id' prepared => ?_,by rw [failedCrash known numbered found split]⟩
        have sameLine := Option.some.inj (known.symm.trans prepared.known)
        have sameId := Option.some.inj (numbered.symm.trans prepared.numbered)
        have needed := prepared.split ⟨c,value,by rw [← sameLine,← sameId]; exact found⟩
        rw [split] at needed
        cases needed
      | some keyPrefix =>
        obtain ⟨changed,after,r,nonempty,retried⟩ :=
          @failedRetry env index command line id s known numbered c value keyPrefix l ls path found split
            read located
        rw [retried]
        obtain ⟨k,ks,rfl⟩ := List.exists_cons_of_ne_nil nonempty
        exact .inl ⟨⟨line,id,known,numbered,fun _ => by rw [split]; rfl⟩,rfl,
          ⟨bound.numbered,fun _ => ⟨k,ks,rfl⟩,bound.split⟩,1,by simp [commands],Nat.le_refl _⟩
    · have idle := @failedIdle env index command line id s known numbered
        (fun c value found => some' ⟨c,value,found⟩)
      rw [idle]
      exact .inl ⟨⟨line,id,known,numbered,fun found => absurd found some'⟩,rfl,bound,0,by simp,
        Nat.zero_le _⟩

section
variable (functionName newValue : Text) (env : Environment)

def found (index : Nat) : Bool := (env.rglob index).any (inSomeLine (namePattern functionName index))

def testVisits (globalId : Text) (index : Nat) : List Visit :=
  matchingVisits functionName globalId env.stem index (env.rglob index)

/- If the command of the test fails, a match of this test or of an earlier one has read a
last line; and if R-id.XML of the last match has an actual value for the entry of the last
line read, such a match has met a percent sign. -/
def HandlerReady (globalId : Text) (index : Nat) (s : State) : Prop :=
  env.clicast index = false → ∃ line id,
    lastRead newValue s.globals.lastLine s.dats (testVisits functionName env globalId index) = some line ∧
    lastId s.globals.datId (testVisits functionName env globalId index) = some id ∧
    ((∃ c value, reported env index id line = some (c::value)) →
      MeetsEntry newValue s.dats (testVisits functionName env globalId index) ∨
        s.globals.keyPrefix.isSome)

def visited (globalId : Text) (index : Nat) (s : State) : Globals × Dats :=
  (testVisits functionName env globalId index).foldl (updateGlobals newValue) (s.globals,s.dats)

variable {functionName newValue env}

theorem runTestVisited (globalId unitName : Text) (index : Nat) (s : State) :
    runTest functionName newValue globalId unitName env index s =
      if found functionName env index then
        if env.clicast index then (⟨(visited functionName newValue env globalId index s).1,
          (visited functionName newValue env globalId index s).2,s.events ++
            [.clicast (clicastCommand env.stem unitName functionName index) (env.clicast index)]⟩,.next)
        else clicastFailed env index (clicastCommand env.stem unitName functionName index)
          ⟨(visited functionName newValue env globalId index s).1,
            (visited functionName newValue env globalId index s).2,s.events ++
            [.clicast (clicastCommand env.stem unitName functionName index) (env.clicast index)]⟩
      else (⟨(visited functionName newValue env globalId index s).1,
        (visited functionName newValue env globalId index s).2,s.events⟩,.stop) := by
  rw [runTest,visitXmlFold,← found,← testVisits]
  simp only [Bool.false_or]
  rfl

theorem runTestFound {globalId unitName : Text} {index : Nat} {s : State}
    (here : found functionName env index = true) (bound : Bound s.globals) :
    (HandlerReady functionName newValue env globalId index s ∧
      ∃ s' times, runTest functionName newValue globalId unitName env index s = (s',.next) ∧
        Bound s'.globals ∧ 1 ≤ times ∧ times ≤ 2 ∧ commands s'.events =
          commands s.events ++ List.replicate times (clicastCommand env.stem unitName functionName index)) ∨
    (¬ HandlerReady functionName newValue env globalId index s ∧
      (runTest functionName newValue globalId unitName env index s).2 = .crash) := by
  have kept := @visitsBound newValue (testVisits functionName env globalId index) (s.globals,s.dats) bound
  obtain ⟨line,id,split⟩ := @visitsGlobals newValue (testVisits functionName env globalId index)
    (s.globals,s.dats)
  rw [← visited] at kept line id split
  rw [runTestVisited,if_pos here]
  generalize visited functionName newValue env globalId index s = after at kept line id split ⊢
  cases succeeds : env.clicast index with
  | true =>
    refine .inl ⟨fun fails => absurd fails (by simp [succeeds]),_,1,rfl,kept,Nat.le_refl _,by omega,?_⟩
    simp [commands]
  | false =>
    have ready : HandlerReady functionName newValue env globalId index s ↔
        ∃ line id, Prepared env index after.1 line id := by
      constructor
      · intro ready
        obtain ⟨l,n,read,last,entry⟩ := ready succeeds
        exact ⟨l,n,line.trans read,id.trans last,fun value => split.mpr (entry value)⟩
      · intro prepared _
        obtain ⟨l,n,prepared⟩ := prepared
        exact ⟨l,n,line.symm.trans prepared.known,id.symm.trans prepared.numbered,
          fun value => split.mp (prepared.split value)⟩
    rw [ready,if_neg (by simp)]
    rcases @failedForms env index (clicastCommand env.stem unitName functionName index)
        ⟨after.1,after.2,s.events ++ [.clicast (clicastCommand env.stem unitName functionName index) false]⟩
        kept with ⟨prepared,next,still,more,ran,few⟩ | ⟨unprepared,crash⟩
    · refine .inl ⟨prepared,_,more+1,Prod.ext rfl next,still,by omega,by omega,?_⟩
      rw [ran,List.replicate_succ]
      simp [commands]
    · exact .inr ⟨fun prepared => by
        obtain ⟨l,n,prepared⟩ := prepared
        exact unprepared l n prepared,crash⟩

theorem runTestLast {globalId unitName : Text} {index : Nat} {s : State}
    (last : found functionName env index = false) (bound : Bound s.globals) :
    ∃ s', runTest functionName newValue globalId unitName env index s = (s',.stop) ∧ Bound s'.globals := by
  have kept := @visitsBound newValue (testVisits functionName env globalId index) (s.globals,s.dats) bound
  refine ⟨⟨(visited functionName newValue env globalId index s).1,
    (visited functionName newValue env globalId index s).2,s.events⟩,?_,kept⟩
  rw [runTestVisited,if_neg (by simp [last])]

theorem startBound : Bound ⟨none,none,none,none,none⟩ :=
  ⟨by simp,by simp,by simp⟩

theorem stepBound {c : Config} (bound : c.phase ≠ .crashed → Bound c.state.globals) :
    (step functionName newValue c).phase ≠ .crashed →
      Bound (step functionName newValue c).state.globals := by
  obtain ⟨phase,rest,s⟩ := c
  cases phase with
  | entering =>
    have same := bound (by simp)
    cases rest with
    | nil => exact fun _ => same
    | cons env rest =>
      simp only [step]
      split
      · exact fun _ => same
      · split
        · split <;> exact fun _ => same
        · exact fun _ => same
  | testing globalId unitName index =>
    have same := bound (by simp)
    cases rest with
    | nil => exact fun _ => same
    | cons env rest =>
      cases here : found functionName env index with
      | true =>
        rcases @runTestFound functionName newValue env globalId unitName index s here same with
          ⟨_,s',_,ran,kept,_⟩ | ⟨_,crash⟩
        · simp only [step,ran]
          exact fun _ => kept
        · generalize ran : runTest functionName newValue globalId unitName env index s = r at crash
          obtain ⟨s',flow⟩ := r
          cases crash
          simp only [step,ran]
          exact fun alive => absurd rfl alive
      | false =>
        obtain ⟨s',ran,kept⟩ := @runTestLast functionName newValue env globalId unitName index s here same
        simp only [step,ran]
        exact fun _ => kept
  | finished => exact bound
  | exited => exact bound
  | crashed => exact fun alive => absurd rfl alive

theorem stepsBound (envs : List Environment) (dats : Dats) (n : Nat) :
    (steps functionName newValue n (start envs dats)).phase ≠ .crashed →
      Bound (steps functionName newValue n (start envs dats)).state.globals := by
  induction n with
  | zero => exact fun _ => startBound
  | succ n ih => exact stepBound ih

theorem stepsAdd (n m : Nat) (c : Config) : steps functionName newValue n (steps functionName newValue m c) =
    steps functionName newValue (n+m) c := by
  induction n with
  | zero => rw [Nat.zero_add]; rfl
  | succ n ih => rw [steps,ih,Nat.add_right_comm,steps]

end

/- However many consecutive tests have a match: the script gets behind the last of them,
each has been run once or twice, in order. -/
def Survives (functionName newValue globalId unitName : Text) (env : Environment) (c : Config) : Prop :=
  ∀ n, (∀ k, 1 ≤ k → k ≤ n → found functionName env k = true) →
    ∃ (times : Nat → Nat) (s : State), (∀ k, 1 ≤ times k ∧ times k ≤ 2) ∧
      steps functionName newValue (n+1) c = ⟨.testing globalId unitName (n+1),c.rest,s⟩ ∧
      commands s.events = commands c.state.events ++ (List.range' 1 n).flatMap (fun k =>
        List.replicate (times k) (clicastCommand env.stem unitName functionName k))

def HandlersReady (functionName newValue globalId : Text) (env : Environment) (c : Config) : Prop :=
  ∀ n, 1 ≤ n → (∀ k, 1 ≤ k → k ≤ n → found functionName env k = true) →
    HandlerReady functionName newValue env globalId n (steps functionName newValue n c).state

section
variable {functionName newValue globalId unitName : Text} {env : Environment}

theorem testStep {rest : List Environment} {n : Nat} {c : Config} {s : State}
    (at' : steps functionName newValue n c = ⟨.testing globalId unitName n,env::rest,s⟩) :
    steps functionName newValue (n+1) c =
      match runTest functionName newValue globalId unitName env n s with
      | (s',.next) => ⟨.testing globalId unitName (n+1),env::rest,s'⟩
      | (s',.stop) => ⟨.entering,rest,s'⟩
      | (s',.crash) => ⟨.crashed,env::rest,s'⟩ := by
  rw [steps,at']
  rfl

theorem enteredFirst {c : Config} {rest : List Environment} (here : c.phase = .entering)
    (next : c.rest = env::rest) (param : getGlobalId env.param functionName = some globalId)
    (dir : env.isDir = true) (unit : getUnitNameFromTuC env.tuFiles = some unitName) :
    steps functionName newValue 1 c = ⟨.testing globalId unitName 1,c.rest,c.state⟩ := by
  obtain ⟨phase,remaining,s⟩ := c
  cases here
  cases next
  simp only [steps,step,param,dir,unit,if_true]

theorem commandsNext (command : Nat → Text) (times : Nat → Nat) (more n : Nat) :
    (List.range' 1 (n+1)).flatMap (fun k => List.replicate (if k = n+1 then more else times k) (command k)) =
      (List.range' 1 n).flatMap (fun k => List.replicate (times k) (command k)) ++
        List.replicate more (command (n+1)) := by
  have same : (List.range' 1 n).flatMap (fun k =>
      List.replicate (if k = n+1 then more else times k) (command k)) =
        (List.range' 1 n).flatMap (fun k => List.replicate (times k) (command k)) := by
    refine List.flatMap_congr (fun k mem => ?_)
    rw [List.mem_range'_1] at mem
    rw [if_neg (by omega)]
  rw [List.range'_concat,List.flatMap_append,same]
  simp [Nat.add_comm 1 n]

theorem survivesExactly {envs : List Environment} {dats : Dats} {m : Nat} {c : Config}
    {rest : List Environment} (reached : c = steps functionName newValue m (start envs dats))
    (here : c.phase = .entering) (next : c.rest = env::rest)
    (param : getGlobalId env.param functionName = some globalId) (dir : env.isDir = true)
    (unit : getUnitNameFromTuC env.tuFiles = some unitName) :
    Survives functionName newValue globalId unitName env c ↔
      HandlersReady functionName newValue globalId env c := by
  have bound : ∀ {n s}, steps functionName newValue n c = ⟨.testing globalId unitName n,env::rest,s⟩ →
      Bound s.globals := by
    intro n s at'
    have alive := @stepsBound functionName newValue envs dats (n+m)
    rw [← stepsAdd,← reached,at'] at alive
    exact alive (by simp)
  constructor
  · intro survives n positive matched
    obtain ⟨k,rfl⟩ := Nat.exists_eq_add_of_le' positive
    obtain ⟨_,s,_,before,_⟩ := survives k (fun j left right => matched j left (by omega))
    obtain ⟨_,s',_,after,_⟩ := survives (k+1) matched
    rw [next] at before after
    rw [before]
    rcases @runTestFound functionName newValue env globalId unitName (k+1) s
        (matched (k+1) positive (Nat.le_refl _)) (bound before) with ⟨ready,_⟩ | ⟨_,crash⟩
    · exact ready
    · rw [testStep before] at after
      generalize runTest functionName newValue globalId unitName env (k+1) s = r at after crash
      obtain ⟨_,flow⟩ := r
      cases crash
      simp at after
  · intro ready n
    induction n with
    | zero =>
      intro _
      exact ⟨fun _ => 1,c.state,fun _ => ⟨Nat.le_refl _,Nat.le_succ _⟩,
        enteredFirst here next param dir unit,by simp⟩
    | succ n ih =>
      intro matched
      obtain ⟨times,s,few,before,done⟩ := ih (fun k left right => matched k left (by omega))
      have now := ready (n+1) (by omega) matched
      rw [next] at before ⊢
      rw [before] at now
      rcases @runTestFound functionName newValue env globalId unitName (n+1) s
          (matched (n+1) (by omega) (Nat.le_refl _)) (bound before) with
        ⟨_,s',more,ran,_,least,most,new⟩ | ⟨unready,_⟩
      · refine ⟨fun k => if k = n+1 then more else times k,s',fun k => ?_,?_,?_⟩
        · by_cases last : k = n+1
          · simp only [last,if_true]
            exact ⟨least,most⟩
          · simp only [last,if_false]
            exact few k
        · rw [testStep before,ran]
        · rw [new,done,List.append_assoc]
          exact congrArg (commands c.state.events ++ ·)
            (commandsNext (clicastCommand env.stem unitName functionName) times more n).symm
      · exact absurd now unready

end

/- The first test's DAT file is missing and gets created; its command fails, and the script
ends before the second test. -/
theorem createdThenFailed : ¬ Survives sampleFunction "0".toList "7".toList "hal".toList (failingAt 1)
    (start [failingAt 1] (fun _ => none)) := by
  intro survives
  obtain ⟨_,s,_,after,_⟩ := survives 1 (fun k left right => by
    have first : k = 1 := by omega
    rw [first]
    decide)
  have phase := congrArg Config.phase after
  have ended : (steps sampleFunction "0".toList 2 (start [failingAt 1] (fun _ => none))).phase = .crashed := by
    rfl
  rw [ended] at phase
  cases phase

theorem sampleSurvives : Survives sampleFunction "0".toList "7".toList "hal".toList (failingAt 1)
    (start [failingAt 1] (onlyDat ownLast)) := by
  refine (@survivesExactly _ _ _ _ _ [failingAt 1] (onlyDat ownLast) 0 _ [] rfl rfl rfl (by decide) rfl
    (by decide)).mpr ?_
  intro n positive matched fails
  have first : n = 1 := by simpa [failingAt] using fails
  subst first
  exact ⟨"0.1.2.7%5".toList,"1".toList,by decide,by decide,fun _ => .inl (.inl ⟨_,rfl,by decide⟩)⟩

end KernelTestTools.SetActReturn
