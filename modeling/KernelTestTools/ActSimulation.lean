import KernelTestTools.ActSurvival
import KernelTestTools.ListingOrder

/-! Set_ACT_Return against Set_Return on the same files. Its machine makes the visits of the
other script, test by test; a failed command only puts an actual value in the place of the
new value of the last entry. -/
namespace KernelTestTools.SetActReturn
open TextFile DatFiles Xml
open SetReturn (HasGlobalId Reached reachedIff lastFound environmentVisits entered enteredSplit runVisitsExact
  setReturn setReturnVisits sampleFunction sampleParam sampleEnvironment sampleDocument samplePath onlyDat ownLast)

/- The same environment for both scripts: a directory without a .tu.c file is passed over by
Set_ACT_Return alone, and the commands leave the XML files as they are. -/
structure SameEnvironment (env : Environment) (plain : SetReturn.Environment) : Prop where
  stem : env.stem = plain.stem
  param : env.param = plain.param
  entered : plain.isDir = (env.isDir && (getUnitNameFromTuC env.tuFiles).isSome)
  rglob : env.rglob = plain.rglob

def stepVisits (functionName : Text) (c : Config) : List Visit := match c.phase,c.rest with
  | .testing globalId _ index,env::_ => testVisits functionName env globalId index
  | _,_ => []

def visitsBefore (functionName newValue : Text) (c : Config) : Nat → List Visit
  | 0 => []
  | n+1 => visitsBefore functionName newValue c n ++ stepVisits functionName (steps functionName newValue n c)

def Progress (functionName : Text) (plain : List SetReturn.Environment) (c : Config) (visits : List Visit) : Prop :=
  match c.phase with
  | .entering => ∃ done rest, plain = done ++ rest ∧ (∀ e ∈ done, HasGlobalId functionName e) ∧
      List.Forall₂ SameEnvironment c.rest rest ∧ visits = done.flatMap (environmentVisits functionName)
  | .testing globalId _ index => ∃ done here rest, plain = done ++ here::rest ∧
      (∀ e ∈ done, HasGlobalId functionName e) ∧ List.Forall₂ SameEnvironment c.rest (here::rest) ∧
      getGlobalId here.param functionName = some globalId ∧ here.isDir = true ∧ 1 ≤ index ∧
      Reached functionName here (index-1) ∧ visits = done.flatMap (environmentVisits functionName) ++
        (List.range' 1 (index-1)).flatMap (SetReturn.testVisits functionName globalId here)
  | .finished | .exited => visits = (entered functionName plain).flatMap (environmentVisits functionName)
  | .crashed => True

section
variable {functionName newValue : Text} {env : Environment} {plain : SetReturn.Environment}

theorem matchedFound (same : SameEnvironment env plain) (index : Nat) :
    found functionName env index = SetReturn.found functionName plain index := by
  rw [found,SetReturn.found,same.rglob]

theorem matchedVisits (same : SameEnvironment env plain) (globalId : Text) (index : Nat) :
    testVisits functionName env globalId index = SetReturn.testVisits functionName globalId plain index := by
  rw [testVisits,SetReturn.testVisits,same.rglob,same.stem]

theorem missingVisits {globalId : Text} {index : Nat} (none : SetReturn.found functionName plain index = false) :
    SetReturn.testVisits functionName globalId plain index = [] := by
  unfold SetReturn.found at none
  have empty : (plain.rglob index).filter (inSomeLine (namePattern functionName index)) = [] := by
    rw [List.filter_eq_nil_iff]
    intro x mem here
    have some := List.any_eq_true.mpr ⟨x,mem,here⟩
    rw [none] at some
    cases some
  rw [SetReturn.testVisits,matchingVisits,empty]
  rfl

theorem lastReached {index : Nat} (positive : 1 ≤ index) (reached : Reached functionName plain (index-1))
    (none : SetReturn.found functionName plain index = false) : lastFound functionName plain = index-1 := by
  have far := reachedIff.mp reached
  have near : ¬ index ≤ lastFound functionName plain := by
    intro later
    have here := reachedIff.mpr later index positive (Nat.le_refl _)
    rw [none] at here
    cases here
  omega

theorem reachedNext {index : Nat} (reached : Reached functionName plain (index-1))
    (here : SetReturn.found functionName plain index = true) : Reached functionName plain index := by
  intro j positive below
  rcases Nat.lt_or_ge j index with early | last
  · exact reached j positive (by omega)
  · have same : j = index := by omega
    rw [same]
    exact here

theorem nextTest (visit : Nat → List Visit) {index : Nat} (positive : 1 ≤ index) :
    (List.range' 1 (index-1)).flatMap visit ++ visit index = (List.range' 1 (index+1-1)).flatMap visit := by
  obtain ⟨k,rfl⟩ := Nat.exists_eq_add_of_le' positive
  simp only [Nat.add_sub_cancel]
  rw [List.range'_concat,List.flatMap_append]
  simp [Nat.add_comm 1 k]

theorem failedGoesOn (index : Nat) (command : Text) (s : State) :
    (clicastFailed env index command s).2 ≠ .stop := by
  unfold clicastFailed
  split
  · simp only
    split
    · simp
    · simp
    · split <;> simp
  · simp

theorem enteredVisits {globalId : Text} (param : getGlobalId plain.param functionName = some globalId)
    (dir : plain.isDir = true) : environmentVisits functionName plain =
      (List.range' 1 (lastFound functionName plain)).flatMap (SetReturn.testVisits functionName globalId plain) := by
  simp only [environmentVisits,param,dir,if_true]

theorem passedVisits (closed : plain.isDir = false) : environmentVisits functionName plain = [] := by
  unfold environmentVisits
  cases getGlobalId plain.param functionName <;> simp [closed]

theorem knownId {globalId : Text} (param : getGlobalId plain.param functionName = some globalId) :
    HasGlobalId functionName plain := by
  rw [HasGlobalId,param]
  rfl

theorem enteringProgress {all : List SetReturn.Environment} {c : Config} {visits : List Visit}
    (phase : c.phase = .entering) (progress : Progress functionName all c visits) :
    Progress functionName all (step functionName newValue c) visits := by
  obtain ⟨_,rest,s⟩ := c
  cases phase
  obtain ⟨done,later,rfl,known,matched,rfl⟩ := progress
  cases matched with
  | nil =>
    have whole : entered functionName (done ++ []) = done := by
      rw [enteredSplit [] known]
      simp [entered]
    simp only [step,Progress,whole]
  | @cons env plain rest later same matched =>
    rw [step]
    simp only
    cases param : getGlobalId env.param functionName with
    | none =>
      have own : getGlobalId plain.param functionName = none := by rw [← same.param,param]
      have stop : entered functionName (done ++ plain::later) = done := by
        rw [enteredSplit _ known]
        simp [entered,HasGlobalId,own]
      simp only [Progress,stop]
    | some globalId =>
      have own : getGlobalId plain.param functionName = some globalId := by rw [← same.param,param]
      have passed (closed : plain.isDir = false) : Progress functionName (done ++ plain::later)
          ⟨.entering,rest,s⟩ (done.flatMap (environmentVisits functionName)) := by
        refine ⟨done ++ [plain],later,by simp,fun e mem => ?_,matched,?_⟩
        · rcases List.mem_append.mp mem with before | here
          · exact known e before
          · rw [List.mem_singleton.mp here]
            exact knownId own
        · simp [passedVisits closed]
      simp only
      split
      · rename_i dir
        split
        · rename_i none
          exact passed (by simp [same.entered,none])
        · rename_i unitName unit
          refine ⟨done,plain,later,rfl,known,.cons same matched,own,by simp [same.entered,dir,unit],
            Nat.le_refl 1,fun j positive below => by omega,by simp⟩
      · rename_i closed
        exact passed (by simp [same.entered,closed])

theorem testingProgress {all : List SetReturn.Environment} {c : Config} {visits : List Visit}
    {globalId unitName : Text} {index : Nat} (phase : c.phase = .testing globalId unitName index)
    (progress : Progress functionName all c visits) :
    Progress functionName all (step functionName newValue c) (visits ++ stepVisits functionName c) := by
  obtain ⟨_,rest,s⟩ := c
  cases phase
  obtain ⟨done,plain,later,rfl,known,matched,param,dir,positive,reached,rfl⟩ := progress
  cases matched with
  | @cons env _ rest _ same matched =>
    have visits := @matchedVisits functionName env plain same globalId index
    simp only [step,stepVisits,visits,List.append_assoc]
    cases here : SetReturn.found functionName plain index with
    | true =>
      rw [nextTest _ positive]
      have own : found functionName env index = true := by rw [matchedFound same,here]
      have more : Progress functionName (done ++ plain::later)
          (⟨.testing globalId unitName (index+1),env::rest,s⟩ : Config)
          (done.flatMap (environmentVisits functionName) ++
            (List.range' 1 (index+1-1)).flatMap (SetReturn.testVisits functionName globalId plain)) :=
        ⟨done,plain,later,rfl,known,.cons same matched,param,dir,by omega,reachedNext reached here,rfl⟩
      split
      · exact more
      · rename_i s' stopped
        rw [runTestVisited,if_pos own] at stopped
        split at stopped
        · cases stopped
        · exact absurd (congrArg Prod.snd stopped) (failedGoesOn index _ _)
      · trivial
    | false =>
      have own : found functionName env index = false := by rw [matchedFound same,here]
      rw [missingVisits here,List.append_nil,← lastReached positive reached here,← enteredVisits param dir]
      have stopped : ∃ s', runTest functionName newValue globalId unitName env index s = (s',.stop) :=
        ⟨_,by rw [runTestVisited,if_neg (by simp [own])]⟩
      obtain ⟨s',stopped⟩ := stopped
      rw [stopped]
      refine ⟨done ++ [plain],later,by simp,fun e mem => ?_,matched,by simp⟩
      rcases List.mem_append.mp mem with before | last
      · exact known e before
      · rw [List.mem_singleton.mp last]
        exact knownId param

theorem stepProgress {all : List SetReturn.Environment} {c : Config} {visits : List Visit}
    (progress : Progress functionName all c visits) :
    Progress functionName all (step functionName newValue c) (visits ++ stepVisits functionName c) := by
  cases phase : c.phase with
  | entering =>
    have none : stepVisits functionName c = [] := by simp [stepVisits,phase]
    rw [none,List.append_nil]
    exact enteringProgress phase progress
  | testing globalId unitName index => exact testingProgress phase progress
  | finished | exited | crashed =>
    have none : stepVisits functionName c = [] := by simp [stepVisits,phase]
    have same : step functionName newValue c = c := by simp [step,phase]
    rw [none,List.append_nil,same]
    exact progress

theorem runProgress {envs : List Environment} {all : List SetReturn.Environment}
    (matched : List.Forall₂ SameEnvironment envs all) (dats : Dats) (n : Nat) :
    Progress functionName all (steps functionName newValue n (start envs dats))
      (visitsBefore functionName newValue (start envs dats) n) := by
  induction n with
  | zero => exact ⟨[],all,rfl,by simp,matched,rfl⟩
  | succ n ih => exact stepProgress ih

def Ended (c : Config) : Prop := c.phase = .finished ∨ c.phase = .exited ∨ c.phase = .crashed

theorem endedStays {c : Config} (ended : Ended c) (n : Nat) : steps functionName newValue n c = c := by
  induction n with
  | zero => rfl
  | succ n ih =>
    rw [steps,ih]
    rcases ended with phase | phase | phase <;> simp [step,phase]

theorem endedLater {c : Config} {n m : Nat} (ended : Ended (steps functionName newValue n c)) (later : n ≤ m) :
    steps functionName newValue m c = steps functionName newValue n c := by
  have more := @stepsAdd functionName newValue (m-n) n c
  rw [Nat.sub_add_cancel later] at more
  rw [← more,endedStays ended]

theorem stepsNext (n : Nat) (c : Config) :
    steps functionName newValue n (step functionName newValue c) = steps functionName newValue (n+1) c :=
  stepsAdd n 1 c

theorem testingEnds (same : SameEnvironment env plain) {bound : Nat} {globalId unitName : Text} {rest : List Environment}
    (stop : ∀ index, bound ≤ index → SetReturn.found functionName plain index = false) (distance : Nat) :
    ∀ index s, bound ≤ index + distance → ∃ n s',
      steps functionName newValue n ⟨.testing globalId unitName index,env::rest,s⟩ = ⟨.entering,rest,s'⟩ ∨
      steps functionName newValue n ⟨.testing globalId unitName index,env::rest,s⟩ = ⟨.crashed,env::rest,s'⟩ := by
  induction distance with
  | zero =>
    intro index s near
    have last : found functionName env index = false := by
      rw [matchedFound same]
      exact stop index near
    have stopped : ∃ s', runTest functionName newValue globalId unitName env index s = (s',.stop) :=
      ⟨_,by rw [runTestVisited,if_neg (by simp [last])]⟩
    obtain ⟨s',stopped⟩ := stopped
    exact ⟨1,s',.inl (by simp only [steps,step,stopped])⟩
  | succ distance ih =>
    intro index s near
    cases flow : runTest functionName newValue globalId unitName env index s with
    | mk s' flow' =>
      cases flow' with
      | next =>
        obtain ⟨n,s'',ends⟩ := ih (index+1) s' (by omega)
        refine ⟨n+1,s'',?_⟩
        rw [← stepsNext]
        simp only [step,flow]
        exact ends
      | stop => exact ⟨1,s',.inl (by simp only [steps,step,flow])⟩
      | crash => exact ⟨1,s',.inr (by simp only [steps,step,flow])⟩

theorem runEnds {envs : List Environment} {all : List SetReturn.Environment}
    (matched : List.Forall₂ SameEnvironment envs all) :
    ∀ s, ∃ n, Ended (steps functionName newValue n ⟨.entering,envs,s⟩) := by
  induction matched with
  | nil => exact fun s => ⟨1,.inl rfl⟩
  | @cons env plain envs all same matched ih =>
    intro s
    cases param : getGlobalId env.param functionName with
    | none => exact ⟨1,.inr (.inl (by simp [steps,step,param]))⟩
    | some globalId =>
      have passed (next : step functionName newValue ⟨.entering,env::envs,s⟩ = ⟨.entering,envs,s⟩) :
          ∃ n, Ended (steps functionName newValue n ⟨.entering,env::envs,s⟩) := by
        obtain ⟨n,ends⟩ := ih s
        refine ⟨n+1,?_⟩
        rw [← stepsNext,next]
        exact ends
      cases dir : env.isDir with
      | false => exact passed (by simp [step,param,dir])
      | true =>
        cases unit : getUnitNameFromTuC env.tuFiles with
        | none => exact passed (by simp [step,param,dir,unit])
        | some unitName =>
          have next : step functionName newValue ⟨.entering,env::envs,s⟩ =
              ⟨.testing globalId unitName 1,env::envs,s⟩ := by simp [step,param,dir,unit]
          obtain ⟨bound,stop⟩ := SetReturn.notFoundLater functionName plain
          obtain ⟨n,s',through | crashed⟩ := @testingEnds functionName newValue env plain same bound globalId
            unitName envs stop bound 1 s (by omega)
          · obtain ⟨m,ends⟩ := ih s'
            refine ⟨m+n+1,?_⟩
            rw [← stepsNext,next,← stepsAdd,through]
            exact ends
          · refine ⟨n+1,?_⟩
            rw [← stepsNext,next,crashed]
            exact .inr (.inr rfl)

theorem stepRest {c : Config} : (step functionName newValue c).rest <:+ c.rest := by
  obtain ⟨phase,rest,s⟩ := c
  cases phase with
  | entering =>
    cases rest with
    | nil => exact List.suffix_refl _
    | cons env rest =>
      simp only [step]
      split
      · exact List.suffix_refl _
      · split
        · split
          · exact List.suffix_cons env rest
          · exact List.suffix_refl _
        · exact List.suffix_cons env rest
  | testing globalId unitName index =>
    cases rest with
    | nil => exact List.suffix_refl _
    | cons env rest =>
      simp only [step]
      split
      · exact List.suffix_refl _
      · exact List.suffix_cons env rest
      · exact List.suffix_refl _
  | finished | exited | crashed => exact List.suffix_refl _

theorem stepsRest (envs : List Environment) (dats : Dats) (n : Nat) :
    (steps functionName newValue n (start envs dats)).rest <:+ envs := by
  induction n with
  | zero => exact List.suffix_refl _
  | succ n ih => exact stepRest.trans ih

def Quiet (events : List Event) : Prop := ∀ command, .clicast command false ∉ events

theorem failedKept (index : Nat) (command : Text) (s : State) :
    s.events <+: (clicastFailed env index command s).1.events := by
  unfold clicastFailed
  split
  · simp only
    split
    · exact List.prefix_refl _
    · exact List.prefix_refl _
    · split
      · exact List.prefix_append _ _
      · exact List.prefix_refl _
  · exact List.prefix_refl _

theorem quietTest {globalId unitName : Text} {index : Nat} {s : State}
    (quiet : Quiet (runTest functionName newValue globalId unitName env index s).1.events) :
    (runTest functionName newValue globalId unitName env index s).1.dats =
        (testVisits functionName env globalId index).foldl (applyVisit newValue) s.dats ∧
      (runTest functionName newValue globalId unitName env index s).2 ≠ .crash := by
  have visits := updateGlobalsDats newValue (testVisits functionName env globalId index) (s.globals,s.dats)
  rw [runTestVisited] at quiet ⊢
  split at quiet
  · rename_i here
    rw [if_pos here]
    split at quiet
    · rename_i succeeds
      rw [if_pos succeeds]
      exact ⟨visits,by simp⟩
    · rename_i fails
      refine absurd ((failedKept index _ _).subset ?_) (quiet (clicastCommand env.stem unitName functionName index))
      simp [fails]
  · rename_i last
    rw [if_neg last]
    exact ⟨visits,by simp⟩

theorem quietStep {c : Config} (quiet : Quiet (step functionName newValue c).state.events) :
    (step functionName newValue c).state.dats =
        (stepVisits functionName c).foldl (applyVisit newValue) c.state.dats ∧
      (c.phase ≠ .crashed → (step functionName newValue c).phase ≠ .crashed) := by
  obtain ⟨phase,rest,s⟩ := c
  cases phase with
  | entering =>
    cases rest with
    | nil => exact ⟨rfl,by simp [step]⟩
    | cons env rest =>
      simp only [step]
      split
      · exact ⟨rfl,by simp⟩
      · split
        · split <;> exact ⟨rfl,by simp⟩
        · exact ⟨rfl,by simp⟩
  | testing globalId unitName index =>
    cases rest with
    | nil => exact ⟨rfl,by simp [step]⟩
    | cons env rest =>
      have test := @quietTest functionName newValue env globalId unitName index s
      simp only [step] at quiet
      simp only [step,stepVisits]
      generalize runTest functionName newValue globalId unitName env index s = ran at test quiet ⊢
      obtain ⟨s',flow⟩ := ran
      cases flow with
      | next => exact ⟨(test quiet).1,by simp⟩
      | stop => exact ⟨(test quiet).1,by simp⟩
      | crash => exact absurd rfl (test quiet).2
  | finished | exited | crashed => exact ⟨rfl,by simp [step]⟩

theorem expectedFinal (functionName newValue : Text) (all : List SetReturn.Environment) (dats : Dats) :
    ∃ enough, ∀ fuel, enough ≤ fuel → setReturn functionName newValue fuel all dats =
      some (((entered functionName all).flatMap (environmentVisits functionName)).foldl
        (applyVisit newValue) dats) := by
  obtain ⟨enough,known⟩ := runVisitsExact functionName all
  exact ⟨enough,fun fuel late => by rw [setReturnVisits,known fuel late]; rfl⟩

theorem quietRunExpected {envs : List Environment} {all : List SetReturn.Environment}
    {dats : Dats} (matched : List.Forall₂ SameEnvironment envs all)
    (quiet : ∀ n, Quiet (steps functionName newValue n (start envs dats)).state.events) :
    ∃ enough, ∀ n, enough ≤ n →
      ((steps functionName newValue n (start envs dats)).phase = .finished ∨
        (steps functionName newValue n (start envs dats)).phase = .exited) ∧
      setReturn functionName newValue n all dats =
        some (steps functionName newValue n (start envs dats)).state.dats := by
  have files (n : Nat) : (steps functionName newValue n (start envs dats)).state.dats =
      (visitsBefore functionName newValue (start envs dats) n).foldl (applyVisit newValue) dats ∧
      (steps functionName newValue n (start envs dats)).phase ≠ .crashed := by
    induction n with
    | zero => exact ⟨rfl,by simp [steps,start]⟩
    | succ n ih =>
      obtain ⟨same,alive⟩ := @quietStep functionName newValue (steps functionName newValue n (start envs dats))
        (quiet (n+1))
      rw [steps,same,ih.1,visitsBefore,List.foldl_append]
      exact ⟨rfl,alive ih.2⟩
  obtain ⟨last,ended⟩ := @runEnds functionName newValue envs all matched ⟨⟨none,none,none,none,none⟩,dats,[]⟩
  obtain ⟨enough,expected⟩ := expectedFinal functionName newValue all dats
  refine ⟨max last enough,fun n late => ?_⟩
  have here : steps functionName newValue n (start envs dats) = steps functionName newValue last (start envs dats) :=
    endedLater ended (by omega)
  have through : (steps functionName newValue last (start envs dats)).phase = .finished ∨
      (steps functionName newValue last (start envs dats)).phase = .exited := by
    rcases ended with finished | exited | crashed
    · exact .inl finished
    · exact .inr exited
    · exact absurd crashed (files last).2
  have progress := @runProgress functionName newValue envs all matched dats last
  have whole : visitsBefore functionName newValue (start envs dats) last =
      (entered functionName all).flatMap (environmentVisits functionName) := by
    unfold Progress at progress
    rcases through with phase | phase <;> simpa only [phase] using progress
  rw [here,expected n (by omega),(files last).1,whole]
  exact ⟨through,rfl⟩

end

def Reported (envs : List Environment) (key actual : Text) : Prop :=
  ∃ env ∈ envs, ∃ index datId, getTrueValueFromXml (env.report index datId) key = some actual

/- The other script's file, or the same with a reported value in its last entry. -/
def Patched (envs : List Environment) (newValue : Text) (ours theirs : Option DatFile) : Prop :=
  ours = theirs ∨ ∃ init key actual, Settled init key ∧ Reported envs key actual ∧
    theirs = some (.text (init.flatten ++ entryLine key newValue)) ∧
    ours = some (.text (init.flatten ++ entryLine key actual))

section
variable {functionName newValue : Text} {envs : List Environment}

theorem updatePatched {ours theirs : Option DatFile} (key : Option Text) (value : Plain newValue)
    (plain : ∀ key actual, Reported envs key actual → Plain actual) (patched : Patched envs newValue ours theirs) :
    (updateDat newValue key ours).1 = (updateDat newValue key theirs).1 := by
  rcases patched with rfl | ⟨init,k,actual,settled,reported,rfl,rfl⟩
  · rfl
  · rw [updateSettled settled (plain k actual reported),updateSettled settled value]

theorem applyPatched {ours theirs : Dats} (visit : Visit) (value : Plain newValue)
    (plain : ∀ key actual, Reported envs key actual → Plain actual)
    (patched : ∀ path, Patched envs newValue (ours path) (theirs path)) :
    (∀ path, Patched envs newValue (applyVisit newValue ours visit path) (applyVisit newValue theirs visit path)) ∧
      applyVisit newValue ours visit visit.path = applyVisit newValue theirs visit visit.path := by
  have same := updatePatched visit.key value plain (patched visit.path)
  refine ⟨fun path => ?_,by simp [applyVisit,write,same]⟩
  by_cases here : path = visit.path
  · rw [here]
    exact .inl (by simp [applyVisit,write,same])
  · simp only [applyVisit,write,here,if_false]
    exact patched path

theorem visitsPatched {visits : List Visit} (value : Plain newValue)
    (plain : ∀ key actual, Reported envs key actual → Plain actual) {ours theirs : Dats}
    (patched : ∀ path, Patched envs newValue (ours path) (theirs path)) :
    ∀ path, Patched envs newValue (visits.foldl (applyVisit newValue) ours path)
      (visits.foldl (applyVisit newValue) theirs path) := by
  induction visits generalizing ours theirs with
  | nil => exact patched
  | cons visit visits ih => exact ih (applyPatched visit value plain patched).1

theorem failedPatch {env : Environment} {index : Nat} {command : Text} {s : State} {init : List Text}
    {key : Text} {path : Path} (edited : Edited newValue (s.globals,s.dats) init key path) :
    (clicastFailed env index command s).1.dats = s.dats ∨
    ∃ datId actual, getTrueValueFromXml (env.report index datId) key = some actual ∧
      (clicastFailed env index command s).1.dats =
        write s.dats path (some (.text (init.flatten ++ entryLine key actual))) := by
  obtain ⟨settled,ls,⟨lastLine,hl,name⟩,kp,id,dp,written⟩ := edited
  simp only at ls hl kp id dp
  obtain ⟨l,rest,cons⟩ := List.exists_cons_of_ne_nil (show init ++ [entryLine key newValue] ≠ [] by simp)
  cases report : getTrueValueFromXml (env.report index path.2) key with
  | none =>
    left
    simp only [clicastFailed,hl,id,name,report]
  | some actual =>
    cases actual with
    | nil =>
      left
      simp only [clicastFailed,hl,id,name,report]
    | cons c actual =>
      right
      refine ⟨path.2,c::actual,report,?_⟩
      simp only [clicastFailed,hl,id,name,report,kp,ls,dp,cons]
      rw [← cons]
      simp

theorem testPatched {env : Environment} {globalId unitName : Text} {index : Nat} {s : State} {theirs : Dats}
    (value : Plain newValue) (plain : ∀ key actual, Reported envs key actual → Plain actual) (listed : env ∈ envs)
    (edits : found functionName env index = true → env.clicast index = false →
      WritesBack newValue env index s.globals s.dats (testVisits functionName env globalId index) →
        Plain newValue ∧ LastVisitEdits functionName newValue globalId env index s.dats)
    (patched : ∀ path, Patched envs newValue (s.dats path) (theirs path)) :
    ∀ path, Patched envs newValue ((runTest functionName newValue globalId unitName env index s).1.dats path)
      ((testVisits functionName env globalId index).foldl (applyVisit newValue) theirs path) := by
  have visits := updateGlobalsDats newValue (testVisits functionName env globalId index) (s.globals,s.dats)
  have after := @visitsPatched newValue envs (testVisits functionName env globalId index) value plain s.dats theirs
    patched
  rw [← visits] at after
  rw [runTestVisited]
  split
  · rename_i here
    split
    · exact after
    · rename_i fails
      by_cases writes : WritesBack newValue env index s.globals s.dats (testVisits functionName env globalId index)
      · have edit := (edits here (by simpa using fails) writes).2
        obtain ⟨init,key,path,_,edited⟩ := @lastVisitEdited _ _ _ _ _ (s.globals,s.dats) edit
        obtain ⟨earlier,visit,shape,_⟩ := edit
        rw [← testVisits] at edited shape
        have last : path = visit.path := by
          have located := edited.datPath
          rw [shape,List.foldl_append] at located
          exact (Option.some.inj located).symm
        have before := @visitsPatched newValue envs earlier value plain s.dats theirs patched
        have same := (applyPatched visit value plain before).2
        have written := edited.written
        rw [updateGlobalsDats,shape,List.foldl_append,List.foldl_cons,List.foldl_nil,last,same] at written
        have split := @failedPatch newValue env index (clicastCommand env.stem unitName functionName index)
          ⟨(visited functionName newValue env globalId index s).1,(visited functionName newValue env globalId index s).2,
            s.events ++ [.clicast (clicastCommand env.stem unitName functionName index) (env.clicast index)]⟩
          init key path edited
        rcases split with kept | ⟨datId,actual,report,changed⟩
        · rw [kept]
          exact after
        · rw [changed]
          intro p
          by_cases here : p = path
          · refine .inr ⟨init,key,actual,edited.settled,⟨env,listed,index,datId,report⟩,?_,by simp [write,here]⟩
            rw [here,last,shape,List.foldl_append]
            exact written
          · simp only [write,here,if_false]
            exact after p
      · rw [clicastFailedSilent rfl writes]
        exact after
  · exact after

theorem stepPatched {c : Config} {theirs : Dats} (value : Plain newValue)
    (plain : ∀ key actual, Reported envs key actual → Plain actual) (listed : c.rest <:+ envs)
    (edits : EditsBeforeFailing functionName newValue c)
    (patched : ∀ path, Patched envs newValue (c.state.dats path) (theirs path)) :
    ∀ path, Patched envs newValue ((step functionName newValue c).state.dats path)
      ((stepVisits functionName c).foldl (applyVisit newValue) theirs path) := by
  obtain ⟨phase,rest,s⟩ := c
  cases phase with
  | entering =>
    cases rest with
    | nil => exact patched
    | cons env rest =>
      simp only [step]
      split
      · exact patched
      · split
        · split <;> exact patched
        · exact patched
  | testing globalId unitName index =>
    cases rest with
    | nil => exact patched
    | cons env rest =>
      have own := @testPatched functionName newValue envs env globalId unitName index s theirs value plain
        (listed.subset List.mem_cons_self) edits patched
      simp only [step,stepVisits]
      split <;> rename_i run <;> rw [run] at own <;> exact own
  | finished | exited | crashed => exact patched

theorem failuresPatchValues {all : List SetReturn.Environment} {dats : Dats} {n : Nat} (value : Plain newValue)
    (plain : ∀ key actual, Reported envs key actual → Plain actual) (matched : List.Forall₂ SameEnvironment envs all)
    (edits : ∀ m, m < n →
      EditsBeforeFailing functionName newValue (steps functionName newValue m (start envs dats)))
    (through : (steps functionName newValue n (start envs dats)).phase = .finished ∨
      (steps functionName newValue n (start envs dats)).phase = .exited) :
    ∃ enough, ∀ fuel, enough ≤ fuel → ∃ final, setReturn functionName newValue fuel all dats = some final ∧
      ∀ path, Patched envs newValue ((steps functionName newValue n (start envs dats)).state.dats path)
        (final path) := by
  have files (m : Nat) (early : m ≤ n) : ∀ path, Patched envs newValue
      ((steps functionName newValue m (start envs dats)).state.dats path)
      ((visitsBefore functionName newValue (start envs dats) m).foldl (applyVisit newValue) dats path) := by
    induction m with
    | zero => exact fun path => .inl rfl
    | succ m ih =>
      rw [steps,visitsBefore,List.foldl_append]
      exact stepPatched value plain (stepsRest envs dats m) (edits m early) (ih (by omega))
  have progress := @runProgress functionName newValue envs all matched dats n
  have whole : visitsBefore functionName newValue (start envs dats) n =
      (entered functionName all).flatMap (environmentVisits functionName) := by
    unfold Progress at progress
    rcases through with phase | phase <;> simpa only [phase] using progress
  obtain ⟨enough,expected⟩ := expectedFinal functionName newValue all dats
  refine ⟨enough,fun fuel late => ⟨_,expected fuel late,?_⟩⟩
  rw [← whole]
  exact files n (Nat.le_refl n)

end

theorem sampleMatches (test : Nat) : List.Forall₂ SameEnvironment [failingAt test] [sampleEnvironment] :=
  .cons ⟨rfl,rfl,rfl,rfl⟩ .nil

theorem sampleQuietEvents (n : Nat) :
    Quiet (steps sampleFunction "0".toList n (start [failingAt 0] (onlyDat ownLast))).state.events := by
  have one : (steps sampleFunction "0".toList 2 (start [failingAt 0] (onlyDat ownLast))).state.events =
      [.clicast "clicast -e HAL1 -u hal -s ioctl -t ioctl.001 EXecute run".toList true] := by rfl
  have two : ∀ m ∈ [3,4,5], (steps sampleFunction "0".toList m (start [failingAt 0] (onlyDat ownLast))).state.events =
      [.clicast "clicast -e HAL1 -u hal -s ioctl -t ioctl.001 EXecute run".toList true,
        .clicast "clicast -e HAL1 -u hal -s ioctl -t ioctl.002 EXecute run".toList true] := by
    simp only [List.mem_cons,List.not_mem_nil,or_false,forall_eq_or_imp,forall_eq]
    exact ⟨rfl,rfl,rfl⟩
  have last : (steps sampleFunction "0".toList 5 (start [failingAt 0] (onlyDat ownLast))).phase = .finished := by rfl
  have forms : n = 0 ∨ n = 1 ∨ n = 2 ∨ n ∈ [3,4,5] ∨ 5 ≤ n := by simp; omega
  intro command mem
  rcases forms with rfl | rfl | rfl | few | late
  · exact List.not_mem_nil mem
  · exact List.not_mem_nil mem
  · rw [one] at mem
    simp at mem
  · rw [two n few] at mem
    simp at mem
  · rw [endedLater (.inl last) late,two 5 (by simp)] at mem
    simp at mem

theorem sampleQuietRun : ∃ enough, ∀ n, enough ≤ n →
    ((steps sampleFunction "0".toList n (start [failingAt 0] (onlyDat ownLast))).phase = .finished ∨
      (steps sampleFunction "0".toList n (start [failingAt 0] (onlyDat ownLast))).phase = .exited) ∧
    setReturn sampleFunction "0".toList n [sampleEnvironment] (onlyDat ownLast) =
      some (steps sampleFunction "0".toList n (start [failingAt 0] (onlyDat ownLast))).state.dats :=
  quietRunExpected (sampleMatches 0) sampleQuietEvents

theorem sampleFailuresPatch : ∃ enough, ∀ fuel, enough ≤ fuel → ∃ final,
    setReturn sampleFunction "0".toList fuel [sampleEnvironment] (onlyDat ownLast) = some final ∧
    ∀ path, Patched [failingAt 1] "0".toList
      ((steps sampleFunction "0".toList 5 (start [failingAt 1] (onlyDat ownLast))).state.dats path) (final path) := by
  refine failuresPatchValues (by decide) ?_ (sampleMatches 1) (fun m less => ?_) (.inl (by rfl))
  · intro key actual reported
    obtain ⟨env,listed,index,datId,found⟩ := reported
    rw [List.mem_singleton.mp listed] at found
    have value : actual = "-1".toList := by
      by_cases own : key = "0.1.2.7".toList
      · have known : getTrueValueFromXml (some sampleReport) "0.1.2.7".toList = some "-1".toList := by rfl
        rw [own] at found
        exact Option.some.inj (found.symm.trans known)
      · have single : ∃ e, (findall "command_data".toList sampleReport).reverse = [e] ∧ ∃ command,
            find "harness_command".toList e = some command ∧ command.text = some "0.1.2.7".toList := ⟨_,rfl,_,rfl,rfl⟩
        obtain ⟨e,only,command,first,text⟩ := single
        have past : ¬Ends key e := by
          intro ends
          obtain ⟨⟨other,same,ownText⟩,_⟩ := ends
          rw [first] at same
          cases same
          rw [text] at ownText
          exact own (Option.some.inj ownText).symm
        have none : getTrueValueFromXml (some sampleReport) key = lookBack key [] := by
          rw [getTrueValueFromXml,only,lookBackPast past]
        exact absurd (none.symm.trans found) (by simp [lookBack])
    rw [value]
    decide
  · have early : m = 0 ∨ m = 1 ∨ m = 2 ∨ m = 3 ∨ m = 4 := by omega
    rcases early with rfl | rfl | rfl | rfl | rfl
    · trivial
    · intro _ _ _
      exact ⟨by decide,[],⟨samplePath,some "0.1.2.7".toList⟩,by decide,"0.1.2.7%5\n".toList,by decide,by decide⟩
    · intro _ succeeds
      cases succeeds
    · intro _ succeeds
      cases succeeds
    · trivial

end KernelTestTools.SetActReturn
