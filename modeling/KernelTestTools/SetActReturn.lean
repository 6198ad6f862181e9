import KernelTestTools.KeyFrame

/-! Set_ACT_Return as a machine over its tests. After a failing clicast command it rewrites
a DAT file from the script's variables, which a test only assigns when it edits an entry. -/
namespace KernelTestTools.SetActReturn
open TextFile DatFiles Xml
open SetReturn (sampleFunction sampleParam sampleEnvironment samplePath onlyDat ownLast)

/- Each test's listing, R-id.XML documents and clicast exit codes, whatever the commands do
to the XML files in between; true is exit code zero. -/
structure Environment where
  stem : Text
  param : Option Element
  isDir : Bool
  tuFiles : List Text
  rglob : Nat → List XmlFile
  report : Nat → Text → Option Element
  clicast : Nat → Bool
  retry : Nat → Bool

structure Globals where
  lines : Option (List Text)
  lastLine : Option Text
  keyPrefix : Option Text
  datId : Option Text
  datPath : Option Path
  deriving DecidableEq, Repr

/- A rewrite of E-id.DAT in the failure branch, with the contents around it, and the R-id.XML
that the actual value comes from. -/
structure Rewrite where
  path : Path
  before : Option DatFile
  after : Option DatFile
  reportPath : Path
  report : Option Element

inductive Event where
  | clicast (command : Text) (succeeded : Bool)
  | rewrite (r : Rewrite)

structure State where
  globals : Globals
  dats : Dats
  events : List Event

def stemOf (name : Text) : Text :=
  let front := name.rdropWhile (· != '.')
  if 1 < front.length ∧ front.length < name.length then front.dropLast else name

def getUnitNameFromTuC (tuFiles : List Text) : Option Text :=
  tuFiles.head?.map (fun name => (fields '.' (stemOf name)).headD [])

def clicastCommand (stem unitName functionName : Text) (index : Nat) : Text :=
  "clicast -e ".toList ++ stemOf stem ++ " -u ".toList ++ unitName ++ " -s ".toList ++ functionName ++
    " -t ".toList ++ fullFunction functionName index ++ " EXecute run".toList

/- One numbered match; what it does not assign keeps the value of an earlier match. -/
def updateGlobals (newValue : Text) (s : Globals × Dats) (visit : Visit) : Globals × Dats :=
  let (file,assigned) := updateDat newValue visit.key (s.2 visit.path)
  (⟨assigned.lines.or s.1.lines,assigned.lastLine.or s.1.lastLine,
    assigned.keyPrefix.or s.1.keyPrefix,some visit.path.2,some visit.path⟩,
    write s.2 visit.path file)

inductive Flow where
  | next
  | stop
  | crash
  deriving DecidableEq, Repr

/- The handler of a failed command. A variable that no match has assigned is a NameError. -/
def clicastFailed (env : Environment) (index : Nat) (command : Text) (s : State) : State × Flow :=
  match s.globals.lastLine,s.globals.datId with
  | some lastLine,some datId =>
    let harnessCommandValue := (fields percent lastLine).headD []
    let report := env.report index datId
    match getTrueValueFromXml report harnessCommandValue with
    | none | some [] => (s,.next)
    | some trueValue => match s.globals.keyPrefix,s.globals.lines,s.globals.datPath with
      | some keyPrefix,some (l::ls),some path =>
        let changed := (l::ls).dropLast ++ [entryLine keyPrefix trueValue]
        let after := some (DatFile.text changed.flatten)
        (⟨{ s.globals with lines := some changed },write s.dats path after,
          s.events ++ [.rewrite ⟨path,s.dats path,after,(env.stem,datId),report⟩,
            .clicast command (env.retry index)]⟩,
          .next)
      | _,_,_ => (s,.crash)
  | _,_ => (s,.crash)

def runTest (functionName newValue globalId unitName : Text) (env : Environment) (index : Nat)
    (s : State) : State × Flow :=
  let (found,globals,dats) := (env.rglob index).foldl
    (visitXml (updateGlobals newValue) functionName globalId env.stem index)
    (false,s.globals,s.dats)
  if found then
    let command := clicastCommand env.stem unitName functionName index
    let ran := State.mk globals dats (s.events ++ [.clicast command (env.clicast index)])
    if env.clicast index then (ran,.next) else clicastFailed env index command ran
  else (⟨globals,dats,s.events⟩,.stop)

inductive Phase where
  | entering
  | testing (globalId unitName : Text) (index : Nat)
  | finished
  | exited
  | crashed
  deriving DecidableEq, Repr

structure Config where
  phase : Phase
  rest : List Environment
  state : State

def step (functionName newValue : Text) (c : Config) : Config :=
  match c.phase,c.rest with
  | .entering,[] => { c with phase := .finished }
  | .entering,env::rest => match getGlobalId env.param functionName with
    | none => { c with phase := .exited }
    | some globalId =>
      if env.isDir then match getUnitNameFromTuC env.tuFiles with
        | none => { c with rest := rest }
        | some unitName => { c with phase := .testing globalId unitName 1 }
      else { c with rest := rest }
  | .testing globalId unitName index,env::rest =>
    match runTest functionName newValue globalId unitName env index c.state with
    | (s,.next) => ⟨.testing globalId unitName (index+1),env::rest,s⟩
    | (s,.stop) => ⟨.entering,rest,s⟩
    | (s,.crash) => ⟨.crashed,env::rest,s⟩
  | _,_ => c

def steps (functionName newValue : Text) : Nat → Config → Config
  | 0,c => c
  | n+1,c => step functionName newValue (steps functionName newValue n c)

def start (envs : List Environment) (dats : Dats) : Config :=
  ⟨.entering,envs,⟨⟨none,none,none,none,none⟩,dats,[]⟩⟩

def readLine (file : Option DatFile) : Option Text := (entries file).getLast?.map strip

/- The last such line that the matches meet, each in the DAT files that the ones before it
have left; line is what was met before them. -/
def lastRead (newValue : Text) : Option Text → Dats → List Visit → Option Text
  | line,_,[] => line
  | line,dats,visit::visits =>
    lastRead newValue ((readLine (dats visit.path)).or line) (applyVisit newValue dats visit) visits

def MeetsEntry (newValue : Text) : Dats → List Visit → Prop
  | _,[] => False
  | dats,visit::visits => (∃ line ∈ readLine (dats visit.path), percent ∈ line) ∨
      MeetsEntry newValue (applyVisit newValue dats visit) visits

def lastId (id : Option Text) (visits : List Visit) : Option Text :=
  (visits.getLast?.map (fun visit => visit.path.2)).or id

def reported (env : Environment) (index : Nat) (id line : Text) : Option Text :=
  getTrueValueFromXml (env.report index id) ((fields percent line).headD [])

def Faithful (r : Rewrite) : Prop := r.reportPath = r.path ∧ ∃ init key old actual, percent ∉ key ∧
  r.before = some (.text (init.flatten ++ entryLine key old)) ∧
  lines (universalNewlines (init.flatten ++ entryLine key old)) = init ++ [entryLine key old] ∧
  getTrueValueFromXml r.report key = some actual ∧
  r.after = some (.text (init.flatten ++ entryLine key actual))

def AllFaithful (events : List Event) : Prop := ∀ r, .rewrite r ∈ events → Faithful r

def LastVisitEdits (functionName newValue globalId : Text) (env : Environment) (index : Nat)
    (dats : Dats) : Prop :=
  ∃ earlier visit, matchingVisits functionName globalId env.stem index (env.rglob index) =
      earlier ++ [visit] ∧
    ∃ line ∈ (entries (earlier.foldl (applyVisit newValue) dats visit.path)).getLast?, percent ∈ line

/- The handler of a failed command rewrites: R-id.XML of the last match has an actual value for
the entry of the last line read, and prefix is known. -/
def WritesBack (newValue : Text) (env : Environment) (index : Nat) (g : Globals) (dats : Dats)
    (visits : List Visit) : Prop :=
  (∃ line ∈ lastRead newValue g.lastLine dats visits, ∃ id ∈ lastId g.datId visits,
    ∃ c value, reported env index id line = some (c::value)) ∧
  (MeetsEntry newValue dats visits ∨ g.keyPrefix.isSome)

/- Whenever the handler rewrites, its own test has edited an entry. -/
def EditsBeforeFailing (functionName newValue : Text) (c : Config) : Prop :=
  match c.phase,c.rest with
  | .testing globalId _ index,env::_ =>
    (env.rglob index).any (inSomeLine (namePattern functionName index)) = true →
      env.clicast index = false →
        WritesBack newValue env index c.state.globals c.state.dats
          (matchingVisits functionName globalId env.stem index (env.rglob index)) →
        Plain newValue ∧ LastVisitEdits functionName newValue globalId env index c.state.dats
  | _,_ => True

theorem updateGlobalsDats (newValue : Text) (visits : List Visit) (s : Globals × Dats) :
    (visits.foldl (updateGlobals newValue) s).2 = visits.foldl (applyVisit newValue) s.2 := by
  induction visits generalizing s with
  | nil => rfl
  | cons visit visits ih => exact ih (updateGlobals newValue s visit)

structure Edited (newValue : Text) (s : Globals × Dats) (init : List Text) (key : Text) (path : Path) :
    Prop where
  settled : Settled init key
  lines : s.1.lines = some (init ++ [entryLine key newValue])
  lastLine : ∃ lastLine, s.1.lastLine = some lastLine ∧ (fields percent lastLine).headD [] = key
  keyPrefix : s.1.keyPrefix = some key
  datId : s.1.datId = some path.2
  datPath : s.1.datPath = some path
  written : s.2 path = some (.text (init.flatten ++ entryLine key newValue))

theorem lastVisitEdited {functionName newValue globalId : Text} {env : Environment} {index : Nat}
    {s : Globals × Dats} (edits : LastVisitEdits functionName newValue globalId env index s.2) :
    ∃ init key path, path.1 = env.stem ∧ Edited newValue ((matchingVisits functionName globalId
      env.stem index (env.rglob index)).foldl (updateGlobals newValue) s) init key path := by
  obtain ⟨earlier,visit,shape,line,last,marked⟩ := edits
  have dir : visit.path.1 = env.stem := matchingDir (shape ▸ List.mem_concat_self)
  rw [shape,List.foldl_append,List.foldl_cons,List.foldl_nil]
  have before := updateGlobalsDats newValue earlier s
  generalize earlier.foldl (updateGlobals newValue) s = t at before ⊢
  rw [← before] at last
  cases file : t.2 visit.path with
  | none => simp [file,entries] at last
  | some dat =>
    cases dat with
    | undecodable => simp [file,entries] at last
    | text content =>
      rw [file,entries] at last
      obtain ⟨init,split⟩ := List.getLast?_eq_some_iff.mp last
      obtain ⟨k,r,rfl,free⟩ := List.eq_append_cons_of_mem marked
      have settled := settledSplit split free
      have name := keyOfEntry r free
      refine ⟨init,lstrip k,visit.path,dir,settled,?_,⟨strip (k ++ percent::r),?_,name⟩,?_,?_,?_,?_⟩ <;>
        simp [updateGlobals,file,updatePercent split free,write]

theorem assignedForms (newValue : Text) (key : Option Text) (file : Option DatFile) :
    ((updateDat newValue key file).2 = unassigned ∧ readLine file = none) ∨
    ∃ l ls line, readLine file = some line ∧ (updateDat newValue key file).2 =
      ⟨some (l::ls),some line,if percent ∈ line then some ((fields percent line).headD []) else none⟩ := by
  have read {content last : Text} {init : List Text} (split : lines (universalNewlines content) = init ++ [last]) :
      readLine (some (.text content)) = some (strip last) := by
    rw [readLine,entries,split,List.getLast?_concat]
    rfl
  obtain empty | rfl | ⟨content,init,k,r,rfl,_,split,free⟩ | ⟨content,init,last,rfl,_,split,unmarked⟩ :=
    fileForms file
  · left
    refine ⟨by rw [updateFresh empty],?_⟩
    rcases empty with rfl | rfl <;> rfl
  · exact .inl ⟨rfl,rfl⟩
  · right
    have marked : percent ∈ strip (k ++ percent::r) := percentKept.mpr (by simp)
    obtain ⟨l,ls,shape⟩ := List.exists_cons_of_ne_nil
      (show init ++ [entryLine (lstrip k) newValue] ≠ [] by simp)
    refine ⟨l,ls,_,read split,?_⟩
    rw [updatePercent split free,if_pos marked,keyOfEntry r free,shape]
  · right
    obtain ⟨l,ls,shape⟩ := List.exists_cons_of_ne_nil (show init ++ [last] ≠ [] by simp)
    refine ⟨l,ls,_,read split,?_⟩
    rw [updateNoPercent split unmarked,if_neg (fun mem => unmarked (percentKept.mp mem)),shape]

section
variable {newValue : Text}

theorem globalsLastLine (s : Globals × Dats) (visit : Visit) :
    (updateGlobals newValue s visit).1.lastLine = (readLine (s.2 visit.path)).or s.1.lastLine := by
  rcases assignedForms newValue visit.key (s.2 visit.path) with ⟨same,none⟩ | ⟨l,ls,line,read,same⟩
  · simp [updateGlobals,same,none,unassigned]
  · simp [updateGlobals,same,read]

theorem globalsPrefix (s : Globals × Dats) (visit : Visit) :
    (updateGlobals newValue s visit).1.keyPrefix.isSome ↔
      (∃ line ∈ readLine (s.2 visit.path), percent ∈ line) ∨ s.1.keyPrefix.isSome := by
  rcases assignedForms newValue visit.key (s.2 visit.path) with ⟨same,none⟩ | ⟨l,ls,line,read,same⟩
  · simp [updateGlobals,same,none,unassigned]
  · by_cases marked : percent ∈ line <;> simp [updateGlobals,same,read,marked]

theorem visitsGlobals (visits : List Visit) (s : Globals × Dats) :
    (visits.foldl (updateGlobals newValue) s).1.lastLine = lastRead newValue s.1.lastLine s.2 visits ∧
    (visits.foldl (updateGlobals newValue) s).1.datId = lastId s.1.datId visits ∧
    ((visits.foldl (updateGlobals newValue) s).1.keyPrefix.isSome ↔
      MeetsEntry newValue s.2 visits ∨ s.1.keyPrefix.isSome) := by
  induction visits generalizing s with
  | nil => exact ⟨rfl,rfl,by simp [MeetsEntry]⟩
  | cons visit visits ih =>
    obtain ⟨line,id,split⟩ := ih (updateGlobals newValue s visit)
    have dats : (updateGlobals newValue s visit).2 = applyVisit newValue s.2 visit := rfl
    rw [List.foldl_cons]
    refine ⟨?_,?_,?_⟩
    · rw [line,globalsLastLine,dats,lastRead]
    · rw [id]
      cases visits with
      | nil => rfl
      | cons next visits =>
        rw [lastId,lastId,List.getLast?_cons_cons,List.getLast?_cons]
        rfl
    · rw [split,globalsPrefix,dats,MeetsEntry]
      constructor
      · intro either
        rcases either with later | here | before
        · exact .inl (.inr later)
        · exact .inl (.inl here)
        · exact .inr before
      · intro either
        rcases either with (here | later) | before
        · exact .inr (.inl here)
        · exact .inl later
        · exact .inr (.inr before)

end

section
variable {env : Environment} {index : Nat} {command line id : Text} {s : State}

section
variable (known : s.globals.lastLine = some line) (numbered : s.globals.datId = some id)
include known numbered

theorem failedIdle (idle : ∀ c value, reported env index id line ≠ some (c::value)) :
    clicastFailed env index command s = (s,.next) := by
  unfold reported at idle
  simp only [clicastFailed,known,numbered]
  split
  · rfl
  · rfl
  · rename_i value nonempty found
    obtain ⟨c,rest,rfl⟩ := List.exists_cons_of_ne_nil nonempty
    exact absurd found (idle c rest)

theorem failedCrash {c : Char} {value : Text} (found : reported env index id line = some (c::value))
    (unknown : s.globals.keyPrefix = none) : clicastFailed env index command s = (s,.crash) := by
  unfold reported at found
  simp only [clicastFailed,known,numbered,found,unknown]

end

theorem clicastFailedSilent {newValue : Text} {visits : List Visit} {t : Globals × Dats}
    (after : (s.globals,s.dats) = visits.foldl (updateGlobals newValue) t)
    (silent : ¬ WritesBack newValue env index t.1 t.2 visits) :
    (clicastFailed env index command s).1 = s := by
  obtain ⟨lines,ids,prefixes⟩ := @visitsGlobals newValue visits t
  rw [← after] at lines ids prefixes
  simp only at lines ids prefixes
  cases known : s.globals.lastLine with
  | none => simp only [clicastFailed,known]
  | some line =>
    cases numbered : s.globals.datId with
    | none => simp only [clicastFailed,known,numbered]
    | some id =>
      by_cases value : ∃ c value, reported env index id line = some (c::value)
      · obtain ⟨c,value,found⟩ := value
        have unknown : s.globals.keyPrefix = none := by
          rw [Option.eq_none_iff_forall_not_mem]
          intro k some
          have split := prefixes.mp (by rw [some]; rfl)
          exact silent ⟨⟨line,lines ▸ known,id,ids ▸ numbered,c,value,found⟩,split⟩
        rw [failedCrash known numbered found unknown]
      · rw [failedIdle known numbered (fun c rest found => value ⟨c,rest,found⟩)]

end

theorem clicastFailedEvents {env : Environment} {index : Nat} {command newValue : Text} {s : State}
    {init : List Text} {key : Text} {path : Path} (value : Plain newValue) (dir : path.1 = env.stem)
    (edited : Edited newValue (s.globals,s.dats) init key path) :
    ∃ new, (clicastFailed env index command s).1.events = s.events ++ new ∧ AllFaithful new := by
  obtain ⟨settled,ls,⟨lastLine,hl,name⟩,kp,id,dp,written⟩ := edited
  simp only at ls hl kp id dp written
  unfold clicastFailed
  rw [hl,id]
  simp only [name]
  split
  · exact ⟨[],by simp,by simp [AllFaithful]⟩
  · exact ⟨[],by simp,by simp [AllFaithful]⟩
  · rename_i trueValue nonempty found
    rw [kp,ls,dp]
    obtain ⟨l,rest,cons⟩ := List.exists_cons_of_ne_nil
      (show init ++ [entryLine key newValue] ≠ [] by simp)
    rw [cons]
    simp only
    refine ⟨_,rfl,?_⟩
    intro r mem
    simp only [List.mem_cons,Event.rewrite.injEq,List.not_mem_nil,or_false,reduceCtorEq] at mem
    rw [mem]
    refine ⟨by rw [← dir],init,key,newValue,trueValue,settled.marked,written,settledLines settled value,found,?_⟩
    simp [← cons]

theorem runTestEvents {functionName newValue globalId unitName : Text} {env : Environment}
    {index : Nat} {s : State}
    (edits : (env.rglob index).any (inSomeLine (namePattern functionName index)) = true →
      env.clicast index = false →
        WritesBack newValue env index s.globals s.dats
          (matchingVisits functionName globalId env.stem index (env.rglob index)) →
        Plain newValue ∧ LastVisitEdits functionName newValue globalId env index s.dats) :
    ∃ new, (runTest functionName newValue globalId unitName env index s).1.events = s.events ++ new ∧
      AllFaithful new := by
  unfold runTest
  rw [visitXmlFold]
  simp only [Bool.false_or]
  split
  · rename_i found
    cases succeeded : env.clicast index with
    | true => exact ⟨_,rfl,by simp [AllFaithful]⟩
    | false =>
      simp only [Bool.false_eq_true,if_false]
      by_cases writes : WritesBack newValue env index s.globals s.dats
          (matchingVisits functionName globalId env.stem index (env.rglob index))
      · obtain ⟨value,edit⟩ := edits found succeeded writes
        obtain ⟨init,key,path,dir,edited⟩ := @lastVisitEdited _ newValue _ _ _ (s.globals,s.dats) edit
        obtain ⟨new,events,faithful⟩ := @clicastFailedEvents env index
          (clicastCommand env.stem unitName functionName index) newValue
          ⟨_,_,s.events ++ [.clicast (clicastCommand env.stem unitName functionName index) false]⟩
          init key path value dir edited
        rw [events,List.append_assoc]
        refine ⟨_,rfl,?_⟩
        intro r mem
        exact faithful r (by simpa using mem)
      · rw [clicastFailedSilent rfl writes]
        exact ⟨_,rfl,by simp [AllFaithful]⟩
  · exact ⟨[],by simp,by simp [AllFaithful]⟩

theorem stepEvents {functionName newValue : Text} {c : Config}
    (edits : EditsBeforeFailing functionName newValue c) :
    ∃ new, (step functionName newValue c).state.events = c.state.events ++ new ∧
      AllFaithful new := by
  obtain ⟨phase,rest,s⟩ := c
  have same : ∃ new : List Event, s.events = s.events ++ new ∧ AllFaithful new :=
    ⟨[],by simp,by simp [AllFaithful]⟩
  cases phase with
  | entering =>
    cases rest with
    | nil => exact same
    | cons env rest =>
      simp only [step]
      split
      · exact same
      · split
        · split <;> exact same
        · exact same
  | testing globalId unitName index =>
    cases rest with
    | nil => exact same
    | cons env rest =>
      obtain ⟨new,events,faithful⟩ := @runTestEvents functionName newValue globalId unitName env index
        s edits
      refine ⟨new,?_,faithful⟩
      rw [← events]
      simp only [step]
      split <;> rename_i run <;> rw [run]
  | finished => exact same
  | exited => exact same
  | crashed => exact same

theorem rewritesFaithful {functionName newValue : Text} {envs : List Environment} {dats : Dats} (n : Nat)
    (edits : ∀ m, m < n →
      EditsBeforeFailing functionName newValue (steps functionName newValue m (start envs dats))) :
    AllFaithful (steps functionName newValue n (start envs dats)).state.events := by
  induction n with
  | zero => simp [steps,start,AllFaithful]
  | succ n ih =>
    obtain ⟨new,events,faithful⟩ := stepEvents (edits n (Nat.lt_succ_self n))
    intro r mem
    rw [steps,events] at mem
    rcases List.mem_append.mp mem with early | late
    · exact ih (fun m less => edits m (Nat.lt_succ_of_lt less)) r early
    · exact faithful r late

def sampleReport : Element :=
  .mk "results".toList [] none [.mk "command_data".toList [] none
    [.mk "harness_command".toList [] (some "0.1.2.7".toList) [],
      .mk "actual_value".toList [] (some " -1 ".toList) []]]

def failingAt (test : Nat) : Environment where
  stem := "HAL1".toList
  param := some sampleParam
  isDir := true
  tuFiles := ["hal.tu.c".toList]
  rglob := sampleEnvironment.rglob
  report := fun _ _ => some sampleReport
  clicast := fun index => index != test
  retry := fun _ => true

def staleRewrite : Rewrite where
  path := ("HAL1".toList,"2".toList)
  before := some (.text "0.1.2.7%0\n".toList)
  after := some (.text "0.9.9.9%3\n0.1.2.7%-1\n".toList)
  reportPath := ("HAL1".toList,"2".toList)
  report := some sampleReport

theorem sampleRewritesFaithful : AllFaithful
    (steps sampleFunction "0".toList 2 (start [failingAt 1] (onlyDat ownLast))).state.events := by
  refine rewritesFaithful 2 (fun m less => ?_)
  have first : m = 0 ∨ m = 1 := by omega
  rcases first with rfl | rfl
  · exact trivial
  · intro _ _ _
    exact ⟨by decide,[],⟨samplePath,some "0.1.2.7".toList⟩,by decide,"0.1.2.7%5\n".toList,by decide,by decide⟩

/- The second test's DAT file is created, its command fails, and it gets the lines that the
first test had read from its own DAT file. -/
theorem otherTestLeaks : .rewrite staleRewrite ∈
    (steps sampleFunction "0".toList 3 (start [failingAt 2] (onlyDat ownLast))).state.events ∧
      ¬ Faithful staleRewrite := by
  constructor
  · have run : (steps sampleFunction "0".toList 3 (start [failingAt 2] (onlyDat ownLast))).state.events =
      [.clicast "clicast -e HAL1 -u hal -s ioctl -t ioctl.001 EXecute run".toList true,
       .clicast "clicast -e HAL1 -u hal -s ioctl -t ioctl.002 EXecute run".toList false,
       .rewrite staleRewrite,
       .clicast "clicast -e HAL1 -u hal -s ioctl -t ioctl.002 EXecute run".toList true] := by rfl
    rw [run]
    simp
  · intro faithful
    obtain ⟨_,init,key,old,actual,free,before,split,_,after⟩ := faithful
    have same : init.flatten ++ entryLine key old = "0.1.2.7%0\n".toList := by
      simpa [staleRewrite] using before.symm
    have changed : init.flatten ++ entryLine key actual = "0.9.9.9%3\n0.1.2.7%-1\n".toList := by
      simpa [staleRewrite] using after.symm
    rw [same] at split
    have single : lines (universalNewlines "0.1.2.7%0\n".toList) = ["0.1.2.7%0\n".toList] := by decide
    rw [single] at split
    have empty : init = [] := by
      cases init with
      | nil => rfl
      | cons l init => simp at split
    rw [empty] at same changed
    have named := congrArg keyOf same
    have other := congrArg keyOf changed
    simp only [List.flatten_nil,List.nil_append,keyOfLine free] at named other
    rw [named] at other
    revert other
    decide

end KernelTestTools.SetActReturn
