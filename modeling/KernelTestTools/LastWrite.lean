import KernelTestTools.SetReturn

/-! A run of Set_Return on well-terminated DAT files. The first visit that changes a file
leaves its own entry on the last line, and from then on every visit rewrites that value, so
the value of the last run is the one that stays. -/
namespace KernelTestTools.SetReturn
open TextFile Regex DatFiles Xml

/- What the script assumes of a DAT file it did not write itself. -/
def WellTerminated (file : Option DatFile) : Prop :=
  ∀ content, file = some (.text content) → content ≠ [] → '\r' ∉ content ∧ ['\n'] <:+ content

structure SafeKey (k : Text) : Prop where
  marked : percent ∉ k
  plain : Plain k
  trimmed : lstrip k = k

def SafeGlobalId (functionName : Text) (env : Environment) : Prop :=
  ∀ globalId, getGlobalId env.param functionName = some globalId → percent ∉ globalId ∧ Plain globalId

theorem extractDigits {x : XmlFile} {unitSub : Text × Text}
    (found : extractUnitAndSubprogram x = some unitSub) :
    ∀ c, c ∈ unitSub.1 ∨ c ∈ unitSub.2 → isDigit c = true := by
  obtain ⟨content,_,found⟩ := Option.bind_eq_some_iff.mp found
  obtain ⟨⟨_,unit⟩,hu,found⟩ := Option.bind_eq_some_iff.mp found
  obtain ⟨⟨_,subprogram⟩,hs,same⟩ := Option.bind_eq_some_iff.mp found
  cases same
  intro c mem
  rcases mem with u | s
  · exact searchClass hu c u
  · exact searchClass hs c s

theorem entryKeyTrimmed (globalId : Text) (unitSub : Text × Text) :
    lstrip (entryKey globalId unitSub) = entryKey globalId unitSub := by
  have start : entryKey globalId unitSub =
      '0'::('.'::(unitSub.1 ++ ['.'] ++ unitSub.2 ++ ['.'] ++ globalId)) := by
    delta entryKey
    simp
  obtain ⟨_,_,_,_,zero⟩ := spaceFree
  rw [start,lstrip,List.dropWhile_cons,zero]
  rfl

theorem entryKeySafe {x : XmlFile} {globalId : Text} {unitSub : Text × Text}
    (found : extractUnitAndSubprogram x = some unitSub) (marked : percent ∉ globalId)
    (plain : Plain globalId) : SafeKey (entryKey globalId unitSub) := by
  have digits := extractDigits found
  have absent : ∀ c, isDigit c = false → c ≠ '0' → c ≠ '.' → c ∉ globalId →
      c ∉ entryKey globalId unitSub := by
    intro c other zero dot out mem
    have shape : entryKey globalId unitSub =
        ['0','.'] ++ unitSub.1 ++ ['.'] ++ unitSub.2 ++ ['.'] ++ globalId := rfl
    rw [shape] at mem
    simp only [List.mem_append,List.mem_cons,List.not_mem_nil,or_false] at mem
    rcases mem with ((((zeroDot | u) | one) | s) | two) | g
    · rcases zeroDot with h | h
      · exact zero h
      · exact dot h
    · simp [digits c (.inl u)] at other
    · exact dot one
    · simp [digits c (.inr s)] at other
    · exact dot two
    · exact out g
  obtain ⟨_,noPercent,noLine,noReturn,_⟩ := spaceFree
  refine ⟨absent percent noPercent (by decide) (by decide) marked,
    ⟨absent '\n' noLine (by decide) (by decide) plain.1,
      absent '\r' noReturn (by decide) (by decide) plain.2⟩,entryKeyTrimmed globalId unitSub⟩

theorem runKeysSafe {functionName : Text} {envs : List Environment}
    (safe : ∀ env ∈ envs, SafeGlobalId functionName env) {fuel : Nat} {visits : List Visit}
    (run : runVisits functionName fuel envs = some visits) :
    ∀ v ∈ visits, ∀ k, v.key = some k → SafeKey k := by
  refine runVisitsAll (fun env mem globalId param x v visit k key => ?_) run
  obtain ⟨id,_,rfl⟩ := Option.map_eq_some_iff.mp visit
  obtain ⟨unitSub,found,rfl⟩ := Option.map_eq_some_iff.mp key
  obtain ⟨marked,plain⟩ := safe env mem globalId param
  exact entryKeySafe found marked plain

theorem keyOfVisit {visits : List Visit} {path : Path} {k : Text}
    (mem : some k ∈ keysAt visits path) : ∃ v ∈ visits, v.path = path ∧ v.key = some k := by
  obtain ⟨v,hv,key⟩ := List.mem_map.mp mem
  obtain ⟨listed,here⟩ := List.mem_filter.mp hv
  exact ⟨v,listed,of_decide_eq_true here,key⟩

theorem wellTerminatedLines {content : Text} (clean : '\r' ∉ content) (ends : ['\n'] <:+ content) :
    ∀ l ∈ lines (universalNewlines content), Terminated l ∧ '\r' ∉ l := by
  rw [noReturnUnchanged clean]
  intro l mem
  exact ⟨linesTerminated ends l mem,fun inside => clean (lineSubset mem inside)⟩

theorem updateSettles {file : Option DatFile} {key : Option Text} (good : WellTerminated file)
    (safe : ∀ k, key = some k → SafeKey k) :
    (∀ v, (updateDat v key file).1 = file) ∨
      ∃ init k, Settled init k ∧ ∀ v, (updateDat v key file).1 =
        some (.text (init.flatten ++ entryLine k v)) := by
  obtain empty | rfl | ⟨content,init,k,r,rfl,_,split,free⟩ | ⟨content,init,last,rfl,nonempty,split,unmarked⟩ :=
    fileForms file
  · cases key with
    | none =>
      left
      intro v
      rw [updateFresh empty]
      rfl
    | some k =>
      right
      obtain ⟨marked,plain,trimmed⟩ := safe k rfl
      refine ⟨[],k,⟨by simp,marked,plain,trimmed⟩,fun v => ?_⟩
      rw [updateFresh empty]
      rfl
  · exact .inl (fun _ => rfl)
  · right
    refine ⟨init,lstrip k,settledSplit split free,fun v => ?_⟩
    rw [updatePercent split free]
  · cases key with
    | none =>
      left
      intro v
      rw [updateNoPercent split unmarked]
      rfl
    | some k =>
      right
      obtain ⟨clean,ends⟩ := good content rfl nonempty
      have ordered := wellTerminatedLines clean ends
      have joined := linesJoin (universalNewlines content)
      rw [split] at ordered joined
      rw [noReturnUnchanged clean,List.flatten_concat] at joined
      obtain ⟨marked,plain,trimmed⟩ := safe k rfl
      refine ⟨init ++ [last],k,⟨ordered,marked,plain,trimmed⟩,fun v => ?_⟩
      rw [updateNoPercent split unmarked,List.flatten_concat,joined]
      rfl

theorem updatesSettled {init k v} (settled : Settled init k) (value : Plain v)
    (keys : List (Option Text)) :
    updates v keys (some (.text (init.flatten ++ entryLine k v))) =
      some (.text (init.flatten ++ entryLine k v)) := by
  induction keys with
  | nil => rfl
  | cons key keys ih =>
    rw [updates,List.foldl_cons,updateSettled settled value]
    exact ih

theorem updatesSettle {file : Option DatFile} {keys : List (Option Text)} (good : WellTerminated file)
    (safe : ∀ k, some k ∈ keys → SafeKey k) :
    (∀ v, updates v keys file = file) ∨
      ∃ init k, Settled init k ∧ ∀ v, Plain v → updates v keys file =
        some (.text (init.flatten ++ entryLine k v)) := by
  induction keys with
  | nil => exact .inl (fun _ => rfl)
  | cons key keys ih =>
    have tail := ih (fun k mem => safe k (List.mem_cons_of_mem _ mem))
    have first : ∀ k, key = some k → SafeKey k := fun k same => safe k (same ▸ List.mem_cons_self)
    rcases updateSettles good first with same | ⟨init,k,settled,step⟩
    · rcases tail with unchanged | ⟨init,k,settled,changed⟩
      · left
        intro v
        rw [updates,List.foldl_cons,same v]
        exact unchanged v
      · right
        refine ⟨init,k,settled,fun v value => ?_⟩
        rw [updates,List.foldl_cons,same v]
        exact changed v value
    · right
      refine ⟨init,k,settled,fun v value => ?_⟩
      rw [updates,List.foldl_cons,step v]
      exact updatesSettled settled value keys

theorem updatesTwice {file : Option DatFile} {keys : List (Option Text)} {first second : Text}
    (good : WellTerminated file) (safe : ∀ k, some k ∈ keys → SafeKey k) (value₁ : Plain first)
    (value₂ : Plain second) :
    updates second keys (updates first keys file) = updates second keys file := by
  rcases updatesSettle good safe with same | ⟨init,k,settled,changed⟩
  · rw [same first]
  · rw [changed first value₁,changed second value₂]
    cases keys with
    | nil =>
      rw [← changed first value₁,← changed second value₂]
      rfl
    | cons key keys =>
      rw [updates,List.foldl_cons,updateSettled settled value₁]
      exact updatesSettled settled value₂ keys

theorem lastWriteWins {functionName first second : Text} {envs : List Environment} {dats : Dats}
    (terminated : ∀ path, WellTerminated (dats path))
    (ids : ∀ env ∈ envs, SafeGlobalId functionName env) (value₁ : Plain first) (value₂ : Plain second) :
    ∃ enough, ∀ fuel, enough ≤ fuel → ∃ middle final,
      setReturn functionName first fuel envs dats = some middle ∧
      setReturn functionName second fuel envs middle = some final ∧
      setReturn functionName second fuel envs dats = some final := by
  obtain ⟨enough,visits,known⟩ := runVisitsEnough functionName envs
  refine ⟨enough,fun fuel h => ⟨visits.foldl (applyVisit first) dats,
    visits.foldl (applyVisit second) dats,?_,?_,?_⟩⟩
  · rw [setReturnVisits,known fuel h]
    rfl
  · rw [setReturnVisits,known fuel h,Option.map_some]
    congr 1
    funext path
    have safe : ∀ k, some k ∈ keysAt visits path → SafeKey k := by
      intro k mem
      obtain ⟨v,listed,_,key⟩ := keyOfVisit mem
      exact runKeysSafe ids (known fuel h) v listed k key
    rw [foldAt,foldAt,foldAt]
    exact updatesTwice (terminated path) safe value₁ value₂
  · rw [setReturnVisits,known fuel h]
    rfl

def sampleFunction : Text := "ioctl".toList

def sampleParam : Element :=
  .mk "params".toList [] none [.mk "subprog".toList [("name".toList,sampleFunction)] none
    [.mk "param".toList [("name".toList,"return".toList),("index".toList,"7".toList)] none []]]

def sampleDocument (name number : String) : XmlFile :=
  ⟨name.toList,some ("<name>ioctl.".toList ++ number.toList ++
    "</name>\n<unit>1</unit>\n".toList ++ "<subprogram>2</subprogram>\n".toList)⟩

def sampleEnvironment : Environment where
  stem := "HAL1".toList
  param := some sampleParam
  isDir := true
  files := [sampleDocument "T-1.XML" "001",sampleDocument "T-2.XML" "002"]
  rglob := fun _ => [sampleDocument "T-1.XML" "001",sampleDocument "T-2.XML" "002"]
  listed := fun _ => List.Perm.refl _

def sampleDats : Dats := fun path =>
  if path.2 = "1".toList then some (.text "expected\n".toList) else none

theorem sampleGlobalId : SafeGlobalId sampleFunction sampleEnvironment := by
  intro globalId param
  have seven : getGlobalId sampleEnvironment.param sampleFunction = some "7".toList := by decide
  rw [seven] at param
  cases param
  decide

theorem sampleLastWrite : ∃ enough, ∀ fuel, enough ≤ fuel → ∃ middle final,
    setReturn sampleFunction "1".toList fuel [sampleEnvironment] sampleDats = some middle ∧
    setReturn sampleFunction "0".toList fuel [sampleEnvironment] middle = some final ∧
    setReturn sampleFunction "0".toList fuel [sampleEnvironment] sampleDats = some final := by
  refine lastWriteWins ?_ ?_ (by decide) (by decide)
  · intro path content file _
    unfold sampleDats at file
    split at file
    · cases file
      decide
    · cases file
  · intro env mem
    rw [List.mem_singleton.mp mem]
    exact sampleGlobalId

end KernelTestTools.SetReturn
