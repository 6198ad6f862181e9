import KernelTestTools.EnvironmentRuns
import KernelTestTools.StepRuns

/-! Set_Return.py under two listings of the same XML files. The visits of one test come in
another order; on a DAT file in good shape they commute, because all those that could create
the entry would create the same one. -/
namespace KernelTestTools.SetReturn
open TextFile DatFiles Xml StepRuns

structure Reordered (env env' : Environment) : Prop where
  stem : env'.stem = env.stem
  param : env'.param = env.param
  isDir : env'.isDir = env.isDir
  files : env'.files = env.files

/- XML files with one trailing number that have both tags agree on them. -/
def TagsAgree (env : Environment) : Prop :=
  ∀ x ∈ env.files, ∀ y ∈ env.files, datId x = datId y → (datId x).isSome →
    ∀ a, extractUnitAndSubprogram x = some a → ∀ b, extractUnitAndSubprogram y = some b → a = b

def KeysAgree (keys : List (Option Text)) : Prop := ∀ a, some a ∈ keys → ∀ b, some b ∈ keys → a = b

/- Only a file without an entry on its last line looks at the key, and there no key changes
nothing. -/
theorem updateKeyFree (newValue : Text) (file : Option DatFile) :
    (∀ key, (updateDat newValue key file).1 = (updateDat newValue none file).1) ∨
      (updateDat newValue none file).1 = file := by
  obtain empty | rfl | ⟨content,init,k,r,rfl,_,split,free⟩ | ⟨content,init,last,rfl,_,split,unmarked⟩ :=
    fileForms file
  · right
    rw [updateFresh empty]
    rfl
  · exact .inr rfl
  · left
    intro key
    rw [updatePercent split free,updatePercent split free]
  · right
    rw [updateNoPercent split unmarked]
    rfl

theorem settledTerminated {init k v} (settled : Settled init k) (value : Plain v) :
    WellTerminated (some (.text (init.flatten ++ entryLine k v))) := by
  intro content same nonempty
  cases same
  obtain ⟨⟨body,_,ends⟩,clean⟩ := entryTerminated settled.plain value
  refine ⟨fun mem => ?_,?_⟩
  · rcases List.mem_append.mp mem with early | late
    · obtain ⟨l,listed,inside⟩ := List.mem_flatten.mp early
      exact (settled.terminated l listed).2 inside
    · exact clean late
  · rw [ends,← List.append_assoc]
    exact List.suffix_append _ _

section
variable {newValue : Text} {file : Option DatFile} {key : Option Text}

theorem updateTerminated (value : Plain newValue) (safe : ∀ k, key = some k → SafeKey k)
    (good : WellTerminated file) : WellTerminated (updateDat newValue key file).1 := by
  rcases updateSettles good safe with same | ⟨init,k,settled,changed⟩
  · rw [same newValue]
    exact good
  · rw [changed newValue]
    exact settledTerminated settled value

theorem updateAgain (value : Plain newValue) (safe : ∀ k, key = some k → SafeKey k)
    (good : WellTerminated file) (other : Option Text) :
    (updateDat newValue key file).1 = file ∨
      (updateDat newValue other (updateDat newValue key file).1).1 = (updateDat newValue key file).1 := by
  rcases updateSettles good safe with same | ⟨init,k,settled,changed⟩
  · exact .inl (same newValue)
  · right
    rw [changed newValue]
    exact updateSettled settled value

theorem keylessCommutes {k : Text} (value : Plain newValue) (safe : SafeKey k) (good : WellTerminated file) :
    (updateDat newValue none (updateDat newValue (some k) file).1).1 =
      (updateDat newValue (some k) (updateDat newValue none file).1).1 := by
  have keyed := @updateAgain newValue file (some k) value (fun _ same => Option.some.inj same ▸ safe) good none
  have keyless := @updateAgain newValue file none value (fun _ same => nomatch same) good (some k)
  rcases updateKeyFree newValue file with free | same
  · have alike := free (some k)
    rcases keyless with same | settled
    · rw [alike,same,same,alike,same]
    · rw [settled,alike]
      rcases keyed with same | again
      · rw [alike] at same
        rw [same,same]
      · rw [alike] at again
        exact again
  · rw [same]
    rcases keyed with unchanged | again
    · rw [unchanged,same]
    · exact again

theorem updatesCommute {a b : Option Text} (value : Plain newValue) (agree : KeysAgree [a,b])
    (safe : ∀ k, some k ∈ [a,b] → SafeKey k) (good : WellTerminated file) :
    (updateDat newValue b (updateDat newValue a file).1).1 =
      (updateDat newValue a (updateDat newValue b file).1).1 := by
  cases a with
  | none =>
    cases b with
    | none => rfl
    | some k => exact (keylessCommutes value (safe k (by simp)) good).symm
  | some j =>
    cases b with
    | none => exact keylessCommutes value (safe j (by simp)) good
    | some k => rw [agree j (by simp) k (by simp)]

theorem updatesPerm {keys keys' : List (Option Text)} (perm : keys.Perm keys') (value : Plain newValue)
    (agree : KeysAgree keys) (safe : ∀ k, some k ∈ keys → SafeKey k) (good : WellTerminated file) :
    updates newValue keys file = updates newValue keys' file ∧ WellTerminated (updates newValue keys file) := by
  have kept : ∀ key ∈ keys, ∀ f, WellTerminated f → WellTerminated (updateDat newValue key f).1 :=
    fun key mem f whole => updateTerminated value (fun k same => safe k (same ▸ mem)) whole
  have pair : ∀ a ∈ keys, ∀ b ∈ keys, ∀ k, some k ∈ [a,b] → some k ∈ keys := by
    intro a first b second k mem
    simp only [List.mem_cons,List.not_mem_nil,or_false] at mem
    rcases mem with rfl | rfl
    · exact first
    · exact second
  have commute : ∀ a ∈ keys, ∀ b ∈ keys, ∀ f, WellTerminated f →
      (updateDat newValue b (updateDat newValue a f).1).1 = (updateDat newValue a (updateDat newValue b f).1).1 :=
    fun a first b second f whole => updatesCommute value
      (fun j left k right => agree j (pair a first b second j left) k (pair a first b second k right))
      (fun k mem => safe k (pair a first b second k mem)) whole
  exact ⟨runPerm perm kept commute good,runKeeps kept good⟩

end

def SameUpdates (newValue : Text) (visits visits' : List Visit) : Prop :=
  ∀ path file, WellTerminated file →
    updates newValue (keysAt visits path) file = updates newValue (keysAt visits' path) file ∧
      WellTerminated (updates newValue (keysAt visits path) file)

theorem sameNil (newValue : Text) : SameUpdates newValue [] [] := fun _ _ good => ⟨rfl,good⟩

theorem sameAppend {newValue : Text} {front front' back back' : List Visit}
    (first : SameUpdates newValue front front') (last : SameUpdates newValue back back') :
    SameUpdates newValue (front ++ back) (front' ++ back') := by
  intro path file good
  obtain ⟨same,still⟩ := first path file good
  obtain ⟨same',still'⟩ := last path (updates newValue (keysAt front path) file) still
  rw [keysAtAppend,keysAtAppend]
  unfold updates at same same' still' ⊢
  rw [List.foldl_append,List.foldl_append,← same]
  exact ⟨same',still'⟩

section
variable {functionName newValue globalId : Text} {env env' : Environment}

theorem reorderedListing (same : Reordered env env') (index : Nat) :
    (env.rglob index).Perm (env'.rglob index) :=
  (env.listed index).trans (same.files ▸ (env'.listed index).symm)

theorem testUpdates (same : Reordered env env') (agree : TagsAgree env) (value : Plain newValue)
    (marked : percent ∉ globalId) (plain : Plain globalId) (index : Nat) :
    SameUpdates newValue (testVisits functionName globalId env index)
      (testVisits functionName globalId env' index) := by
  intro path file good
  have listing := reorderedListing same index
  have perm : (keysAt (testVisits functionName globalId env index) path).Perm
      (keysAt (testVisits functionName globalId env' index) path) := by
    rw [testVisits,testVisits,same.stem]
    exact (((listing.filter _).filterMap _).filter _).map _
  have origin : ∀ k, some k ∈ keysAt (testVisits functionName globalId env index) path →
      ∃ x ∈ env.files, datId x = some path.2 ∧
        ∃ unitSub, extractUnitAndSubprogram x = some unitSub ∧ entryKey globalId unitSub = k := by
    intro k mem
    obtain ⟨v,listed,here,key⟩ := keyOfVisit mem
    obtain ⟨x,inside,visit⟩ := List.mem_filterMap.mp listed
    obtain ⟨id,number,rfl⟩ := Option.map_eq_some_iff.mp visit
    obtain ⟨unitSub,tags,named⟩ := Option.map_eq_some_iff.mp key
    rw [← here]
    exact ⟨x,(env.listed index).subset (List.mem_of_mem_filter inside),number,unitSub,tags,named⟩
  refine updatesPerm perm value (fun j first k second => ?_) (fun k mem => ?_) good
  · obtain ⟨x,listed,number,a,tags,rfl⟩ := origin j first
    obtain ⟨y,listed',number',b,tags',rfl⟩ := origin k second
    rw [agree x listed y listed' (number.trans number'.symm) (by rw [number]; rfl) a tags b tags']
  · obtain ⟨x,_,_,a,tags,rfl⟩ := origin k mem
    exact entryKeySafe tags marked plain

theorem lastFoundSame (same : Reordered env env') : lastFound functionName env' = lastFound functionName env := by
  have found' : ∀ index, found functionName env' index = found functionName env index := by
    intro index
    rw [found,found]
    exact ((reorderedListing same index).any_eq).symm
  refine Nat.find_congr' (fun {n} => ?_)
  rw [found']

theorem environmentUpdates (same : Reordered env env') (agree : TagsAgree env) (value : Plain newValue)
    (safe : SafeGlobalId functionName env) :
    SameUpdates newValue (environmentVisits functionName env) (environmentVisits functionName env') := by
  unfold environmentVisits
  rw [same.param,same.isDir,lastFoundSame same]
  cases param : getGlobalId env.param functionName with
  | none => exact sameNil newValue
  | some globalId =>
    obtain ⟨marked,plain⟩ := safe globalId param
    simp only
    split
    · induction List.range' 1 (lastFound functionName env) with
      | nil => exact sameNil newValue
      | cons index rest ih =>
        rw [List.flatMap_cons,List.flatMap_cons]
        exact sameAppend (testUpdates same agree value marked plain index) ih
    · exact sameNil newValue

theorem runUpdates {envs envs' : List Environment} (same : List.Forall₂ Reordered envs envs')
    (ids : ∀ e ∈ envs, SafeGlobalId functionName e) (agree : ∀ e ∈ envs, TagsAgree e) (value : Plain newValue) :
    SameUpdates newValue ((entered functionName envs).flatMap (environmentVisits functionName))
      ((entered functionName envs').flatMap (environmentVisits functionName)) := by
  induction same with
  | nil => exact sameNil newValue
  | @cons env env' rest rest' here later ih =>
    have tail := ih (fun e mem => ids e (List.mem_cons_of_mem _ mem))
      (fun e mem => agree e (List.mem_cons_of_mem _ mem))
    have own := environmentUpdates here (agree env List.mem_cons_self) value (ids env List.mem_cons_self)
    by_cases known : HasGlobalId functionName env
    · have known' : HasGlobalId functionName env' := by
        unfold HasGlobalId at known ⊢
        rwa [here.param]
      have into : ∀ {e es}, HasGlobalId functionName e → entered functionName (e::es) = e::entered functionName es :=
        fun known => List.takeWhile_cons_of_pos (decide_eq_true known)
      rw [into known,into known',List.flatMap_cons,List.flatMap_cons]
      exact sameAppend own tail
    · have known' : ¬ HasGlobalId functionName env' := by
        unfold HasGlobalId at known ⊢
        rwa [here.param]
      have out : ∀ {e es}, ¬ HasGlobalId functionName e → entered functionName (e::es) = [] :=
        fun unknown => List.takeWhile_cons_of_neg (by simp [unknown])
      rw [out known,out known']
      exact sameNil newValue

end

theorem stemsSame {envs envs' : List Environment} (same : List.Forall₂ Reordered envs envs') :
    envs'.map Environment.stem = envs.map Environment.stem := by
  induction same with
  | nil => rfl
  | cons here later ih => rw [List.map_cons,List.map_cons,here.stem,ih]

theorem keysApart {functionName : Text} {envs : List Environment} {path : Path}
    (away : path.1 ∉ envs.map Environment.stem) :
    keysAt ((entered functionName envs).flatMap (environmentVisits functionName)) path = [] :=
  keysOutside (fun mem => away ((List.Sublist.map _ (List.takeWhile_sublist _)).subset mem)) path.2

theorem listingOrderUnseen {functionName newValue : Text} {envs envs' : List Environment} {dats : Dats}
    (same : List.Forall₂ Reordered envs envs')
    (terminated : ∀ env ∈ envs, ∀ id, WellTerminated (dats (env.stem,id)))
    (ids : ∀ env ∈ envs, SafeGlobalId functionName env) (agree : ∀ env ∈ envs, TagsAgree env)
    (value : Plain newValue) :
    ∃ enough, ∀ fuel, enough ≤ fuel → ∃ final,
      setReturn functionName newValue fuel envs dats = some final ∧
        setReturn functionName newValue fuel envs' dats = some final := by
  obtain ⟨enough,known⟩ := runVisitsExact functionName envs
  obtain ⟨enough',known'⟩ := runVisitsExact functionName envs'
  refine ⟨max enough enough',fun fuel h => ?_⟩
  refine ⟨((entered functionName envs).flatMap (environmentVisits functionName)).foldl (applyVisit newValue) dats,
    ?_,?_⟩
  · rw [setReturnVisits,known fuel (by omega)]
    rfl
  · rw [setReturnVisits,known' fuel (by omega),Option.map_some]
    congr 1
    funext path
    rw [foldAt,foldAt]
    by_cases inside : path.1 ∈ envs.map Environment.stem
    · obtain ⟨env,listed,stem⟩ := List.mem_map.mp inside
      have good : WellTerminated (dats path) := by
        have here := terminated env listed path.2
        rwa [stem] at here
      exact (runUpdates same ids agree value path _ good).1.symm
    · rw [keysApart inside,keysApart (stemsSame same ▸ inside)]

def taglessDocument : XmlFile := ⟨"U-1.XML".toList,some "<name>ioctl.001</name>\n".toList⟩

def taggedFirst : Environment where
  stem := "HAL1".toList
  param := some sampleParam
  isDir := true
  files := [sampleDocument "T-1.XML" "001",taglessDocument]
  rglob := fun _ => [sampleDocument "T-1.XML" "001",taglessDocument]
  listed := fun _ => List.Perm.refl _

def taglessFirst : Environment where
  stem := "HAL1".toList
  param := some sampleParam
  isDir := true
  files := [sampleDocument "T-1.XML" "001",taglessDocument]
  rglob := fun _ => [taglessDocument,sampleDocument "T-1.XML" "001"]
  listed := fun _ => List.Perm.swap _ _ _

def entryDats : Dats := fun path => if path.2 = "1".toList then some (.text "0.1.2.7%5\n".toList) else none

theorem reorderedSample : Reordered taggedFirst taglessFirst := ⟨rfl,rfl,rfl,rfl⟩

theorem taglessAgrees : TagsAgree taggedFirst := by
  have tagged : ∀ x ∈ taggedFirst.files, ∀ a, extractUnitAndSubprogram x = some a →
      a = ("1".toList,"2".toList) := by
    intro x mem a tags
    rcases List.mem_cons.mp mem with rfl | later
    · have two : extractUnitAndSubprogram (sampleDocument "T-1.XML" "001") = some ("1".toList,"2".toList) := by
        decide
      rw [two] at tags
      exact (Option.some.inj tags).symm
    · rw [List.mem_singleton.mp later] at tags
      have none : extractUnitAndSubprogram taglessDocument = none := by decide
      rw [none] at tags
      cases tags
  intro x first y second _ _ a tags b tags'
  rw [tagged x first a tags,tagged y second b tags']

theorem entryDatsTerminated (id : Text) : WellTerminated (entryDats ("HAL1".toList,id)) := by
  intro content same _
  unfold entryDats at same
  split at same
  · cases same
    exact ⟨by decide,"0.1.2.7%5".toList,rfl⟩
  · cases same

theorem sampleOrderUnseen : ∃ enough, ∀ fuel, enough ≤ fuel → ∃ final,
    setReturn sampleFunction "1".toList fuel [taggedFirst] entryDats = some final ∧
      setReturn sampleFunction "1".toList fuel [taglessFirst] entryDats = some final :=
  listingOrderUnseen (.cons reorderedSample .nil)
    (fun env mem id => List.mem_singleton.mp mem ▸ entryDatsTerminated id)
    (fun env mem => List.mem_singleton.mp mem ▸ sampleGlobalId)
    (fun env mem => List.mem_singleton.mp mem ▸ taglessAgrees) (by decide)

/- A value of two lines: the tagged file, when it comes second, finds a last line without a
percent sign and appends. -/
theorem twoLineValueSeen : (Reordered taggedFirst taglessFirst ∧ TagsAgree taggedFirst ∧
    SafeGlobalId sampleFunction taggedFirst ∧ ∀ id, WellTerminated (entryDats ("HAL1".toList,id))) ∧
    ¬ ∃ enough, ∀ fuel, enough ≤ fuel → ∃ final,
      setReturn sampleFunction "1\n2".toList fuel [taggedFirst] entryDats = some final ∧
        setReturn sampleFunction "1\n2".toList fuel [taglessFirst] entryDats = some final := by
  refine ⟨⟨reorderedSample,taglessAgrees,sampleGlobalId,entryDatsTerminated⟩,fun unseen => ?_⟩
  obtain ⟨enough,unseen⟩ := unseen
  obtain ⟨final,first,second⟩ := unseen (enough+2) (by omega)
  have kept : (setReturn sampleFunction "1\n2".toList (enough+2) [taggedFirst] entryDats).map
      (fun dats => dats ("HAL1".toList,"1".toList)) = some (some (.text "0.1.2.7%1\n2\n".toList)) := by rfl
  have appended : (setReturn sampleFunction "1\n2".toList (enough+2) [taglessFirst] entryDats).map
      (fun dats => dats ("HAL1".toList,"1".toList)) =
        some (some (.text "0.1.2.7%1\n2\n0.1.2.7%1\n2\n".toList)) := by rfl
  rw [first,← second,appended] at kept
  revert kept
  decide

end KernelTestTools.SetReturn
