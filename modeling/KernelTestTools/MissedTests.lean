import KernelTestTools.EnvironmentRuns

/-! Which tests of an environment get the new value. The index loop stops at the first test
number that is missing, so a later test is set only by luck: another XML file leads to its
DAT file, or the value is there already. -/
namespace KernelTestTools.SetReturn
open TextFile Regex DatFiles Xml

def chomp (l : Text) : Text := l.rdropWhile (· == '\n')

def EndsIn (newValue : Text) (file : Option DatFile) : Prop :=
  ∃ l ∈ (entries file).getLast?, percent::newValue <:+ chomp l

def LastMarked (file : Option DatFile) : Prop := ∃ l ∈ (entries file).getLast?, percent ∈ l

def Mentions (functionName : Text) (index : Nat) (x : XmlFile) : Prop :=
  ∃ content, x.content = some content ∧ namePattern functionName index <:+: content

structure Eligible (functionName : Text) (env : Environment) (index : Nat) (x : XmlFile) (id : Text) :
    Prop where
  positive : 1 ≤ index
  listed : x ∈ env.files
  mentions : Mentions functionName index x
  numbered : datId x = some id
  unitSub : (extractUnitAndSubprogram x).isSome

def MissesNone (functionName newValue : Text) (env : Environment) (final : Dats) : Prop :=
  ∀ index x id, Eligible functionName env index x id → EndsIn newValue (final (env.stem,id))

def NoGap (functionName : Text) (env : Environment) (index : Nat) : Prop :=
  ∀ j, 1 ≤ j → j ≤ index → ∃ y ∈ env.files, Mentions functionName j y

structure Written (functionName newValue : Text) (env : Environment) (file : Option DatFile) (id : Text) :
    Prop where
  plain : Plain newValue
  decodable : file ≠ some .undecodable
  visited : ∃ j y, 1 ≤ j ∧ NoGap functionName env j ∧ y ∈ env.files ∧ Mentions functionName j y ∧
    datId y = some id ∧ ((extractUnitAndSubprogram y).isSome ∨ LastMarked file)

theorem formatPlain (index : Nat) : Plain (formatIndex index) := by
  have digits : ∀ c ∈ formatIndex index, c.isDigit = true := by
    intro c mem
    rw [formatIndex,List.leftpad,List.mem_append] at mem
    rcases mem with padding | digit
    · rw [List.eq_of_mem_replicate padding]
      rfl
    · exact Nat.isDigit_of_mem_toDigits (by decide) (by decide) digit
  constructor
  · intro mem
    cases digits _ mem
  · intro mem
    cases digits _ mem

theorem patternPlain {functionName : Text} (name : Plain functionName) (index : Nat) :
    Plain (namePattern functionName index) := by
  have front : Plain "<name>".toList := by decide
  have back : Plain "</name>".toList := by decide
  have number := formatPlain index
  have shape : namePattern functionName index = "<name>".toList ++
      (functionName ++ ['.'] ++ formatIndex index) ++ "</name>".toList := rfl
  rw [shape]
  simp only [Plain,List.mem_append,not_or] at *
  exact ⟨⟨⟨front.1,⟨name.1,by decide⟩,number.1⟩,back.1⟩,⟨⟨front.2,⟨name.2,by decide⟩,number.2⟩,back.2⟩⟩

theorem inLines {p s : Text} (some : p ≠ []) (line : '\n' ∉ p) :
    p <:+: s ↔ ∃ l ∈ lines s, p <:+: l := by
  constructor
  · intro inside
    by_contra none
    have absent : ∀ l ∈ lines s, ¬ p <:+: l := fun l mem here => none ⟨l,mem,here⟩
    have free : ∀ ls : List Text, LineList ls → (∀ l ∈ ls, ¬ p <:+: l) → ¬ p <:+: ls.flatten := by
      intro ls shape
      induction shape with
      | nil => simpa using some
      | last whole nonempty => simp
      | cons head rest ih =>
        intro all
        obtain ⟨body,_,rfl⟩ := head
        have apart : ¬ p <:+: body :=
          fun here => all _ List.mem_cons_self (here.trans (List.infix_append' [] body ['\n']))
        rw [List.flatten_cons]
        exact absentAppend (noStartLine line apart _) (ih (fun l mem => all l (List.mem_cons_of_mem _ mem)))
    have whole := free _ (linesShape s) absent
    rw [linesJoin] at whole
    exact whole inside
  · intro listed
    obtain ⟨l,mem,inside⟩ := listed
    obtain ⟨before,after,split⟩ := List.append_of_mem mem
    have part : l <:+: s := by
      rw [← linesJoin s,split,List.flatten_append,List.flatten_cons]
      exact List.infix_append' _ _ _
    exact inside.trans part

theorem mentionsIff {functionName : Text} (name : Plain functionName) (index : Nat) (x : XmlFile) :
    inSomeLine (namePattern functionName index) x = true ↔ Mentions functionName index x := by
  have plain := patternPlain name index
  have nonempty : namePattern functionName index ≠ [] := by
    have number := numberFits functionName index
    intro empty
    rw [empty] at number
    simp at number
  unfold inSomeLine Mentions
  cases x.content with
  | none => simp
  | some content =>
    simp only [List.any_eq_true,decide_eq_true_eq,Option.some.injEq,exists_eq_left']
    rw [← inLines nonempty plain.1,plainInfix plain]

theorem noGapReached {functionName : Text} (name : Plain functionName) (env : Environment) (index : Nat) :
    NoGap functionName env index ↔ Reached functionName env index := by
  refine forall_congr' (fun j => forall₂_congr (fun _ _ => ?_))
  rw [found,List.any_eq_true]
  refine exists_congr (fun y => and_congr (env.listed j).mem_iff.symm ?_)
  exact (mentionsIff name j y).symm

theorem endsWritten {newValue : Text} (plain : Plain newValue) (t : Text) :
    EndsIn newValue (some (.text (t ++ percent::(newValue ++ ['\n'])))) := by
  have line : Terminated (percent::(newValue ++ ['\n'])) :=
    ⟨percent::newValue,by simp [plain.1,percent],rfl⟩
  have clean : '\r' ∉ percent::(newValue ++ ['\n']) := by simp [plain.2,percent]
  obtain ⟨init,z,split⟩ := linesLast (universalNewlines t) line
  refine ⟨z ++ percent::(newValue ++ ['\n']),?_,z,?_⟩
  · rw [entries,universalAppend t (by decide),noReturnUnchanged clean,split]
    simp
  · have shape : z ++ percent::(newValue ++ ['\n']) = (z ++ percent::newValue) ++ ['\n'] := by simp
    have kept : (z ++ percent::newValue).rdropWhile (· == '\n') = z ++ percent::newValue := by
      rw [dropRight (by decide)]
      congr 2
      rw [List.rdropWhile_eq_self_iff]
      intro nonempty last
      have mem := List.getLast_mem nonempty
      rw [eq_of_beq last] at mem
      exact plain.1 mem
    rw [chomp,shape,List.rdropWhile_concat_pos _ _ _ (by decide),kept]

theorem entriesContent {l : Text} {file : Option DatFile} (mem : l ∈ entries file) :
    ∃ content, file = some (.text content) ∧ l ∈ lines (universalNewlines content) := by
  cases file with
  | none => cases mem
  | some dat =>
    cases dat with
    | undecodable => cases mem
    | text content => exact ⟨content,rfl,mem⟩

theorem endsMarked {newValue : Text} {file : Option DatFile} (ends : EndsIn newValue file) :
    Plain newValue ∧ LastMarked file := by
  obtain ⟨l,last,suffix⟩ := ends
  obtain ⟨content,rfl,mem⟩ := entriesContent (List.mem_of_getLast? last)
  have inside : ∀ c ∈ percent::newValue, c ∈ chomp l := fun c h => suffix.subset h
  have prefix' : chomp l <+: l := List.rdropWhile_prefix _ l
  refine ⟨⟨fun line => ?_,fun feed => ?_⟩,l,last,prefix'.subset (inside _ List.mem_cons_self)⟩
  · rcases lineListMember (linesShape (universalNewlines content)) mem with whole | whole
    · obtain ⟨body,free,rfl⟩ := whole
      have cut : chomp (body ++ ['\n']) <+: body := by
        rw [chomp,List.rdropWhile_concat_pos _ _ _ (by decide)]
        exact List.rdropWhile_prefix _ body
      exact free (cut.subset (inside _ (List.mem_cons_of_mem _ line)))
    · exact whole.1 (prefix'.subset (inside _ (List.mem_cons_of_mem _ line)))
  · exact lineNoReturn mem (prefix'.subset (inside _ (List.mem_cons_of_mem _ feed)))

theorem endsUpdate {newValue : Text} {key : Option Text} {file : Option DatFile} :
    (key.isSome ∨ LastMarked file → Plain newValue → file ≠ some .undecodable →
      EndsIn newValue (updateDat newValue key file).1) ∧
    (¬ (key.isSome ∨ LastMarked file) ∨ file = some .undecodable → (updateDat newValue key file).1 = file) := by
  obtain empty | rfl | ⟨content,init,k,r,rfl,_,split,free⟩ | ⟨content,init,last,rfl,_,split,unmarked⟩ :=
    fileForms file
  · have silent : ¬ LastMarked file := by
      rcases empty with rfl | rfl <;> simp [LastMarked,entries,universalNewlines]
    have decodable : file ≠ some .undecodable := by rcases empty with rfl | rfl <;> simp
    rw [updateFresh empty]
    cases key with
    | none => simp [silent]
    | some k =>
      refine ⟨fun _ plain _ => ?_,fun no => by simp [decodable] at no⟩
      have shape : entryLine k newValue = k ++ percent::(newValue ++ ['\n']) := by simp [entryLine]
      simp only [Option.map_some,Option.some_or,shape]
      exact endsWritten plain k
  · exact ⟨fun _ _ no => absurd rfl no,fun _ => rfl⟩
  · have marked : LastMarked (some (.text content)) := by simp [LastMarked,entries,split]
    refine ⟨fun _ plain _ => ?_,fun no => by simp [marked] at no⟩
    rw [updatePercent split free]
    have shape : init.flatten ++ entryLine (lstrip k) newValue =
        (init.flatten ++ lstrip k) ++ percent::(newValue ++ ['\n']) := by simp [entryLine]
    simp only [shape]
    exact endsWritten plain _
  · have silent : ¬ LastMarked (some (.text content)) := by simp [LastMarked,entries,split,unmarked]
    rw [updateNoPercent split unmarked]
    cases key with
    | none => simp [silent]
    | some k =>
      refine ⟨fun _ plain _ => ?_,fun no => by simp at no⟩
      have shape : content ++ entryLine k newValue =
          (content ++ k) ++ percent::(newValue ++ ['\n']) := by simp [entryLine]
      simp only [Option.map_some,Option.some_or,shape]
      exact endsWritten plain _

theorem endsUpdates {newValue : Text} {keys : List (Option Text)} {file : Option DatFile} :
    EndsIn newValue (updates newValue keys file) ↔ EndsIn newValue file ∨
      (Plain newValue ∧ file ≠ some .undecodable ∧ ∃ key ∈ keys, key.isSome ∨ LastMarked file) := by
  induction keys generalizing file with
  | nil => simp [updates]
  | cons key keys ih =>
    obtain ⟨changes,keeps⟩ := @endsUpdate newValue key file
    rw [updates,List.foldl_cons,← updates,ih]
    by_cases acts : (key.isSome ∨ LastMarked file) ∧ file ≠ some .undecodable
    · by_cases plain : Plain newValue
      · have ends := changes acts.1 plain acts.2
        exact iff_of_true (.inl ends) (.inr ⟨plain,acts.2,key,List.mem_cons_self,acts.1⟩)
      · have never : ∀ f, ¬ EndsIn newValue f := fun f ends => plain (endsMarked ends).1
        simp [never,plain]
    · rw [keeps (by tauto)]
      rw [not_and_or,not_ne_iff] at acts
      rcases acts with idle | undecodable
      · simp only [List.exists_mem_cons_iff,idle,false_or]
      · simp [undecodable]

theorem visitsOfPath {functionName globalId : Text} {env : Environment} (name : Plain functionName)
    (param : getGlobalId env.param functionName = some globalId) (dir : env.isDir = true)
    (P : Option Text → Prop) (id : Text) :
    (∃ key ∈ keysAt (environmentVisits functionName env) (env.stem,id), P key) ↔
      ∃ j y, 1 ≤ j ∧ NoGap functionName env j ∧ y ∈ env.files ∧ Mentions functionName j y ∧
        datId y = some id ∧ P ((extractUnitAndSubprogram y).map (entryKey globalId)) := by
  have shape : environmentVisits functionName env = (List.range' 1 (lastFound functionName env)).flatMap
      (testVisits functionName globalId env) := by simp [environmentVisits,param,dir]
  rw [shape]
  constructor
  · intro own
    obtain ⟨key,mem,holds⟩ := own
    obtain ⟨v,hv,rfl⟩ := List.mem_map.mp mem
    obtain ⟨visited,here⟩ := List.mem_filter.mp hv
    obtain ⟨j,hj,inside⟩ := List.mem_flatMap.mp visited
    rw [List.mem_range'_1] at hj
    obtain ⟨y,hy,visit⟩ := List.mem_filterMap.mp inside
    obtain ⟨listed,mentioned⟩ := List.mem_filter.mp hy
    obtain ⟨other,numbered,rfl⟩ := Option.map_eq_some_iff.mp visit
    have same : other = id := (Prod.mk.inj (of_decide_eq_true here)).2
    rw [← same]
    exact ⟨j,y,hj.1,(noGapReached name env j).mpr (reachedIff.mpr (by omega)),(env.listed j).subset listed,
      (mentionsIff name j y).mp mentioned,numbered,holds⟩
  · intro reached
    obtain ⟨j,y,positive,gapFree,listed,mentions,numbered,holds⟩ := reached
    have early := reachedIff.mp ((noGapReached name env j).mp gapFree)
    refine ⟨_,List.mem_map.mpr ⟨⟨(env.stem,id),(extractUnitAndSubprogram y).map (entryKey globalId)⟩,
      List.mem_filter.mpr ⟨List.mem_flatMap.mpr ⟨j,?_,?_⟩,by simp⟩,rfl⟩,holds⟩
    · rw [List.mem_range'_1]
      omega
    · refine List.mem_filterMap.mpr ⟨y,List.mem_filter.mpr ⟨(env.listed j).symm.subset listed,
        (mentionsIff name j y).mpr mentions⟩,?_⟩
      rw [visitOf,numbered]
      rfl

theorem missesNoneExactly {functionName newValue : Text} {before after : List Environment}
    {env : Environment} {dats : Dats} (name : Plain functionName)
    (distinct : ((before ++ env::after).map Environment.stem).Nodup)
    (param : HasGlobalId functionName env) (dir : env.isDir = true) :
    (∃ enough, ∀ fuel, enough ≤ fuel → ∃ final,
      setReturn functionName newValue fuel (before ++ env::after) dats = some final ∧
        MissesNone functionName newValue env final) ↔
    ∀ index x id, Eligible functionName env index x id →
      EndsIn newValue (dats (env.stem,id)) ∨ ((∀ e ∈ before, HasGlobalId functionName e) ∧
        Written functionName newValue env (dats (env.stem,id)) id) := by
  obtain ⟨globalId,known⟩ := Option.isSome_iff_exists.mp param
  obtain ⟨enough,run⟩ := finalFile functionName newValue (before ++ env::after) dats
  have ends : ∀ id, EndsIn newValue (updates newValue (keysAt ((entered functionName
      (before ++ env::after)).flatMap (environmentVisits functionName)) (env.stem,id))
        (dats (env.stem,id))) ↔ EndsIn newValue (dats (env.stem,id)) ∨
          ((∀ e ∈ before, HasGlobalId functionName e) ∧
            Written functionName newValue env (dats (env.stem,id)) id) := by
    intro id
    obtain ⟨reached,exited⟩ := @keysOfEnvironment functionName before after env distinct id
    rw [endsUpdates]
    refine or_congr_right ?_
    by_cases all : ∀ e ∈ before, HasGlobalId functionName e
    · rw [reached all,visitsOfPath name known dir]
      simp only [Option.isSome_map]
      constructor
      · intro served
        exact ⟨all,served.1,served.2.1,served.2.2⟩
      · intro served
        exact ⟨served.2.plain,served.2.decodable,served.2.visited⟩
    · have exits : ∃ e ∈ before, ¬ HasGlobalId functionName e := by simpa using all
      simp [exited exits,all]
  constructor
  · intro misses index x id eligible
    obtain ⟨bound,finished⟩ := misses
    obtain ⟨final,done,none⟩ := finished (max bound enough) (Nat.le_max_left _ _)
    obtain ⟨same,result,files⟩ := run (max bound enough) (Nat.le_max_right _ _)
    rw [done] at result
    cases result
    have last := none index x id eligible
    rwa [files,ends] at last
  · intro served
    refine ⟨enough,fun fuel h => ?_⟩
    obtain ⟨final,done,files⟩ := run fuel h
    refine ⟨final,done,fun index x id eligible => ?_⟩
    rw [files,ends]
    exact served index x id eligible

theorem sampleMentions : Mentions sampleFunction 1 (sampleDocument "T-1.XML" "001") ∧
    Mentions sampleFunction 2 (sampleDocument "T-2.XML" "002") :=
  ⟨⟨_,rfl,by decide⟩,⟨_,rfl,by decide⟩⟩

theorem sampleMissesNone : ∃ enough, ∀ fuel, enough ≤ fuel → ∃ final,
    setReturn sampleFunction "1".toList fuel [sampleEnvironment] (fun _ => none) = some final ∧
      MissesNone sampleFunction "1".toList sampleEnvironment final := by
  have first : ∃ y ∈ sampleEnvironment.files, Mentions sampleFunction 1 y :=
    ⟨_,List.mem_cons_self,sampleMentions.1⟩
  have second : ∃ y ∈ sampleEnvironment.files, Mentions sampleFunction 2 y :=
    ⟨_,List.mem_cons_of_mem _ List.mem_cons_self,sampleMentions.2⟩
  have gapFree : NoGap sampleFunction sampleEnvironment 2 := by
    intro j positive below
    have both : j = 1 ∨ j = 2 := by omega
    rcases both with rfl | rfl
    · exact first
    · exact second
  refine (@missesNoneExactly sampleFunction "1".toList [] [] sampleEnvironment (fun _ => none)
    (by decide) (by decide) (by decide) rfl).mpr (fun index x id eligible => .inr ⟨by simp,by decide,by simp,?_⟩)
  have listed := eligible.listed
  simp only [sampleEnvironment,List.mem_cons,List.not_mem_nil,or_false] at listed
  rcases listed with rfl | rfl
  · exact ⟨1,_,Nat.le_refl _,fun j positive below => gapFree j positive (by omega),List.mem_cons_self,
      sampleMentions.1,eligible.numbered,.inl eligible.unitSub⟩
  · exact ⟨2,_,by decide,gapFree,List.mem_cons_of_mem _ List.mem_cons_self,sampleMentions.2,
      eligible.numbered,.inl eligible.unitSub⟩

/- The sample environment after its first test was deleted. -/
def gapEnvironment : Environment where
  stem := "HAL1".toList
  param := some sampleParam
  isDir := true
  files := [sampleDocument "T-2.XML" "002"]
  rglob := fun _ => [sampleDocument "T-2.XML" "002"]
  listed := fun _ => List.Perm.refl _

theorem deletedTestStops : Eligible sampleFunction gapEnvironment 2 (sampleDocument "T-2.XML" "002") "2".toList ∧
    ¬ ∃ enough, ∀ fuel, enough ≤ fuel → ∃ final,
      setReturn sampleFunction "1".toList fuel [gapEnvironment] (fun _ => none) = some final ∧
        MissesNone sampleFunction "1".toList gapEnvironment final := by
  have eligible : Eligible sampleFunction gapEnvironment 2 (sampleDocument "T-2.XML" "002") "2".toList :=
    ⟨by decide,List.mem_cons_self,sampleMentions.2,by decide,by decide⟩
  refine ⟨eligible,?_⟩
  intro finished
  obtain ⟨enough,finished⟩ := finished
  obtain ⟨final,done,none⟩ := finished (enough+1) (Nat.le_succ _)
  have same : setReturn sampleFunction "1".toList (enough+1) [gapEnvironment] (fun _ => Option.none) =
      some (fun _ => Option.none) := by rfl
  rw [same] at done
  cases done
  obtain ⟨l,last,_⟩ := none 2 _ _ eligible
  cases last

end KernelTestTools.SetReturn
