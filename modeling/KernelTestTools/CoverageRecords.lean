import KernelTestTools.Coverage

/-! Tracefiles as sequences of records. The scan itself never looks at record borders, so
what it does inside one record depends on what the records before it left pending. -/
namespace KernelTestTools.Coverage
open TextFile

structure Record where
  source : Text
  body : List Text
  closing : Text
  opens : "SF:".toList <+: source
  closes : "end_of_record".toList <+: closing
  inner : ∀ l ∈ body, ¬ "SF:".toList <+: l ∧ ¬ "end_of_record".toList <+: l

def Record.lines (r : Record) : List Text := r.source::(r.body ++ [r.closing])

def ReadsAs (infoFile : Text) (records : List Record) : Prop :=
  TextFile.lines (universalNewlines infoFile) = records.flatMap Record.lines

def after (functionName : Text) (p : Pending) (ls : List Text) : Pending :=
  ls.foldl (next functionName) p

theorem modifiedLinesCons (functionName newCount : Text) (p : Pending) (l : Text) (ls : List Text) :
    modifiedLines functionName newCount p (l::ls) =
      written functionName newCount p l::
        modifiedLines functionName newCount (next functionName p l) ls := by
  simp [modifiedLines,visitLineSpec]

theorem modifiedLinesAppend (functionName newCount : Text) (p : Pending) (xs ys : List Text) :
    modifiedLines functionName newCount p (xs ++ ys) =
      modifiedLines functionName newCount p xs ++
        modifiedLines functionName newCount (after functionName p xs) ys := by
  induction xs generalizing p with
  | nil => rfl
  | cons l ls ih => simp [modifiedLinesCons,ih,after]

theorem modifiedLinesLength (functionName newCount : Text) (p : Pending) (ls : List Text) :
    (modifiedLines functionName newCount p ls).length = ls.length := by
  induction ls generalizing p with
  | nil => rfl
  | cons l ls ih => simp [modifiedLinesCons,ih]

theorem classesDisjoint {functionName line : Text} :
    (∀ n, fnNumber functionName line = some n →
      isFnda functionName line = false ∧ daNumber line = none) ∧
    (isFnda functionName line = true → daNumber line = none) := by
  obtain ⟨notFnda,notDa,disjoint⟩ := @keysDistinct line
  refine ⟨fun n found => ?_,fun entry => ?_⟩
  · have isFn := (fnNumberSome.mp (by rw [found]; rfl)).1
    have other : ¬ fnda <+: line := fun h => notFnda ⟨isFn,h⟩
    have different : ¬ da <+: line := fun h => notDa ⟨isFn,h⟩
    simp [isFnda,daNumber,other,different]
  · have isFnda' := (decide_eq_true_eq.mp entry).1
    have different : ¬ da <+: line := fun h => disjoint ⟨isFnda',h⟩
    simp [daNumber,different]

theorem borderLine {functionName line : Text}
    (border : "SF:".toList <+: line ∨ "end_of_record".toList <+: line) :
    fnNumber functionName line = none ∧ isFnda functionName line = false ∧ daNumber line = none := by
  have isFn : ¬ fn <+: line := by
    intro entry
    obtain ⟨a,rfl⟩ := entry
    rcases border with ⟨b,same⟩ | ⟨b,same⟩ <;> simp [fn] at same
  have isFnda' : ¬ fnda <+: line := by
    intro entry
    obtain ⟨a,rfl⟩ := entry
    rcases border with ⟨b,same⟩ | ⟨b,same⟩ <;> simp [fnda] at same
  have isDa : ¬ da <+: line := by
    intro entry
    obtain ⟨a,rfl⟩ := entry
    rcases border with ⟨b,same⟩ | ⟨b,same⟩ <;> simp [da] at same
  simp [fnNumber,isFnda,daNumber,isFn,isFnda',isDa]

def imageLine (functionName newCount number line : Text) : Text :=
  if isFnda functionName line then newFnda functionName newCount
  else if daNumber line = some number then newDa number newCount
  else line

theorem imageInner {functionName newCount number line : Text}
    (inner : ¬ "SF:".toList <+: line ∧ ¬ "end_of_record".toList <+: line) :
    ¬ "SF:".toList <+: imageLine functionName newCount number line ∧
      ¬ "end_of_record".toList <+: imageLine functionName newCount number line := by
  unfold imageLine
  split
  · simp [newFnda,fnda]
  · split
    · simp [newDa,da]
    · exact inner

def Record.number (functionName : Text) (r : Record) : Option Text :=
  (r.body.filterMap (fnNumber functionName)).head?

def Record.image (functionName newCount : Text) (r : Record) : Record :=
  match r.number functionName with
  | none => r
  | some number =>
    { r with
      body := r.body.map (imageLine functionName newCount number)
      inner := by
        intro l mem
        obtain ⟨line,here,rfl⟩ := List.mem_map.mp mem
        exact imageInner (r.inner line here) }

/- One FN entry for the function, then one FNDA entry for it and one DA entry for its
number, in either order, and none of the three before. -/
structure Canonical (functionName number : Text) (body : List Text) : Prop where
  intro ::
  split : ∃ before entry rest, body = before ++ entry::rest ∧
    fnNumber functionName entry = some number ∧
    (∀ l ∈ before, fnNumber functionName l = none ∧ isFnda functionName l = false ∧
      daNumber l ≠ some number) ∧
    (∀ l ∈ rest, fnNumber functionName l = none) ∧
    rest.countP (isFnda functionName) = 1 ∧
    rest.countP (fun l => daNumber l == some number) = 1

def Record.Regular (functionName : Text) (r : Record) : Prop :=
  r.number functionName = none ∨ ∃ number, Canonical functionName number r.body

theorem idleUnchanged {functionName : Text} (newCount : Text) {ls : List Text}
    (quiet : ∀ l ∈ ls, fnNumber functionName l = none) :
    modifiedLines functionName newCount idle ls = ls ∧ after functionName idle ls = idle := by
  induction ls with
  | nil => exact ⟨rfl,rfl⟩
  | cons l ls ih =>
    obtain ⟨same,still⟩ := ih (fun x mem => quiet x (List.mem_cons_of_mem _ mem))
    have kept : next functionName idle l = idle := by
      simp [next,idle,quiet l List.mem_cons_self]
    rw [modifiedLinesCons,kept,same]
    refine ⟨by simp [written,idle],?_⟩
    rw [after,List.foldl_cons,kept]
    exact still

theorem nextQuiet {functionName l : Text} {p : Pending} (notFn : fnNumber functionName l = none) :
    (next functionName p l).fnFound = (p.fnFound && !isFnda functionName l) ∧
      (next functionName p l).lineNumber =
        p.lineNumber.filter (fun number => decide (daNumber l ≠ some number)) := by
  simp [next,notFn]

/- Induction over the rest of a record: each flag is up exactly while its line is still
to come. -/
theorem pendingConsumed {functionName number : Text} (newCount : Text) {ls : List Text} {p : Pending}
    (quiet : ∀ l ∈ ls, fnNumber functionName l = none)
    (fndas : ls.countP (isFnda functionName) = if p.fnFound then 1 else 0)
    (line : p.lineNumber = none ∨ p.lineNumber = some number)
    (das : ls.countP (fun l => daNumber l == some number) = if p.lineNumber.isSome then 1 else 0) :
    modifiedLines functionName newCount p ls = ls.map (imageLine functionName newCount number) ∧
      after functionName p ls = idle := by
  induction ls generalizing p with
  | nil =>
    obtain ⟨fnFound,lineNumber⟩ := p
    cases fnFound <;> rcases line with rfl | rfl <;> simp_all [modifiedLines,after,idle]
  | cons l ls ih =>
    have restQuiet := fun x mem => quiet x (List.mem_cons_of_mem _ mem)
    obtain ⟨found,pendingLine⟩ := nextQuiet (p := p) (quiet l List.mem_cons_self)
    rw [List.countP_cons] at fndas das
    have step : written functionName newCount p l = imageLine functionName newCount number l ∧
        ls.countP (isFnda functionName) = (if (next functionName p l).fnFound then 1 else 0) ∧
        ((next functionName p l).lineNumber = none ∨
          (next functionName p l).lineNumber = some number) ∧
        ls.countP (fun l => daNumber l == some number) =
          (if (next functionName p l).lineNumber.isSome then 1 else 0) := by
      obtain ⟨fnFound,lineNumber⟩ := p
      rw [found,pendingLine]
      by_cases entry : isFnda functionName l = true
      · have notDa := (@classesDisjoint functionName l).2 entry
        rcases line with rfl | rfl <;> cases fnFound <;>
          simp_all [written,imageLine]
      · by_cases hit : daNumber l = some number
        · rcases line with rfl | rfl <;> cases fnFound <;>
            simp_all [written,imageLine]
        · rcases line with rfl | rfl <;> cases fnFound <;>
            simp_all [written,imageLine]
    obtain ⟨same,restFndas,restLine,restDas⟩ := step
    obtain ⟨tail,last⟩ := ih restQuiet restFndas restLine restDas
    rw [modifiedLinesCons,List.map_cons,same,tail]
    exact ⟨rfl,last⟩

theorem borderQuiet {functionName : Text} (r : Record) :
    fnNumber functionName r.source = none ∧ fnNumber functionName r.closing = none :=
  ⟨(borderLine (.inl r.opens)).1,(borderLine (.inr r.closes)).1⟩

theorem unnamedRecord {functionName : Text} (newCount : Text) {r : Record}
    (unnamed : r.number functionName = none) :
    modifiedLines functionName newCount idle r.lines = (r.image functionName newCount).lines ∧
      after functionName idle r.lines = idle := by
  have noEntry : ∀ l ∈ r.body, fnNumber functionName l = none := by
    simpa [Record.number,List.head?_eq_none_iff,List.filterMap_eq_nil_iff] using unnamed
  have same : r.image functionName newCount = r := by simp [Record.image,unnamed]
  rw [same]
  refine idleUnchanged newCount (fun l mem => ?_)
  simp only [Record.lines,List.mem_cons,List.mem_append,List.not_mem_nil,or_false] at mem
  rcases mem with rfl | here | rfl
  · exact (borderQuiet r).1
  · exact noEntry l here
  · exact (borderQuiet r).2

theorem imageUnchanged {functionName newCount number : Text} {ls : List Text}
    (others : ∀ l ∈ ls, isFnda functionName l = false ∧ daNumber l ≠ some number) :
    ls.map (imageLine functionName newCount number) = ls := by
  have fixed : ∀ l ∈ ls, imageLine functionName newCount number l = l := by
    intro l mem
    obtain ⟨notFnda,notDa⟩ := others l mem
    simp [imageLine,notFnda,notDa]
  exact (List.map_congr_left fixed).trans (List.map_id ls)

theorem canonicalNumber {functionName number : Text} {r : Record}
    (canonical : Canonical functionName number r.body) : r.number functionName = some number := by
  obtain ⟨before,entry,rest,split,found,earlier,_⟩ := canonical.split
  have none : before.filterMap (fnNumber functionName) = [] :=
    List.filterMap_eq_nil_iff.mpr (fun l mem => (earlier l mem).1)
  simp [Record.number,split,none,found]

theorem namedRecord {functionName number : Text} (newCount : Text) {r : Record}
    (canonical : Canonical functionName number r.body) :
    modifiedLines functionName newCount idle r.lines = (r.image functionName newCount).lines ∧
      after functionName idle r.lines = idle := by
  have named := canonicalNumber canonical
  obtain ⟨before,entry,rest,split,found,earlier,once,oneFnda,oneDa⟩ := canonical.split
  have quiet : ∀ l ∈ r.source::before, fnNumber functionName l = none := by
    intro l mem
    rcases List.mem_cons.mp mem with rfl | here
    · exact (borderQuiet r).1
    · exact (earlier l here).1
  obtain ⟨same,still⟩ := idleUnchanged newCount quiet
  have raised : next functionName idle entry = ⟨true,some number⟩ := by simp [next,found]
  obtain ⟨changed,settled⟩ := pendingConsumed newCount (p := ⟨true,some number⟩) once
    (by simpa using oneFnda) (.inr rfl) (by simpa using oneDa)
  obtain ⟨closed,stays⟩ := @idleUnchanged functionName newCount [r.closing]
    (by simpa using (borderQuiet r).2)
  have shape : r.lines = (r.source::before) ++ (entry::(rest ++ [r.closing])) := by
    simp [Record.lines,split]
  have kept : imageLine functionName newCount number entry = entry := by
    obtain ⟨notFnda,notDa⟩ := classesDisjoint.1 number found
    simp [imageLine,notFnda,notDa]
  have image : (r.image functionName newCount).lines =
      (r.source::before) ++ (entry::(rest.map (imageLine functionName newCount number) ++
        [r.closing])) := by
    have beforeSame := @imageUnchanged functionName newCount number before
      (fun l mem => (earlier l mem).2)
    simp [Record.lines,Record.image,named,split,beforeSame,kept]
  constructor
  · rw [shape,image,modifiedLinesAppend,same,still,modifiedLinesCons,raised,modifiedLinesAppend,
      changed,settled,closed]
    simp [written,idle]
  · rw [shape,after,List.foldl_append,List.foldl_cons,List.foldl_append]
    simp only [after] at still settled stays
    rw [still,raised,settled,stays]

theorem recordRun {functionName : Text} (newCount : Text) {records : List Record}
    (regular : ∀ r ∈ records, r.Regular functionName) :
    modifiedLines functionName newCount idle (records.flatMap Record.lines) =
      (records.map (Record.image functionName newCount)).flatMap Record.lines := by
  induction records with
  | nil => rfl
  | cons r rest ih =>
    have step : modifiedLines functionName newCount idle r.lines =
        (r.image functionName newCount).lines ∧ after functionName idle r.lines = idle := by
      rcases regular r List.mem_cons_self with unnamed | ⟨number,canonical⟩
      · exact unnamedRecord newCount unnamed
      · exact namedRecord newCount canonical
    have tail := ih (fun x mem => regular x (List.mem_cons_of_mem _ mem))
    rw [List.flatMap_cons,modifiedLinesAppend,step.1,step.2,tail,List.map_cons,List.flatMap_cons]

theorem modifyCoverageRecordwise {functionName newCount infoFile : Text} {records : List Record}
    (file : ReadsAs infoFile records) (regular : ∀ r ∈ records, r.Regular functionName) :
    modifyCoverage functionName newCount infoFile =
      ((records.map (Record.image functionName newCount)).flatMap Record.lines).flatten := by
  rw [modifyCoverage,file,recordRun newCount regular]

def sampleNamed : Record where
  source := "SF:cgroup.c\n".toList
  body := ["FN:10,f\n".toList,"FN:20,g\n".toList,"FNDA:3,g\n".toList,"DA:10,0\n".toList,
    "FNDA:0,f\n".toList,"DA:20,3\n".toList]
  closing := "end_of_record\n".toList
  opens := by decide
  closes := by decide
  inner := by decide

def sampleOther : Record where
  source := "SF:cpuset.c\n".toList
  body := ["FN:10,h\n".toList,"FNDA:0,h\n".toList,"DA:10,0\n".toList]
  closing := "end_of_record\n".toList
  opens := by decide
  closes := by decide
  inner := by decide

theorem sampleRecordwise :
    modifyCoverage "f".toList "5".toList ([sampleNamed,sampleOther].flatMap Record.lines).flatten =
      ([sampleNamed,sampleOther].map (Record.image "f".toList "5".toList)
        |>.flatMap Record.lines).flatten := by
  refine modifyCoverageRecordwise (by unfold ReadsAs; decide) (fun r mem => ?_)
  simp only [List.mem_cons,List.not_mem_nil,or_false] at mem
  rcases mem with rfl | rfl
  · refine .inr ⟨"10".toList,⟨⟨[],"FN:10,f\n".toList,sampleNamed.body.tail,?_⟩⟩⟩
    decide
  · exact .inl (by decide)

/- Fields are compared after trimming, so a name with white space around it is never
found, although the tracefile spells it out. -/
theorem paddedNameIgnored :
    modifyCoverage " f".toList "5".toList
        "SF:a.c\nFN:1, f\nFNDA:0, f\nDA:1,0\nend_of_record\n".toList ≠
      "SF:a.c\nFN:1, f\nFNDA:5, f\nDA:1,5\nend_of_record\n".toList := by
  decide

def Unanswered {α : Type} (start stop : α → Prop) (ls : List α) : Prop :=
  ∃ before x rest, ls = before ++ x::rest ∧ start x ∧ ∀ y ∈ rest, ¬ stop y

theorem unansweredSnoc {α : Type} {start stop : α → Prop} {ls : List α} {l : α} :
    Unanswered start stop (ls ++ [l]) ↔ start l ∨ (Unanswered start stop ls ∧ ¬ stop l) := by
  constructor
  · intro unanswered
    obtain ⟨before,x,rest,split,first,open'⟩ := unanswered
    rcases List.eq_nil_or_concat rest with rfl | ⟨init,last,rfl⟩
    · obtain ⟨_,same⟩ := List.append_inj' split rfl
      cases same
      exact .inl first
    · rw [List.concat_eq_append,← List.cons_append,← List.append_assoc] at split
      obtain ⟨same,lastSame⟩ := List.append_inj' split rfl
      cases lastSame
      exact .inr ⟨⟨before,x,init,same,first,fun y mem => open' y (by simp [mem])⟩,open' l (by simp)⟩
  · intro either
    rcases either with first | ⟨⟨before,x,rest,rfl,first,open'⟩,free⟩
    · exact ⟨ls,l,[],rfl,first,by simp⟩
    · refine ⟨before,x,rest ++ [l],by simp,first,fun y mem => ?_⟩
      rcases List.mem_append.mp mem with here | last
      · exact open' y here
      · rw [List.mem_singleton.mp last]
        exact free

def OpenFn (functionName : Text) (earlier : List Text) : Prop :=
  Unanswered (fun l => (fnNumber functionName l).isSome) (fun l => isFnda functionName l) earlier

def OpenDa (functionName number : Text) (earlier : List Text) : Prop :=
  Unanswered (fun l => fnNumber functionName l = some number)
    (fun l => (fnNumber functionName l).isSome ∨ daNumber l = some number) earlier

theorem afterSnoc (functionName : Text) (p : Pending) (ls : List Text) (l : Text) :
    after functionName p (ls ++ [l]) = next functionName (after functionName p ls) l := by
  simp [after]

theorem afterFnFound (functionName : Text) (earlier : List Text) :
    (after functionName idle earlier).fnFound ↔ OpenFn functionName earlier := by
  induction earlier using List.reverseRecOn with
  | nil => simp [after,idle,OpenFn,Unanswered]
  | append_singleton ls l ih =>
    rw [OpenFn,unansweredSnoc,← OpenFn,← ih,afterSnoc]
    cases found : fnNumber functionName l with
    | none => simp [next,found]
    | some number => simp [next,found]

theorem afterLineNumber (functionName number : Text) (earlier : List Text) :
    (after functionName idle earlier).lineNumber = some number ↔
      OpenDa functionName number earlier := by
  induction earlier using List.reverseRecOn with
  | nil => simp [after,idle,OpenDa,Unanswered]
  | append_singleton ls l ih =>
    rw [OpenDa,unansweredSnoc,← OpenDa,← ih,afterSnoc]
    cases found : fnNumber functionName l with
    | none => simp [next,found,Option.filter_eq_some_iff]
    | some other => simp [next,found]

theorem modifiedAt (functionName newCount : Text) {ls earlier later : List Text} {l : Text}
    (split : ls = earlier ++ l::later) :
    (modifiedLines functionName newCount idle ls)[earlier.length]? =
      some (written functionName newCount (after functionName idle earlier) l) := by
  subst split
  rw [modifiedLinesAppend,List.getElem?_append_right (by rw [modifiedLinesLength]),
    modifiedLinesLength,modifiedLinesCons]
  simp

structure Place (records : List Record) (earlier : List Text) (r : Record) (l : Text) : Prop where
  intro ::
  split : ∃ before later pre post, records = before ++ r::later ∧ r.lines = pre ++ l::post ∧
    earlier = before.flatMap Record.lines ++ pre

def RecordLocal (functionName newCount infoFile : Text) (records : List Record) : Prop :=
  ∀ earlier r l out, Place records earlier r l →
    (modifiedLines functionName newCount idle
      (TextFile.lines (universalNewlines infoFile)))[earlier.length]? = some out → out ≠ l →
    (isFnda functionName l ∧ ∃ k ∈ r.lines, (fnNumber functionName k).isSome) ∨
      ∃ number, daNumber l = some number ∧ ∃ k ∈ r.lines, fnNumber functionName k = some number

/- No line that the rewriting would alter is reached by an FN entry of another record
that is still unanswered there. -/
def Contained (functionName newCount : Text) (records : List Record) : Prop :=
  ∀ earlier r l, Place records earlier r l →
    (isFnda functionName l → l ≠ newFnda functionName newCount →
      (∀ k ∈ r.lines, fnNumber functionName k = none) → ¬ OpenFn functionName earlier) ∧
    ∀ number, daNumber l = some number → l ≠ newDa number newCount →
      (∀ k ∈ r.lines, fnNumber functionName k ≠ some number) → ¬ OpenDa functionName number earlier

theorem placeSplit {records earlier r l} (place : Place records earlier r l) :
    ∃ later, records.flatMap Record.lines = earlier ++ l::later := by
  obtain ⟨before,later,pre,post,rfl,lines,rfl⟩ := place.split
  exact ⟨post ++ later.flatMap Record.lines,by simp [lines]⟩

theorem writtenChanges {functionName newCount : Text} {p : Pending} {l : Text} :
    written functionName newCount p l ≠ l ↔
      (p.fnFound ∧ isFnda functionName l ∧ l ≠ newFnda functionName newCount) ∨
      ∃ number, p.lineNumber = some number ∧ daNumber l = some number ∧ l ≠ newDa number newCount := by
  obtain ⟨fnFound,lineNumber⟩ := p
  have disjoint := (@classesDisjoint functionName l).2
  by_cases entry : isFnda functionName l = true
  · simp only [written,entry,disjoint entry]
    cases fnFound <;> cases lineNumber <;> simp [ne_comm]
  · cases lineNumber with
    | none => simp [written,entry]
    | some number =>
      by_cases hit : daNumber l = some number
      · simp [written,entry,hit,ne_comm]
      · refine ⟨fun changed => absurd (by simp [written,entry,hit]) changed,?_⟩
        intro either
        rcases either with ⟨_,other,_⟩ | ⟨n,same,found,_⟩
        · exact absurd other entry
        · exact absurd (found.trans same.symm) hit

theorem modifyCoverageLocal {functionName newCount infoFile : Text} {records : List Record}
    (file : ReadsAs infoFile records) :
    RecordLocal functionName newCount infoFile records ↔ Contained functionName newCount records := by
  have outAt : ∀ {earlier r l}, Place records earlier r l →
      (modifiedLines functionName newCount idle
        (TextFile.lines (universalNewlines infoFile)))[earlier.length]? =
        some (written functionName newCount (after functionName idle earlier) l) := by
    intro earlier r l place
    obtain ⟨later,split⟩ := placeSplit place
    rw [file]
    exact modifiedAt functionName newCount split
  constructor
  · intro kept earlier r l place
    have atLine := kept earlier r l _ place (outAt place)
    rw [writtenChanges] at atLine
    constructor
    · intro entry different unnamed open'
      have disjoint := classesDisjoint.2 entry
      rcases atLine (.inl ⟨(afterFnFound _ _).mpr open',entry,different⟩) with
        ⟨_,k,mem,named⟩ | ⟨number,hit,_⟩
      · simp [unnamed k mem] at named
      · simp [disjoint] at hit
    · intro number hit different unnamed open'
      rcases atLine (.inr ⟨number,(afterLineNumber _ _ _).mpr open',hit,different⟩) with
        ⟨entry,_⟩ | ⟨other,hit',k,mem,named⟩
      · simp [classesDisjoint.2 entry] at hit
      · cases Option.some.inj (hit.symm.trans hit')
        exact unnamed k mem named
  · intro contained earlier r l out place found changed
    have same := Option.some.inj (found.symm.trans (outAt place))
    subst same
    obtain ⟨atFnda,atDa⟩ := contained earlier r l place
    rcases writtenChanges.mp changed with ⟨pending,entry,different⟩ | ⟨number,pending,hit,different⟩
    · refine .inl ⟨entry,?_⟩
      by_contra unnamed
      refine atFnda entry different (fun k mem => ?_) ((afterFnFound _ _).mp pending)
      by_contra named
      exact unnamed ⟨k,mem,Option.isSome_iff_ne_none.mpr named⟩
    · refine .inr ⟨number,hit,?_⟩
      by_contra unnamed
      refine atDa number hit different (fun k mem named => ?_) ((afterLineNumber _ _ _).mp pending)
      exact unnamed ⟨k,mem,named⟩

def sampleTorn : Record where
  source := "SF:a.c\n".toList
  body := ["FN:10,f\n".toList,"FNDA:0,f\n".toList]
  closing := "end_of_record\n".toList
  opens := by decide
  closes := by decide
  inner := by decide

/- The DA line of f was removed from the first record; the count of line 10 of the
other source file is overwritten instead. -/
theorem tornRecordLeaks :
    ReadsAs ([sampleTorn,sampleOther].flatMap Record.lines).flatten [sampleTorn,sampleOther] ∧
    ¬ RecordLocal "f".toList "5".toList ([sampleTorn,sampleOther].flatMap Record.lines).flatten
      [sampleTorn,sampleOther] := by
  refine ⟨by unfold ReadsAs; decide,fun kept => ?_⟩
  have place : Place [sampleTorn,sampleOther]
      (sampleTorn.lines ++ sampleOther.lines.take 3) sampleOther "DA:10,0\n".toList :=
    ⟨⟨[sampleTorn],[],sampleOther.lines.take 3,[sampleOther.closing],rfl,rfl,by decide⟩⟩
  rcases kept _ _ _ "DA:10,5\n".toList place (by decide) (by decide) with ⟨entry,_⟩ | ⟨n,_,k,mem,named⟩
  · exact absurd entry (by decide)
  · have none : ∀ k ∈ sampleOther.lines, fnNumber "f".toList k = none := by decide
    cases (none k mem).symm.trans named

theorem sampleLocal :
    RecordLocal "f".toList "5".toList ([sampleNamed].flatMap Record.lines).flatten [sampleNamed] := by
  refine (modifyCoverageLocal (by unfold ReadsAs; decide)).mpr (fun earlier r l place => ?_)
  obtain ⟨before,later,pre,post,split,_⟩ := place.split
  have only : r ∈ [sampleNamed] := by rw [split]; simp
  rw [List.mem_singleton.mp only]
  have named : "FN:10,f\n".toList ∈ sampleNamed.lines := by decide
  refine ⟨fun _ _ unnamed => absurd (unnamed _ named) (by decide),fun n _ _ unnamed open' => ?_⟩
  obtain ⟨rest,whole⟩ := placeSplit place
  obtain ⟨first,x,tail,rfl,start,_⟩ := open'
  have here : x ∈ sampleNamed.lines := by
    have mem : x ∈ [sampleNamed].flatMap Record.lines := by rw [whole]; simp
    simpa using mem
  exact unnamed x here start

end KernelTestTools.Coverage
