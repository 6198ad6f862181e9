import KernelTestTools.CoverageRecords
import Mathlib.Data.List.Nodup

/-! One pass of modify_coverage for each entry of an associative array, in whatever order
the shell lists them. A pass leaves every line's classification alone, so the scans of the
other entries stop at the same lines before and after it. -/
namespace KernelTestTools.Coverage
open TextFile

/- The loop of run_change_all.sh over "${!functions[@]}", a name and its count each. -/
def runChangeAll (functions : List (Text × Text)) (infoFile : Text) : Text :=
  functions.foldl (fun file entry => modifyCoverage entry.1 entry.2 file) infoFile

/- A count as the array holds it: it splits neither a field nor a line. -/
def PlainCount (count : Text) : Prop := ',' ∉ count ∧ '\n' ∉ count ∧ '\r' ∉ count

def Line (l : Text) : Prop := Terminated l ∨ '\n' ∉ l

structure SameEntry (l k : Text) : Prop where
  fnNumbers : ∀ name, fnNumber name k = fnNumber name l
  fndas : ∀ name, isFnda name k = isFnda name l
  das : daNumber k = daNumber l

theorem sameEntryRefl (l : Text) : SameEntry l l := ⟨fun _ => rfl,fun _ => rfl,rfl⟩

theorem twoFields {l a b : Text} (line : Line l) (two : fields ',' l = [a,b]) :
    ',' ∉ a ∧ ',' ∉ b ∧ '\n' ∉ a ∧ '\n' ∉ strip b ∧ a ⊆ l ∧ b ⊆ l := by
  have first := @fieldsFree ',' l a (by simp [two])
  have last := @fieldsFree ',' l b (by simp [two])
  have join : a ++ (',' :: b) = l := by
    have whole := fieldsJoin ',' l
    rw [two] at whole
    rw [← whole]
    simp [List.intercalate]
  refine ⟨first.1,last.1,?_,?_,first.2,last.2⟩
  · intro mem
    rcases line with ⟨body,whole,rfl⟩ | whole
    · rcases List.eq_nil_or_concat b with rfl | ⟨init,c,rfl⟩
      · have ends := (List.append_inj' join rfl).2
        simp at ends
      · rw [List.concat_eq_append,← List.cons_append,← List.append_assoc] at join
        have front := (List.append_inj' join rfl).1
        exact whole (by rw [← front]; simp [mem])
    · exact whole (first.2 mem)
  · rcases line with ⟨body,whole,rfl⟩ | whole
    · rcases List.eq_nil_or_concat b with rfl | ⟨init,c,rfl⟩
      · simp [strip,lstrip,rstrip]
      · rw [List.concat_eq_append] at join ⊢
        rw [← List.cons_append,← List.append_assoc] at join
        obtain ⟨front,ends⟩ := List.append_inj' join rfl
        rw [ends,stripBreak]
        intro mem
        exact whole (by rw [← front]; simp [stripSubset init mem])
    · exact fun mem => whole (last.2 (stripSubset b mem))

structure Trimmed (l x : Text) : Prop where
  comma : ',' ∉ x
  line : '\n' ∉ x
  strip : strip x = x
  part : x ⊆ l

theorem secondTrimmed {l name : Text} (line : Line l) (two : second l = some name) : Trimmed l name := by
  unfold second at two
  split at two
  · rename_i a b split
    obtain ⟨_,comma,_,whole,_,part⟩ := twoFields line split
    cases two
    exact ⟨fun mem => comma (stripSubset b mem),whole,stripTwice b,
      fun _ mem => part (stripSubset b mem)⟩
  · contradiction

theorem firstNumberTrimmed {l number : Text} (line : Line l) (two : firstNumber l = some number) :
    Trimmed l number ∧ ':' ∉ number := by
  unfold firstNumber at two
  split at two
  · rename_i a b split
    obtain ⟨comma,_,whole,_,part,_⟩ := twoFields line split
    cases two
    have piece : ':' ∉ (fields ':' a)[1]?.getD [] ∧ (fields ':' a)[1]?.getD [] ⊆ a := by
      cases found : (fields ':' a)[1]? with
      | none => simp
      | some x => exact fieldsFree (List.mem_of_getElem? found)
    have inner := stripSubset ((fields ':' a)[1]?.getD [])
    exact ⟨⟨fun mem => comma (piece.2 (inner mem)),fun mem => whole (piece.2 (inner mem)),
      stripTwice _,fun _ mem => part (piece.2 (inner mem))⟩,fun mem => piece.1 (inner mem)⟩
  · contradiction

theorem secondNewFnda {l name count : Text} (trimmed : Trimmed l name) (plain : PlainCount count) :
    second (newFnda name count) = some name := by
  have shape : newFnda name count = (fnda ++ count) ++ ',' :: (name ++ ['\n']) := by simp [newFnda]
  have left : ',' ∉ fnda ++ count := by
    rw [List.mem_append,not_or]
    exact ⟨by decide,plain.1⟩
  have right : ',' ∉ name ++ ['\n'] := by simpa using trimmed.comma
  rw [second,shape,fieldsPair left right]
  simp only [stripBreak,trimmed.strip]

theorem firstNumberNewDa {l number count : Text} (trimmed : Trimmed l number) (colon : ':' ∉ number)
    (plain : PlainCount count) : firstNumber (newDa number count) = some number := by
  have shape : newDa number count = (da ++ number) ++ ',' :: (count ++ ['\n']) := by simp [newDa]
  have left : ',' ∉ da ++ number := by
    rw [List.mem_append,not_or]
    exact ⟨by decide,trimmed.comma⟩
  have right : ',' ∉ count ++ ['\n'] := by simpa using plain.1
  have key : fields ':' (da ++ number) = ["DA".toList,number] :=
    fieldsPair (a := "DA".toList) (by decide) colon
  rw [firstNumber,shape,fieldsPair left right]
  simp [key,trimmed.strip]

theorem isFndaIff {name l : Text} : isFnda name l = true ↔ fnda <+: l ∧ second l = some name := by
  simp [isFnda]

theorem sameFnda {name l count : Text} (line : Line l) (plain : PlainCount count)
    (entry : isFnda name l = true) : SameEntry l (newFnda name count) := by
  obtain ⟨here,named⟩ := isFndaIff.mp entry
  have again := secondNewFnda (secondTrimmed line named) plain
  have front : fnda <+: newFnda name count := ⟨count ++ [','] ++ name ++ ['\n'],by simp [newFnda]⟩
  have apart : ∀ {k}, fnda <+: k → ¬ fn <+: k ∧ ¬ da <+: k := fun {k} starts =>
    ⟨fun other => (@keysDistinct k).1 ⟨other,starts⟩,fun other => (@keysDistinct k).2.2 ⟨starts,other⟩⟩
  refine ⟨fun other => ?_,fun other => ?_,?_⟩
  · simp [fnNumber,(apart here).1,(apart front).1]
  · simp [isFnda,here,front,named,again]
  · simp [daNumber,(apart here).2,(apart front).2]

theorem sameDa {number l count : Text} (line : Line l) (plain : PlainCount count)
    (entry : daNumber l = some number) : SameEntry l (newDa number count) := by
  have here : da <+: l ∧ firstNumber l = some number := by simpa [daNumber] using entry
  obtain ⟨trimmed,colon⟩ := firstNumberTrimmed line here.2
  have again := firstNumberNewDa trimmed colon plain
  have front : da <+: newDa number count := ⟨number ++ [','] ++ count ++ ['\n'],by simp [newDa]⟩
  have apart : ∀ {k}, da <+: k → ¬ fn <+: k ∧ ¬ fnda <+: k := fun {k} starts =>
    ⟨fun other => (@keysDistinct k).2.1 ⟨other,starts⟩,fun other => (@keysDistinct k).2.2 ⟨other,starts⟩⟩
  refine ⟨fun other => ?_,fun other => ?_,?_⟩
  · simp [fnNumber,(apart here.1).1,(apart front).1]
  · simp [isFnda,(apart here.1).2,(apart front).2]
  · simp [daNumber,here,front,again]

theorem writtenForms (name count : Text) (p : Pending) (l : Text) :
    written name count p l = l ∨ (isFnda name l = true ∧ written name count p l = newFnda name count) ∨
      ∃ number, daNumber l = some number ∧ written name count p l = newDa number count := by
  unfold written
  split
  · rename_i entry
    exact .inr (.inl ⟨entry.2,rfl⟩)
  · split
    · split
      · rename_i number _ hit
        exact .inr (.inr ⟨number,hit,rfl⟩)
      · exact .inl rfl
    · exact .inl rfl

theorem writtenSame {name count l : Text} (line : Line l) (plain : PlainCount count) (p : Pending) :
    SameEntry l (written name count p l) := by
  rcases writtenForms name count p l with same | ⟨entry,same⟩ | ⟨number,entry,same⟩
  · rw [same]
    exact sameEntryRefl l
  · rw [same]
    exact sameFnda line plain entry
  · rw [same]
    exact sameDa line plain entry

theorem nextSame {l k : Text} (same : SameEntry l k) (name : Text) (p : Pending) :
    next name p k = next name p l := by
  simp only [next,same.fnNumbers,same.fndas,same.das]

theorem newFndaLine {l name count : Text} (trimmed : Trimmed l name) (plain : PlainCount count) :
    Terminated (newFnda name count) := by
  refine ⟨fnda ++ count ++ [','] ++ name,?_,rfl⟩
  simp only [List.mem_append,not_or]
  exact ⟨⟨⟨by decide,plain.2.1⟩,by decide⟩,trimmed.line⟩

theorem newDaLine {l number count : Text} (trimmed : Trimmed l number) (plain : PlainCount count) :
    Terminated (newDa number count) := by
  refine ⟨da ++ number ++ [','] ++ count,?_,rfl⟩
  simp only [List.mem_append,not_or]
  exact ⟨⟨⟨by decide,trimmed.line⟩,by decide⟩,plain.2.1⟩

theorem writtenLine {name count l : Text} (line : Line l) (plain : PlainCount count) (p : Pending) :
    (written name count p l = l ∨ Terminated (written name count p l)) ∧
      ('\r' ∉ l → '\r' ∉ written name count p l) := by
  rcases writtenForms name count p l with same | ⟨entry,same⟩ | ⟨number,entry,same⟩
  · rw [same]
    exact ⟨.inl rfl,id⟩
  · rw [same]
    have trimmed := secondTrimmed line (isFndaIff.mp entry).2
    refine ⟨.inr (newFndaLine trimmed plain),fun clean => ?_⟩
    simp only [newFnda,List.mem_append,not_or]
    exact ⟨⟨⟨⟨by decide,plain.2.2⟩,by decide⟩,fun mem => clean (trimmed.part mem)⟩,by decide⟩
  · rw [same]
    have here : da <+: l ∧ firstNumber l = some number := by simpa [daNumber] using entry
    have trimmed := (firstNumberTrimmed line here.2).1
    refine ⟨.inr (newDaLine trimmed plain),fun clean => ?_⟩
    simp only [newDa,List.mem_append,not_or]
    exact ⟨⟨⟨⟨by decide,fun mem => clean (trimmed.part mem)⟩,by decide⟩,plain.2.2⟩,by decide⟩

theorem lineOfList {ls : List Text} (shape : LineList ls) : ∀ l ∈ ls, Line l := by
  intro l mem
  rcases lineListMember shape mem with line | ⟨whole,_⟩
  · exact .inl line
  · exact .inr whole

theorem modifiedList {ls : List Text} {name count : Text} (shape : LineList ls)
    (plain : PlainCount count) (p : Pending) : LineList (modifiedLines name count p ls) := by
  induction shape generalizing p with
  | nil => exact .nil
  | @last l whole nonempty =>
    rw [modifiedLinesCons]
    rcases (writtenLine (.inr whole) plain p).1 with same | line
    · rw [same]
      exact .last whole nonempty
    · exact .cons line .nil
  | @cons l ls line rest ih =>
    rw [modifiedLinesCons]
    refine .cons ?_ (ih _)
    rcases (writtenLine (.inl line) plain p).1 with same | still
    · rw [same]
      exact line
    · exact still

theorem modifiedClean {ls : List Text} {name count : Text} (whole : ∀ l ∈ ls, Line l)
    (plain : PlainCount count) (clean : ∀ l ∈ ls, '\r' ∉ l) (p : Pending) :
    ∀ k ∈ modifiedLines name count p ls, '\r' ∉ k := by
  induction ls generalizing p with
  | nil => simp [modifiedLines]
  | cons l ls ih =>
    intro k mem
    rw [modifiedLinesCons] at mem
    rcases List.mem_cons.mp mem with rfl | later
    · exact (writtenLine (whole l List.mem_cons_self) plain p).2 (clean l List.mem_cons_self)
    · exact ih (fun x inside => whole x (List.mem_cons_of_mem _ inside))
        (fun x inside => clean x (List.mem_cons_of_mem _ inside)) _ k later

def passes (state : Text → Pending) (functions : List (Text × Text)) (ls : List Text) : List Text :=
  functions.foldl (fun ls entry => modifiedLines entry.1 entry.2 (state entry.1) ls) ls

def lineRun (state : Text → Pending) (functions : List (Text × Text)) (l : Text) : Text :=
  functions.foldl (fun l entry => written entry.1 entry.2 (state entry.1) l) l

def Plain (functions : List (Text × Text)) : Prop := ∀ entry ∈ functions, PlainCount entry.2

theorem modifyCoverageLines {ls : List Text} (shape : LineList ls) (clean : ∀ l ∈ ls, '\r' ∉ l)
    (name count : Text) :
    modifyCoverage name count ls.flatten = (modifiedLines name count idle ls).flatten := by
  have free : '\r' ∉ ls.flatten := by
    intro mem
    obtain ⟨l,listed,inside⟩ := List.mem_flatten.mp mem
    exact clean l listed inside
  rw [modifyCoverage,noReturnUnchanged free,linesExact shape]

theorem runLines {functions : List (Text × Text)} (plain : Plain functions) {ls : List Text}
    (shape : LineList ls) (clean : ∀ l ∈ ls, '\r' ∉ l) :
    runChangeAll functions ls.flatten = (passes (fun _ => idle) functions ls).flatten ∧
      LineList (passes (fun _ => idle) functions ls) := by
  induction functions generalizing ls with
  | nil => exact ⟨rfl,shape⟩
  | cons entry rest ih =>
    have count := plain entry List.mem_cons_self
    rw [runChangeAll,List.foldl_cons,modifyCoverageLines shape clean]
    exact ih (fun e mem => plain e (List.mem_cons_of_mem _ mem)) (modifiedList shape count idle)
      (modifiedClean (lineOfList shape) count clean idle)

theorem runChangeAllLines {functions : List (Text × Text)} (plain : Plain functions)
    (some : functions ≠ []) (infoFile : Text) :
    runChangeAll functions infoFile =
        (passes (fun _ => idle) functions (lines (universalNewlines infoFile))).flatten ∧
      LineList (passes (fun _ => idle) functions (lines (universalNewlines infoFile))) := by
  have read := runLines plain (linesShape (universalNewlines infoFile)) (fun l mem => lineNoReturn mem)
  obtain ⟨entry,rest,rfl⟩ := List.exists_cons_of_ne_nil some
  have again : runChangeAll (entry::rest) (universalNewlines infoFile) =
      runChangeAll (entry::rest) infoFile := by
    simp only [runChangeAll,List.foldl_cons,modifyCoverage,
      noReturnUnchanged (universalNoReturn infoFile)]
  rw [linesJoin,again] at read
  exact read

/- One line through all passes; its own classification carries every scan past it. -/
theorem lineRunSame {functions : List (Text × Text)} (plain : Plain functions)
    (state : Text → Pending) {l : Text} (line : Line l) :
    SameEntry l (lineRun state functions l) ∧ Line (lineRun state functions l) := by
  induction functions generalizing l with
  | nil => exact ⟨sameEntryRefl l,line⟩
  | cons entry rest ih =>
    have count := plain entry List.mem_cons_self
    have same := @writtenSame entry.1 _ _ line count (state entry.1)
    have still : Line (written entry.1 entry.2 (state entry.1) l) := by
      rcases (@writtenLine entry.1 _ _ line count (state entry.1)).1 with kept | ends
      · rw [kept]
        exact line
      · exact .inl ends
    obtain ⟨later,final⟩ := ih (fun e mem => plain e (List.mem_cons_of_mem _ mem)) still
    refine ⟨⟨fun name => ?_,fun name => ?_,?_⟩,final⟩
    · exact (later.fnNumbers name).trans (same.fnNumbers name)
    · exact (later.fndas name).trans (same.fndas name)
    · exact later.das.trans same.das

theorem passesCons {functions : List (Text × Text)} (plain : Plain functions)
    (state : Text → Pending) {l : Text} (line : Line l) (ls : List Text) :
    passes state functions (l::ls) =
      lineRun state functions l::passes (fun name => next name (state name) l) functions ls := by
  induction functions generalizing l ls with
  | nil => rfl
  | cons entry rest ih =>
    have count := plain entry List.mem_cons_self
    have one : Plain [entry] := fun e mem => by rw [List.mem_singleton.mp mem]; exact count
    obtain ⟨same,still⟩ := lineRunSame one state line
    have tail := ih (fun e mem => plain e (List.mem_cons_of_mem _ mem)) still
      (modifiedLines entry.1 entry.2 (next entry.1 (state entry.1) l) ls)
    simp only [lineRun,List.foldl_cons,List.foldl_nil] at same tail
    rw [passes,List.foldl_cons,modifiedLinesCons]
    simp only [nextSame same] at tail
    exact tail

theorem foldlWithin {α β : Type} {step : β → α → β} {Kept : β → Prop} {xs ys : List α}
    (perm : xs.Perm ys) (keeps : ∀ b, ∀ a ∈ xs, Kept b → Kept (step b a))
    (commute : ∀ x ∈ xs, ∀ y ∈ xs, ∀ b, Kept b → step (step b x) y = step (step b y) x)
    {b : β} (start : Kept b) : xs.foldl step b = ys.foldl step b := by
  induction perm generalizing b with
  | nil => rfl
  | cons a rest ih =>
    exact ih (fun b x mem => keeps b x (List.mem_cons_of_mem _ mem))
      (fun x left y right => commute x (List.mem_cons_of_mem _ left) y (List.mem_cons_of_mem _ right))
      (keeps b a List.mem_cons_self start)
  | swap x y rest =>
    have same := commute y (by simp) x (by simp) b start
    simp only [List.foldl_cons,same]
  | trans first second ihFirst ihSecond =>
    rw [ihFirst keeps commute start]
    exact ihSecond (fun b a mem => keeps b a (first.symm.subset mem))
      (fun x left y right => commute x (first.symm.subset left) y (first.symm.subset right)) start

theorem writtenDa {name count number l : Text} (entry : daNumber l = some number) (p : Pending) :
    written name count p l = if p.lineNumber = some number then newDa number count else l := by
  have notFnda : isFnda name l = false := by
    by_contra other
    have none := (@classesDisjoint name l).2 (by simpa using other)
    rw [none] at entry
    cases entry
  cases waiting : p.lineNumber with
  | none => simp [written,notFnda,waiting]
  | some n =>
    by_cases same : n = number
    · simp [written,notFnda,waiting,entry,same]
    · have other : number ≠ n := fun h => same h.symm
      simp [written,notFnda,waiting,entry,same,other]

theorem writtenOther {name count l : Text} (other : daNumber l = none) (p : Pending) :
    written name count p l = if p.fnFound ∧ isFnda name l = true then newFnda name count else l := by
  unfold written
  split
  · rfl
  · cases p.lineNumber <;> simp [other]

def Agreed (state : Text → Pending) (functions : List (Text × Text)) (l : Text) : Prop :=
  ∀ x ∈ functions, ∀ y ∈ functions, ∀ number, daNumber l = some number →
    (state x.1).lineNumber = some number → (state y.1).lineNumber = some number → x.2 = y.2

theorem fndaOwner {x y l : Text} (left : isFnda x l = true) (right : isFnda y l = true) : x = y :=
  Option.some.inj ((isFndaIff.mp left).2.symm.trans (isFndaIff.mp right).2)

/- The case split is on the line: a DA line goes to every scan that waits for its number,
an FNDA line to the one function it names. -/
theorem writtenCommute {functions : List (Text × Text)} {state : Text → Pending} {x y : Text × Text}
    {l k : Text} (agreed : Agreed state functions l) (left : x ∈ functions) (right : y ∈ functions)
    (apart : x.1 ≠ y.1) (plainLeft : PlainCount x.2) (plainRight : PlainCount y.2)
    (same : SameEntry l k) (line : Line k) :
    written y.1 y.2 (state y.1) (written x.1 x.2 (state x.1) k) =
      written x.1 x.2 (state x.1) (written y.1 y.2 (state y.1) k) := by
  have afterLeft := @writtenSame x.1 _ _ line plainLeft (state x.1)
  have afterRight := @writtenSame y.1 _ _ line plainRight (state y.1)
  cases entry : daNumber k with
  | some number =>
    have hit : daNumber l = some number := same.das.symm.trans entry
    rw [writtenDa (afterLeft.das.trans entry),writtenDa (afterRight.das.trans entry),
      writtenDa entry,writtenDa entry]
    by_cases first : (state x.1).lineNumber = some number
    · by_cases second : (state y.1).lineNumber = some number
      · rw [if_pos first,if_pos second,agreed x left y right number hit first second]
        simp [first]
      · rw [if_neg second,if_neg second]
    · rw [if_neg first,if_neg first]
  | none =>
    rw [writtenOther (afterLeft.das.trans entry),writtenOther (afterRight.das.trans entry),
      afterLeft.fndas,afterRight.fndas,writtenOther entry,writtenOther entry]
    by_cases named : isFnda x.1 k = true
    · have unnamed : isFnda y.1 k = false := by
        by_contra both
        exact apart (fndaOwner named (by simpa using both))
      simp [unnamed]
    · simp [named]

theorem lineOrder {functions order : List (Text × Text)} (perm : functions.Perm order)
    (distinct : (functions.map Prod.fst).Nodup) (plain : Plain functions) {state : Text → Pending}
    {l : Text} (line : Line l) (agreed : Agreed state functions l) :
    lineRun state functions l = lineRun state order l := by
  refine @foldlWithin _ _ _ (fun k => SameEntry l k ∧ Line k) _ _ perm ?_ ?_ l
    ⟨sameEntryRefl l,line⟩
  · intro k entry mem kept
    have one : Plain [entry] := fun e here => by rw [List.mem_singleton.mp here]; exact plain entry mem
    obtain ⟨same,still⟩ := lineRunSame one state kept.2
    exact ⟨⟨fun name => (same.fnNumbers name).trans (kept.1.fnNumbers name),
      fun name => (same.fndas name).trans (kept.1.fndas name),same.das.trans kept.1.das⟩,still⟩
  · intro x left y right k kept
    by_cases same : x.1 = y.1
    · rw [List.inj_on_of_nodup_map distinct left right same]
    · exact writtenCommute agreed left right same (plain x left) (plain y right) kept.1 kept.2

theorem passesAt {functions : List (Text × Text)} (plain : Plain functions)
    {state : Text → Pending} {earlier later : List Text} {l : Text}
    (whole : ∀ k ∈ earlier ++ l::later, Line k) :
    (passes state functions (earlier ++ l::later))[earlier.length]? =
      some (lineRun (fun name => after name (state name) earlier) functions l) := by
  induction earlier generalizing state with
  | nil =>
    rw [List.nil_append,passesCons plain state (whole l (by simp))]
    rfl
  | cons k ks ih =>
    rw [List.cons_append,passesCons plain state (whole k (by simp)),List.length_cons,
      List.getElem?_cons_succ,ih (fun x mem => whole x (List.mem_cons_of_mem _ mem))]
    rfl

theorem passesOrder {functions order : List (Text × Text)} (perm : functions.Perm order)
    (distinct : (functions.map Prod.fst).Nodup) (plain : Plain functions) {ls : List Text}
    (whole : ∀ l ∈ ls, Line l) {state : Text → Pending}
    (agreed : ∀ earlier l later, ls = earlier ++ l::later →
      Agreed (fun name => after name (state name) earlier) functions l) :
    passes state functions ls = passes state order ls := by
  have plainOrder : Plain order := fun e mem => plain e (perm.symm.subset mem)
  induction ls generalizing state with
  | nil =>
    have empty : ∀ fs : List (Text × Text), passes state fs [] = [] := by
      intro fs
      induction fs with
      | nil => rfl
      | cons e fs ih => exact ih
    rw [empty,empty]
  | cons l ls ih =>
    have here := whole l List.mem_cons_self
    rw [passesCons plain state here,passesCons plainOrder state here,
      @lineOrder _ _ perm distinct plain state _ here (agreed [] l ls rfl)]
    refine congrArg (_ :: ·) (ih (fun k mem => whole k (List.mem_cons_of_mem _ mem)) ?_)
    intro earlier k later split
    exact agreed (l::earlier) k later (by rw [split,List.cons_append])

structure Contested (functions : List (Text × Text)) (earlier : List Text) (l : Text) : Prop where
  intro ::
  entries : ∃ x ∈ functions, ∃ y ∈ functions, ∃ number, x.2 ≠ y.2 ∧ daNumber l = some number ∧
    OpenDa x.1 number earlier ∧ OpenDa y.1 number earlier

theorem agreedIff {functions : List (Text × Text)} {earlier : List Text} {l : Text} :
    Agreed (fun name => after name idle earlier) functions l ↔ ¬ Contested functions earlier l := by
  simp only [Agreed,afterLineNumber]
  constructor
  · intro agreed contested
    obtain ⟨x,left,y,right,number,different,hit,first,second⟩ := contested.entries
    exact different (agreed x left y right number hit first second)
  · intro free x left y right number hit first second
    by_contra different
    exact free ⟨⟨x,left,y,right,number,different,hit,first,second⟩⟩

theorem newDaInjective {number a b : Text} (same : newDa number a = newDa number b) : a = b := by
  simpa [newDa] using same

theorem lineRunPast {functions : List (Text × Text)} {state : Text → Pending} {number k : Text}
    (hit : daNumber k = some number)
    (past : ∀ e ∈ functions, (state e.1).lineNumber ≠ some number) :
    lineRun state functions k = k := by
  induction functions with
  | nil => rfl
  | cons e rest ih =>
    rw [lineRun,List.foldl_cons,writtenDa hit,if_neg (past e List.mem_cons_self)]
    exact ih (fun x mem => past x (List.mem_cons_of_mem _ mem))

theorem lineRunLast {front back : List (Text × Text)} {y : Text × Text}
    (plain : Plain (front ++ y::back)) {state : Text → Pending} {number l : Text} (line : Line l)
    (hit : daNumber l = some number) (waiting : (state y.1).lineNumber = some number)
    (past : ∀ e ∈ back, (state e.1).lineNumber ≠ some number) :
    lineRun state (front ++ y::back) l = newDa number y.2 := by
  have plainFront : Plain front := fun e mem => plain e (List.mem_append_left _ mem)
  have plainLast : Plain (front ++ [y]) := fun e mem => plain e (by
    rcases List.mem_append.mp mem with here | last
    · exact List.mem_append_left _ here
    · rw [List.mem_singleton.mp last]
      simp)
  have reached := (lineRunSame plainFront state line).1.das.trans hit
  have upTo : lineRun state (front ++ [y]) l = newDa number y.2 := by
    rw [lineRun,List.foldl_append]
    exact (writtenDa reached (state y.1)).trans (if_pos waiting)
  have still := (lineRunSame plainLast state line).1.das.trans hit
  have whole : front ++ y::back = (front ++ [y]) ++ back := by simp
  rw [whole,lineRun,List.foldl_append]
  exact (lineRunPast still past).trans upTo

theorem lastCountKept {front back : List (Text × Text)} {y : Text × Text}
    (plain : Plain (front ++ y::back)) {infoFile : Text} {earlier later : List Text}
    {number l : Text} (split : lines (universalNewlines infoFile) = earlier ++ l::later)
    (hit : daNumber l = some number) (waiting : OpenDa y.1 number earlier)
    (past : ∀ e ∈ back, ¬ OpenDa e.1 number earlier) :
    (lines (runChangeAll (front ++ y::back) infoFile))[earlier.length]? =
      some (newDa number y.2) := by
  have whole := lineOfList (linesShape (universalNewlines infoFile))
  obtain ⟨run,shape⟩ := runChangeAllLines plain (by simp) infoFile
  rw [split] at whole run shape
  rw [run,linesExact shape,passesAt plain whole,lineRunLast plain (whole l (by simp)) hit
    ((afterLineNumber _ _ _).mpr waiting) fun e mem open' => past e mem ((afterLineNumber _ _ _).mp open')]

theorem contestedDiffers {functions : List (Text × Text)} (plain : Plain functions)
    {infoFile : Text} {earlier later : List Text} {l : Text}
    (split : lines (universalNewlines infoFile) = earlier ++ l::later)
    (contested : Contested functions earlier l) :
    ∃ first second, first.Perm functions ∧ second.Perm functions ∧
      runChangeAll first infoFile ≠ runChangeAll second infoFile := by
  obtain ⟨x,left,y,right,number,different,hit,waitX,waitY⟩ := contested.entries
  have apart : x ≠ y := fun same => different (by rw [same])
  obtain ⟨rest,perm⟩ : ∃ rest, (rest ++ [x,y]).Perm functions := by
    refine ⟨(functions.erase x).erase y,?_⟩
    have outer := List.perm_cons_erase left
    have inner := List.perm_cons_erase ((List.mem_erase_of_ne apart.symm).mpr right)
    exact (List.perm_append_comm.trans (List.Perm.cons x inner.symm)).trans outer.symm
  have swapped : (rest ++ [y,x]).Perm functions :=
    ((List.Perm.swap x y []).append_left rest).trans perm
  have ends : ∀ {a b : Text × Text}, (rest ++ [a,b]).Perm functions → OpenDa b.1 number earlier →
      (lines (runChangeAll (rest ++ [a,b]) infoFile))[earlier.length]? = some (newDa number b.2) := by
    intro a b order waiting
    have last : rest ++ [a,b] = (rest ++ [a]) ++ b::[] := by simp
    have plainOrder : Plain (rest ++ [a,b]) := fun e mem => plain e (order.subset mem)
    rw [last] at plainOrder ⊢
    exact lastCountKept plainOrder split hit waiting (by simp)
  refine ⟨rest ++ [x,y],rest ++ [y,x],perm,swapped,fun same => ?_⟩
  have listed := congrArg (fun file => (lines file)[earlier.length]?) same
  have counts := (ends perm waitY).symm.trans (listed.trans (ends swapped waitX))
  exact different (newDaInjective (Option.some.inj counts)).symm

theorem orderFree {functions : List (Text × Text)} (distinct : (functions.map Prod.fst).Nodup)
    (plain : Plain functions) (infoFile : Text) :
    (∀ first second, first.Perm functions → second.Perm functions →
      runChangeAll first infoFile = runChangeAll second infoFile) ↔
    ∀ earlier l later, lines (universalNewlines infoFile) = earlier ++ l::later →
      ¬ Contested functions earlier l := by
  constructor
  · intro free earlier l later split contested
    obtain ⟨first,second,left,right,differ⟩ := contestedDiffers plain split contested
    exact differ (free first second left right)
  · intro uncontested
    have base : ∀ order, functions.Perm order →
        runChangeAll functions infoFile = runChangeAll order infoFile := by
      intro order perm
      cases functions with
      | nil => rw [perm.nil_eq]
      | cons entry rest =>
        have plainOrder : Plain order := fun e mem => plain e (perm.symm.subset mem)
        have some : order ≠ [] := fun empty => by simpa [empty] using perm.length_eq
        rw [(runChangeAllLines plain (by simp) infoFile).1,
          (runChangeAllLines plainOrder some infoFile).1,
          passesOrder perm distinct plain (lineOfList (linesShape _))]
        intro earlier l later split
        exact agreedIff.mpr (uncontested earlier l later split)
    intro first second left right
    rw [← base first left.symm,← base second right.symm]

/- The FN lines of the record so far: no record ends between them and the line. -/
structure ContestedInRecord (functions : List (Text × Text)) (earlier : List Text) (l : Text) : Prop where
  intro ::
  record : ∃ before block, earlier = before ++ block ∧
    (∀ k ∈ block, ¬ "end_of_record".toList <+: k) ∧ Contested functions block l

theorem openAppend {name number : Text} (before : List Text) {block : List Text}
    (waiting : OpenDa name number block) : OpenDa name number (before ++ block) := by
  obtain ⟨front,x,rest,rfl,start,open'⟩ := waiting
  exact ⟨before ++ front,x,rest,by simp,start,open'⟩

theorem contestedWhole {functions : List (Text × Text)} {earlier : List Text} {l : Text}
    (contested : ContestedInRecord functions earlier l) : Contested functions earlier l := by
  obtain ⟨before,block,rfl,_,inner⟩ := contested.record
  obtain ⟨x,left,y,right,number,different,hit,first,second⟩ := inner.entries
  exact ⟨⟨x,left,y,right,number,different,hit,openAppend before first,openAppend before second⟩⟩

/- A DA line whose FN line stands in its own record, as the last entry waiting for it leaves it. -/
def KeepsLast (functions : List (Text × Text)) (infoFile : Text) : Prop :=
  ∀ before block l later number,
    lines (universalNewlines infoFile) = (before ++ block) ++ l::later →
    (∀ k ∈ block, ¬ "end_of_record".toList <+: k) → daNumber l = some number →
    ∀ front y back, (front ++ y::back).Perm functions → OpenDa y.1 number block →
      (∀ e ∈ back, ¬ OpenDa e.1 number (before ++ block)) →
      (lines (runChangeAll (front ++ y::back) infoFile))[(before ++ block).length]? =
        some (newDa number y.2)

theorem keepsLast {functions : List (Text × Text)} (plain : Plain functions) (infoFile : Text) :
    KeepsLast functions infoFile := by
  intro before block l later number split _ hit front y back order waiting past
  have plainOrder : Plain (front ++ y::back) := fun e mem => plain e (order.subset mem)
  exact lastCountKept plainOrder split hit (openAppend before waiting) past

theorem orderFreeUnlessContested {functions : List (Text × Text)}
    (distinct : (functions.map Prod.fst).Nodup) (plain : Plain functions) (infoFile : Text) :
    ((∀ earlier l later, lines (universalNewlines infoFile) = earlier ++ l::later →
        ¬ Contested functions earlier l) →
      ∀ first second, first.Perm functions → second.Perm functions →
        runChangeAll first infoFile = runChangeAll second infoFile) ∧
    KeepsLast functions infoFile ∧
    ((∃ earlier l later, lines (universalNewlines infoFile) = earlier ++ l::later ∧
        ContestedInRecord functions earlier l) →
      ∃ first second, first.Perm functions ∧ second.Perm functions ∧
        runChangeAll first infoFile ≠ runChangeAll second infoFile) := by
  refine ⟨(orderFree distinct plain infoFile).mpr,keepsLast plain infoFile,fun contested => ?_⟩
  obtain ⟨earlier,l,later,split,inRecord⟩ := contested
  exact contestedDiffers plain split (contestedWhole inRecord)

/- Two functions that a macro starts on one source line. -/
def sampleMacro : Text :=
  "SF:a.c\nFN:10,f\nFN:10,g\nFNDA:0,f\nFNDA:0,g\nDA:10,0\nend_of_record\n".toList

theorem sameLineLastWins :
    ¬ ∀ first second, first.Perm [("f".toList,"1".toList),("g".toList,"2".toList)] →
      second.Perm [("f".toList,"1".toList),("g".toList,"2".toList)] →
      runChangeAll first sampleMacro = runChangeAll second sampleMacro := by
  intro free
  exact absurd (free _ _ (.refl _) (.swap _ _ _)) (by decide)

theorem sampleOrderFree :
    runChangeAll [("f".toList,"1".toList),("g".toList,"1".toList)] sampleMacro =
      runChangeAll [("g".toList,"1".toList),("f".toList,"1".toList)] sampleMacro := by
  have plain : Plain [("f".toList,"1".toList),("g".toList,"1".toList)] := by
    intro e mem
    rcases List.mem_pair.mp mem with rfl | rfl <;> unfold PlainCount <;> decide
  refine (orderFreeUnlessContested (by decide) plain sampleMacro).1 ?_ _ _ (.refl _) (.swap _ _ _)
  intro earlier l later _ contested
  obtain ⟨x,left,y,right,_,different,_⟩ := contested.entries
  rcases List.mem_pair.mp left with rfl | rfl <;> rcases List.mem_pair.mp right with rfl | rfl <;>
    exact different rfl

end KernelTestTools.Coverage
