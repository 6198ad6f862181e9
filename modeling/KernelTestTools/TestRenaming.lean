import KernelTestTools.TestScript
import KernelTestTools.Templates
import KernelTestTools.DatFiles
import Mathlib.Data.List.Nodup

/-! Renaming the test cases of one subprogram. A block is taken apart line by line, so that
each marker stands on the one line it belongs to; the number of the new name is the first
run of three digits in the old one. -/
namespace KernelTestTools.TestScript
open TextFile Regex DatFiles

def markers : List Text := [titleMarker,nameMarker,subprogramMarker,notesMarker,endNotesMarker]

def Unmarked (l : Text) : Prop := '\n' ∉ l ∧ ∀ m ∈ markers, ¬ m <:+: l

/- What the renaming needs of the name of a C function. -/
structure FunctionName (s : Text) : Prop where
  plain : ∀ c ∈ s, c ≠ ':' ∧ c ≠ '\\' ∧ c ≠ '\n'
  start : ∀ c ∈ s.head?, decimal c = false

def linesText (ls : List Text) : Text := ls.flatMap (· ++ ['\n'])

/- A test case of a script: the lines between the ones that carry a name, and the notes with
what follows them, if there are any. -/
structure Block where
  title : Text
  early : List Text
  middle : List Text
  namePrefix : Text
  number : Text
  late : List Text
  notes : Option (List Text × Text)
  titled : Unmarked title
  plain : ∀ l ∈ early ++ middle ++ late, Unmarked l
  noted : ∀ n ∈ notes, ∀ l ∈ n.1, Unmarked l
  oneLine : '\n' ∉ namePrefix
  digits : ∀ c ∈ number, asciiDigit c = true
  atLeast : 3 ≤ number.length
  separate : ∀ c ∈ namePrefix.getLast?, asciiDigit c = false

def Block.name (b : Block) : Text := b.namePrefix ++ b.number

def Block.front (b : Block) (subprogram title : Text) : List Text :=
  [titleMarker ++ title] ++ b.early ++ [subprogramMarker ++ subprogram] ++ b.middle

def Block.render (b : Block) (subprogram title name rest : Text) : Text :=
  linesText (b.front subprogram title) ++ (nameMarker ++ (name ++ '\n'::rest))

def ending (late : List Text) : Option (List Text × Text) → Text
  | none => linesText late
  | some (ls,after) =>
    linesText late ++ ((notesMarker ++ ['\n']) ++ (linesText ls ++ (endNotesMarker ++ after)))

def Block.text (b : Block) (subprogram : Text) : Text :=
  b.render subprogram b.title b.name (ending b.late b.notes)

def newName (subprogram number : Text) : Text := subprogram ++ ['.'] ++ number

def Renamed (subprogram : Text) (b : Block) : Prop := ∃ rest,
  handleTestCase (b.text subprogram) = .ok (b.render subprogram (newName subprogram b.number)
    (newName subprogram b.number) rest)

def Renaming (subprogram : Text) (blocks : List Block) : Prop :=
  (∀ b ∈ blocks, Renamed subprogram b) ∧
  (blocks.map (fun b => newName subprogram b.number)).Nodup ∧
  ∀ b ∈ blocks, newName subprogram b.number = fullFunction subprogram (numeral 10 b.number)

def Triple (t : Text) : Prop := t.length = 3 ∧ ∀ c ∈ t, isDigit c = true

def FirstTriple (name t : Text) : Prop := Triple t ∧ ∃ x y, name = x ++ (t ++ y) ∧
  ∀ x' t' y', name = x' ++ (t' ++ y') → Triple t' → x.length ≤ x'.length

/- The notes are there, and do not break the template that they are put into. -/
def NotesFit (b : Block) : Prop := ∃ n ∈ b.notes, ∃ note pieces,
  handleTestNote (linesText n.1) = .ok note ∧ template 3 (notesTemplate note) = .ok pieces

def Apart (t a : Text) : Prop := ∀ y ∈ a.tails, y ≠ [] → ¬ y <+: t ∧ ¬ t <+: y

instance (t a : Text) : Decidable (Apart t a) :=
  inferInstanceAs (Decidable (∀ y ∈ a.tails, y ≠ [] → ¬ y <+: t ∧ ¬ t <+: y))

theorem markersApart : ∀ m ∈ markers, ∀ a ∈ markers, m ≠ a → Apart m a := by decide

theorem markersOneLine : ∀ m ∈ markers, '\n' ∉ m ∧ ':' ∈ m := by decide

theorem markedLine {m a v : Text} (hm : m ∈ markers) (ha : a ∈ markers) (different : m ≠ a)
    (absent : ¬ m <:+: v) : ¬ m <:+: a ++ v :=
  absentAppend (noStartApart (markersApart m hm a ha different) v) absent

theorem colonFree {m v : Text} (hm : m ∈ markers) (free : ∀ c ∈ v, c ≠ ':') : ¬ m <:+: v :=
  fun inside => free ':' (inside.subset (markersOneLine m hm).2) rfl

theorem linesTextAppend (a b : List Text) : linesText (a ++ b) = linesText a ++ linesText b := by
  rw [linesText,List.flatMap_append]
  rfl

theorem linesTextSingle (l : Text) : linesText [l] = l ++ ['\n'] := by simp [linesText]

theorem linesFree {m : Text} {ls : List Text} (hm : m ∈ markers) (absent : ∀ l ∈ ls, ¬ m <:+: l)
    (s : Text) : NoStart m (linesText ls) s :=
  noStartLines (markersOneLine m hm).1 absent s

theorem breakFree {m : Text} (hm : m ∈ markers) (s : Text) : NoStart m ['\n'] s := by
  have free := @linesFree m [[]] hm
  rw [linesTextSingle,List.nil_append] at free
  refine free (fun l mem inside => ?_) s
  rw [List.mem_singleton.mp mem] at inside
  exact absurd (inside.subset (markersOneLine m hm).2) (by simp)

theorem insideLine {y : Text} (line : '\n' ∉ y) : ∀ c ∈ y, inLine c = true := by
  intro c mem
  have other : c ≠ '\n' := fun same => line (same ▸ mem)
  simpa [inLine] using other

theorem lineEnd (s : Text) : ('\n'::s).takeWhile inLine = [] := by simp [inLine]

section
variable {m N : Text} {some : m ≠ []}

def renamedTo (N : Text) : List (Piece Char) := .group 1::N.map (fun c => .text [c])

theorem keptText {x s : Text} (free : NoStart m x s) :
    substitute (lineWith m some) (renamedTo N) (x ++ s) =
      x ++ substitute (lineWith m some) (renamedTo N) s :=
  substituteSkip (literalGroup m 1) rfl free

theorem renamedLine (hm : m ∈ markers) {x y s : Text} (first : NoStart m x (m ++ (y ++ '\n'::s)))
    (line : '\n' ∉ y) :
    substitute (lineWith m some) (renamedTo N) (x ++ (m ++ (y ++ '\n'::s))) =
      x ++ (m ++ (N ++ '\n'::substitute (lineWith m some) (renamedTo N) s)) := by
  have found := searchToEnd (literalGroup m 1) (greedyGroup inLine 0 2) first (insideLine line) (lineEnd s)
  rw [substituteSome (r := lineWith m some) found]
  have group : Match.group ⟨[(1,m)] ++ [(2,y)],m ++ y,'\n'::s⟩ 1 = m := by simp [Match.group]
  have expanded : expand (renamedTo N) ⟨[(1,m)] ++ [(2,y)],m ++ y,'\n'::s⟩ = m ++ N := by
    have rest := @expandText N ⟨[(1,m)] ++ [(2,y)],m ++ y,'\n'::s⟩
    rw [expand] at rest ⊢
    rw [renamedTo,List.flatMap_cons,rest]
    simp only [group]
  have skipped := @keptText m N some ['\n'] s (breakFree hm s)
  rw [expanded]
  rw [List.singleton_append,List.singleton_append] at skipped
  rw [skipped,List.append_assoc,List.append_assoc]

theorem substitutedLine (hm : m ∈ markers) {l : Text} (line : '\n' ∉ l) (s : Text)
    (name : '\n' ∉ N) : ∃ l', '\n' ∉ l' ∧
      substitute (lineWith m some) (renamedTo N) (l ++ '\n'::s) =
        l' ++ '\n'::substitute (lineWith m some) (renamedTo N) s := by
  by_cases inside : m <:+: l
  · obtain ⟨x,y,rfl,none⟩ := firstOccurrence inside
    simp only [List.mem_append,not_or] at line
    refine ⟨x ++ (m ++ N),by simp [line,name],?_⟩
    rw [List.append_assoc,List.append_assoc,renamedLine hm (none ('\n'::s)) line.2.2]
    simp
  · refine ⟨l,line,?_⟩
    have free := @linesFree m [l] hm (by simpa using inside) s
    rw [linesTextSingle] at free
    have kept := @keptText m N some (l ++ ['\n']) s free
    simpa using kept

end

theorem frontUnmarked {b : Block} {subprogram title m : Text} (function : FunctionName subprogram)
    (titled : Unmarked title) (hm : m ∈ markers) (other : m ≠ titleMarker) (own : m ≠ subprogramMarker) :
    ∀ l ∈ b.front subprogram title, ¬ m <:+: l := by
  intro l mem
  simp only [Block.front,List.mem_append,List.mem_singleton] at mem
  rcases mem with ((rfl | early) | rfl) | middle
  · exact markedLine hm (by decide) other (titled.2 m hm)
  · exact (b.plain l (by simp [early])).2 m hm
  · exact markedLine hm (by decide) own (colonFree hm (fun c inside => (function.plain c inside).1))
  · exact (b.plain l (by simp [middle])).2 m hm

theorem frontLines (b : Block) (subprogram title : Text) : b.front subprogram title =
    (titleMarker ++ title)::(b.early ++ [subprogramMarker ++ subprogram] ++ b.middle) := by
  simp [Block.front]

theorem titleSubstituted {b : Block} {subprogram title name rest N : Text} {some : titleMarker ≠ []}
    (function : FunctionName subprogram) (titled : Unmarked title) (line : '\n' ∉ name)
    (plain : '\n' ∉ N) : ∃ name', '\n' ∉ name' ∧
      substitute (lineWith titleMarker some) (renamedTo N) (b.render subprogram title name rest) =
        b.render subprogram N name' (substitute (lineWith titleMarker some) (renamedTo N) rest) := by
  have hm : titleMarker ∈ markers := by decide
  have unmarked : ∀ l ∈ b.early ++ [subprogramMarker ++ subprogram] ++ b.middle, ¬ titleMarker <:+: l := by
    intro l mem
    simp only [List.mem_append,List.mem_singleton] at mem
    rcases mem with (early | rfl) | middle
    · exact (b.plain l (by simp [early])).2 _ hm
    · exact markedLine hm (by decide) (by decide)
        (colonFree hm (fun c inside => (function.plain c inside).1))
    · exact (b.plain l (by simp [middle])).2 _ hm
  obtain ⟨name',line',changed⟩ := @substitutedLine titleMarker N some hm name line rest plain
  refine ⟨name',line',?_⟩
  have shape (t n r : Text) : b.render subprogram t n r = titleMarker ++ (t ++ '\n'::(linesText
      (b.early ++ [subprogramMarker ++ subprogram] ++ b.middle) ++ (nameMarker ++ (n ++ '\n'::r)))) := by
    rw [Block.render,frontLines]
    simp [linesText]
  have first := @renamedLine titleMarker N some hm [] title (linesText
    (b.early ++ [subprogramMarker ++ subprogram] ++ b.middle) ++ (nameMarker ++ (name ++ '\n'::rest)))
    (noStartNil _ _) titled.1
  rw [List.nil_append] at first
  rw [shape,first,keptText (linesFree hm unmarked _),
    keptText (noStartApart (markersApart _ hm _ (by decide) (by decide)) _),changed,shape]
  simp

theorem nameSubstituted {b : Block} {subprogram title name rest N : Text} {some : nameMarker ≠ []}
    (function : FunctionName subprogram) (titled : Unmarked title) (line : '\n' ∉ name) :
    substitute (lineWith nameMarker some) (renamedTo N) (b.render subprogram title name rest) =
      b.render subprogram title N (substitute (lineWith nameMarker some) (renamedTo N) rest) := by
  have hm : nameMarker ∈ markers := by decide
  have unmarked := @frontUnmarked b _ _ _ function titled hm (by decide) (by decide)
  exact renamedLine hm (linesFree hm unmarked _) line

theorem substituteEmpty {m N : Text} {some : m ≠ []} :
    substitute (lineWith m some) (renamedTo N) [] = [] := by
  have none : search (lineWith m some).re [] = none := by
    refine searchLiteralNone (literalGroup m 1) (fun inside => some ?_)
    exact List.eq_nil_of_infix_nil inside
  exact substituteNone none

theorem endingSubstituted {m N : Text} {some : m ≠ []} (hm : m ∈ markers) (note : m ≠ notesMarker)
    (endNote : m ≠ endNotesMarker) {late : List Text} {notes : Option (List Text × Text)}
    (plain : ∀ l ∈ late, Unmarked l) (noted : ∀ n ∈ notes, ∀ l ∈ n.1, Unmarked l) :
    ∃ change : Text → Text, substitute (lineWith m some) (renamedTo N) (ending late notes) =
      ending late (notes.map (fun n => (n.1,change n.2))) := by
  refine ⟨substitute (lineWith m some) (renamedTo N),?_⟩
  have lateFree := fun s => linesFree hm (fun l mem => (plain l mem).2 m hm) s
  cases notes with
  | none =>
    have kept := @keptText m N some _ _ (lateFree [])
    rw [substituteEmpty] at kept
    simpa [ending] using kept
  | some n =>
    obtain ⟨ls,after⟩ := n
    have marker := @linesFree m [notesMarker] hm (by
      intro l mem
      rw [List.mem_singleton.mp mem]
      have absent := markedLine (v := []) hm (show notesMarker ∈ markers by decide) note (by
        intro inside
        exact some (List.eq_nil_of_infix_nil inside))
      rwa [List.append_nil] at absent)
    rw [linesTextSingle] at marker
    have body := fun s => linesFree hm (fun l mem => (noted (ls,after) rfl l mem).2 m hm) s
    simp only [ending,Option.map_some]
    rw [keptText (lateFree _),keptText (marker _),keptText (body _),
      keptText (noStartApart (markersApart m hm _ (by decide) endNote) _)]

theorem valueFound {m x y s : Text} {some : m ≠ []} (first : NoStart m x (m ++ (y ++ '\n'::s)))
    (line : '\n' ∉ y) :
    (findall (valueAfter m some) 1 (x ++ (m ++ (y ++ '\n'::s)))).head? = .some y := by
  have found := searchToEnd (literalRe m) (greedyGroup inLine 0 1) first (insideLine line) (lineEnd s)
  rw [findallHead]
  simp only [valueAfter,found]
  simp [Match.group]

theorem nameFound {b : Block} {subprogram title name rest : Text} {some : nameMarker ≠ []}
    (function : FunctionName subprogram) (titled : Unmarked title) (line : '\n' ∉ name) :
    (findall (valueAfter nameMarker some) 1 (b.render subprogram title name rest)).head? = .some name :=
  valueFound (linesFree (by decide)
    (frontUnmarked function titled (by decide) (by decide) (by decide)) _) line

theorem subprogramFound {b : Block} {subprogram title name rest : Text} {some : subprogramMarker ≠ []}
    (function : FunctionName subprogram) (titled : Unmarked title) :
    (findall (valueAfter subprogramMarker some) 1 (b.render subprogram title name rest)).head? =
      .some subprogram := by
  have hm : subprogramMarker ∈ markers := by decide
  have unmarked : ∀ l ∈ [titleMarker ++ title] ++ b.early, ¬ subprogramMarker <:+: l := by
    intro l mem
    rcases List.mem_append.mp mem with start | early
    · rw [List.mem_singleton.mp start]
      exact markedLine hm (by decide) (by decide) (titled.2 _ hm)
    · exact (b.plain l (by simp [early])).2 _ hm
  have shape : b.render subprogram title name rest = linesText ([titleMarker ++ title] ++ b.early) ++
      (subprogramMarker ++ (subprogram ++ '\n'::(linesText b.middle ++
        (nameMarker ++ (name ++ '\n'::rest))))) := by
    rw [Block.render,Block.front,linesTextAppend,linesTextAppend,linesTextSingle]
    simp
  rw [shape]
  exact valueFound (linesFree hm unmarked _) (fun mem => (function.plain _ mem).2.2 rfl)

theorem firstOf {ms : List Text} {m : Text} (found : ms.head? = some m) : first ms = .ok m := by
  cases ms with
  | nil => cases found
  | cons k ms =>
    cases found
    rfl

theorem tripleFound {name : Text} (occurs : ∃ x t y, name = x ++ (t ++ y) ∧ Triple t) :
    ∃ before m, search threeDigits.re name = some (before,m) ∧ FirstTriple name m.taken := by
  induction name with
  | nil =>
    obtain ⟨x,t,y,split,three,_⟩ := occurs
    have empty := congrArg List.length split
    simp only [List.length_nil,List.length_append] at empty
    omega
  | cons c s ih =>
    by_cases here : ((c::s).take 3).length = 3 ∧ ((c::s).take 3).all isDigit = true
    · refine ⟨[],⟨[],(c::s).take 3,(c::s).drop 3⟩,?_,⟨here.1,List.all_eq_true.mp here.2⟩,[],(c::s).drop 3,
        (List.take_append_drop 3 _).symm,fun _ _ _ _ _ => Nat.zero_le _⟩
      refine searchHere ?_
      rw [matchHere,threeDigits,tries,if_pos here]
      rfl
    · have notHere : ∀ t y, c::s = t ++ y → ¬ Triple t := by
        intro t y split triple
        refine here ?_
        have taken : (c::s).take 3 = t := by rw [split,← triple.1,List.take_left]
        rw [taken]
        exact ⟨triple.1,List.all_eq_true.mpr triple.2⟩
      have later : ∃ x t y, s = x ++ (t ++ y) ∧ Triple t := by
        obtain ⟨x,t,y,split,triple⟩ := occurs
        cases x with
        | nil => exact absurd triple (notHere t y split)
        | cons d x => exact ⟨x,t,y,(List.cons.inj split).2,triple⟩
      obtain ⟨before,m,found,triple,x,y,split,least⟩ := ih later
      have none : matchHere threeDigits.re (c::s) = none := by
        rw [matchHere,threeDigits,tries,if_neg here]
        rfl
      refine ⟨c::before,m,by simp [search,none,found],triple,c::x,y,by rw [split]; rfl,?_⟩
      intro x' t' y' other triple'
      cases x' with
      | nil => exact absurd triple' (notHere t' y' other)
      | cons d x' =>
        have shorter := least x' t' y' (List.cons.inj other).2 triple'
        exact Nat.succ_le_succ shorter

theorem firstTripleUnique {name t t' : Text} (left : FirstTriple name t) (right : FirstTriple name t') :
    t = t' := by
  obtain ⟨triple,x,y,split,least⟩ := left
  obtain ⟨triple',x',y',split',least'⟩ := right
  have before : x.length = x'.length :=
    le_antisymm (least x' t' y' split' triple') (least' x t y split triple)
  have rest := (List.append_inj (split.symm.trans split') before).2
  exact (List.append_inj rest (triple.1.trans triple'.1.symm)).1

theorem tripleAfter {letters s x t y : Text} (free : ∀ c ∈ letters, isDigit c = false)
    (split : letters ++ s = x ++ (t ++ y)) (triple : Triple t) : letters.length ≤ x.length := by
  by_contra short
  obtain ⟨three,digits⟩ := triple
  cases t with
  | nil => cases three
  | cons d t =>
    have inside : d ∈ letters := by
      rcases List.append_eq_append_iff.mp split with ⟨z,rfl,_⟩ | ⟨z,rfl,rest⟩
      · simp at short
      · cases z with
        | nil => simp at short
        | cons e z => simp [(List.cons.inj rest).1]
    have off := free d inside
    rw [digits d List.mem_cons_self] at off
    cases off

theorem ownTriple {b : Block} (free : ∀ c ∈ b.namePrefix, isDigit c = false) (three : b.number.length = 3) :
    FirstTriple b.name b.number :=
  ⟨⟨three,fun c mem => asciiIsDigit (b.digits c mem)⟩,b.namePrefix,[],by rw [List.append_nil]; rfl,
    fun _ _ _ split triple => tripleAfter free split triple⟩

theorem numberOccurs (b : Block) : ∃ x t y, b.name = x ++ (t ++ y) ∧ Triple t := by
  have long := b.atLeast
  refine ⟨b.namePrefix,b.number.take 3,b.number.drop 3,?_,?_,?_⟩
  · rw [List.take_append_drop]
    rfl
  · rw [List.length_take]
    omega
  · exact fun c mem => asciiIsDigit (b.digits c (List.mem_of_mem_take mem))

theorem nameOneLine (b : Block) : '\n' ∉ b.name := by
  intro mem
  rcases List.mem_append.mp mem with front | digit
  · exact b.oneLine front
  · have off := b.digits '\n' digit
    simp [asciiDigit] at off

theorem newNamePlain {subprogram t : Text} (function : FunctionName subprogram)
    (digits : ∀ c ∈ t, isDigit c = true) :
    ∀ c ∈ newName subprogram t, c ≠ ':' ∧ c ≠ '\\' ∧ c ≠ '\n' := by
  intro c mem
  simp only [newName,List.mem_append,List.mem_singleton] at mem
  rcases mem with (name | rfl) | digit
  · exact function.plain c name
  · decide
  · have inside := digits c digit
    refine ⟨?_,?_,?_⟩ <;> intro same <;> rw [same] at inside <;> revert inside <;> decide

theorem newNameUnmarked {subprogram t : Text} (function : FunctionName subprogram)
    (digits : ∀ c ∈ t, isDigit c = true) : Unmarked (newName subprogram t) := by
  have plain := newNamePlain function digits
  exact ⟨fun mem => (plain _ mem).2.2 rfl,fun m hm => colonFree hm (fun c mem => (plain c mem).1)⟩

theorem labelTemplate {subprogram t : Text} (plain : '\\' ∉ subprogram)
    (start : ∀ c ∈ subprogram.head?, decimal c = false) (digits : ∀ c ∈ t, isDigit c = true) :
    template 2 ('\\' :: '1' :: newName subprogram t) = .ok (renamedTo (newName subprogram t)) := by
  refine templateGroup (by decide) ?_ ?_
  · intro mem
    simp only [newName,List.mem_append,List.mem_singleton] at mem
    rcases mem with (name | dot) | digit
    · exact plain name
    · cases dot
    · exact absurd (digits _ digit) (by decide)
  · intro c mem
    cases subprogram with
    | nil =>
      simp only [newName,List.nil_append,List.cons_append,List.head?_cons,Option.mem_def,Option.some.injEq] at mem
      rw [← mem]
      decide
    | cons d subprogram => exact start c (by simpa [newName] using mem)

theorem nameTemplate {subprogram t : Text} (function : FunctionName subprogram)
    (digits : ∀ c ∈ t, isDigit c = true) : template 2 ('\\' :: '1' :: newName subprogram t) =
      .ok (renamedTo (newName subprogram t)) :=
  labelTemplate (fun mem => (function.plain _ mem).2.1 rfl) function.start digits

theorem namesHandled {b : Block} {subprogram t : Text} (function : FunctionName subprogram)
    (triple : FirstTriple b.name t) : ∃ change : Text → Text, ∀ result,
      result = b.render subprogram (newName subprogram t) (newName subprogram t)
        (ending b.late (b.notes.map (fun n => (n.1,change n.2)))) →
      handleTestCase (b.text subprogram) = (do
        let testNotes ← first (findall notes 1 result)
        let newTestNotes ← handleTestNote testNotes
        substituted notesSection (notesTemplate newTestNotes) result) := by
  have line := nameOneLine b
  have late : ∀ l ∈ b.late, Unmarked l := fun l mem => b.plain l (by simp [mem])
  have digits := triple.1.2
  obtain ⟨before,m,found,own⟩ := tripleFound (numberOccurs b)
  have number : (findall threeDigits 0 b.name).head? = some t := by
    rw [findallHead,found,firstTripleUnique triple own]
    rfl
  have unmarked := newNameUnmarked function digits
  obtain ⟨name',line',titled⟩ := @titleSubstituted b subprogram b.title b.name (ending b.late b.notes)
    (newName subprogram t) (by decide) function b.titled line unmarked.1
  obtain ⟨change,copied⟩ := @endingSubstituted titleMarker (newName subprogram t) (by decide) (by decide)
    (by decide) (by decide) b.late b.notes late b.noted
  have noted' : ∀ n ∈ b.notes.map (fun n => (n.1,change n.2)), ∀ l ∈ n.1, Unmarked l := by
    intro n mem
    obtain ⟨k,hk,rfl⟩ := Option.map_eq_some_iff.mp mem
    exact b.noted k hk
  obtain ⟨change',copied'⟩ := @endingSubstituted nameMarker (newName subprogram t) (by decide) (by decide)
    (by decide) (by decide) b.late _ late noted'
  have named := @nameSubstituted b subprogram (newName subprogram t) name'
    (ending b.late (b.notes.map (fun n => (n.1,change n.2)))) (newName subprogram t) (by decide) function
    unmarked line'
  refine ⟨change' ∘ change,fun result shape => ?_⟩
  have parsed := nameTemplate function digits
  have testName : first (findall (valueAfter nameMarker (by decide)) 1 (b.text subprogram)) = .ok b.name :=
    firstOf (nameFound function b.titled line)
  have testNum := firstOf number
  have testSubprogram : first (findall (valueAfter subprogramMarker (by decide)) 1 (b.text subprogram)) =
      .ok subprogram := firstOf (subprogramFound function b.titled)
  have step₁ : substituted (lineWith titleMarker (by decide))
      ('\\' :: '1' :: (subprogram ++ ['.'] ++ t)) (b.text subprogram) =
        .ok (b.render subprogram (newName subprogram t) name'
          (ending b.late (b.notes.map (fun n => (n.1,change n.2))))) := by
    rw [copied] at titled
    rw [← titled]
    exact substitutedOk parsed
  have step₂ : substituted (lineWith nameMarker (by decide))
      ('\\' :: '1' :: (subprogram ++ ['.'] ++ t)) (b.render subprogram (newName subprogram t) name'
          (ending b.late (b.notes.map (fun n => (n.1,change n.2))))) = .ok result := by
    rw [copied',Option.map_map] at named
    rw [shape]
    have same := substitutedOk (s := b.render subprogram (newName subprogram t) name'
      (ending b.late (b.notes.map (fun n => (n.1,change n.2))))) (r := lineWith nameMarker (by decide)) parsed
    rw [named] at same
    exact same
  simp only [handleTestCase,bind,Except.bind,testName,testNum,testSubprogram,step₁,step₂]

theorem renderLines (b : Block) (subprogram title name rest : Text) :
    b.render subprogram title name rest =
      linesText (b.front subprogram title ++ [nameMarker ++ name]) ++ rest := by
  rw [Block.render,linesTextAppend,linesTextSingle]
  simp

theorem namedUnmarked {b : Block} {subprogram name : Text} (function : FunctionName subprogram)
    (unmarked : Unmarked name) :
    ∀ l ∈ b.front subprogram name ++ [nameMarker ++ name], ¬ notesMarker <:+: l := by
  intro l mem
  rcases List.mem_append.mp mem with front | own
  · exact frontUnmarked function unmarked (by decide) (by decide) (by decide) l front
  · rw [List.mem_singleton.mp own]
    exact markedLine (by decide) (by decide) (by decide) (unmarked.2 _ (by decide))

theorem lateUnmarked {b : Block} {subprogram name : Text} {late : List Text} (function : FunctionName subprogram)
    (unmarked : Unmarked name) (plain : ∀ l ∈ late, Unmarked l) :
    ∀ l ∈ b.front subprogram name ++ [nameMarker ++ name] ++ late, ¬ notesMarker <:+: l := by
  intro l mem
  rcases List.mem_append.mp mem with front | rest
  · exact namedUnmarked function unmarked l front
  · exact (plain l rest).2 _ (by decide)

theorem notesKeepNames {b : Block} {subprogram name rest : Text} (function : FunctionName subprogram)
    (unmarked : Unmarked name) (pieces : List (Piece Char)) :
    substitute notesSection pieces (b.render subprogram name name rest) =
      b.render subprogram name name (substitute notesSection pieces rest) := by
  rw [renderLines,renderLines]
  exact substituteSkip (literalGroup (notesMarker ++ ['\n']) 1) rfl
    (noStartExtend (linesFree (by decide) (namedUnmarked function unmarked) rest) ['\n'])

theorem notesFound {b : Block} {subprogram name after : Text} {ls late : List Text}
    (function : FunctionName subprogram) (unmarked : Unmarked name)
    (plain : ∀ l ∈ late, Unmarked l) (noted : ∀ l ∈ ls, Unmarked l) :
    (findall notes 1 (b.render subprogram name name (ending late (some (ls,after))))).head? =
      some (linesText ls) := by
  have free := @lateUnmarked b _ _ _ function unmarked plain
  have found := searchBetween (literalRe (notesMarker ++ ['\n'])) (lazyGroup anyChar 1)
    (literalRe endNotesMarker) (x := linesText (b.front subprogram name ++ [nameMarker ++ name] ++ late))
    (y := linesText ls) (s := after) (noStartExtend (linesFree (by decide) free _) ['\n'])
    (fun _ _ => rfl) (linesFree (by decide) (fun l mem => (noted l mem).2 _ (by decide)) _)
  have shape : b.render subprogram name name (ending late (some (ls,after))) =
      linesText (b.front subprogram name ++ [nameMarker ++ name] ++ late) ++
        ((notesMarker ++ ['\n']) ++ (linesText ls ++ (endNotesMarker ++ after))) := by
    rw [renderLines,ending,linesTextAppend _ late]
    simp only [List.append_assoc]
  rw [findallHead,shape]
  simp only [notes,found]
  simp [Match.group]

theorem noNotesFound {b : Block} {subprogram name : Text} {late : List Text}
    (function : FunctionName subprogram) (unmarked : Unmarked name) (plain : ∀ l ∈ late, Unmarked l) :
    findall notes 1 (b.render subprogram name name (ending late none)) = [] := by
  have free := @lateUnmarked b _ _ _ function unmarked plain
  have shape : b.render subprogram name name (ending late none) =
      linesText (b.front subprogram name ++ [nameMarker ++ name] ++ late) := by
    rw [renderLines,ending,linesTextAppend _ late]
  have absent : ¬ (notesMarker ++ ['\n']) <:+: b.render subprogram name name (ending late none) := by
    rw [shape]
    exact absentOfNoStart (by decide) (noStartExtend (linesFree (by decide) free []) ['\n'])
  have none := searchLiteralNone (b := .seq (.group 1 (.rep anyChar 0 true)) (.lit endNotesMarker))
    (literalRe (notesMarker ++ ['\n'])) absent
  rw [findall,scanNone (r := notes) none]
  rfl

theorem caseRenamed {b : Block} {subprogram t : Text} (function : FunctionName subprogram)
    (triple : FirstTriple b.name t) (fit : NotesFit b) : ∃ rest, handleTestCase (b.text subprogram) =
      .ok (b.render subprogram (newName subprogram t) (newName subprogram t) rest) := by
  obtain ⟨change,handled⟩ := namesHandled function triple
  obtain ⟨⟨ls,after⟩,noted,note,pieces,rewritten,parsed⟩ := fit
  have unmarked := newNameUnmarked function triple.1.2
  have plain : ∀ l ∈ b.late, Unmarked l := fun l mem => b.plain l (by simp [mem])
  have found := @notesFound b _ _ (change after) ls b.late function unmarked plain (b.noted _ noted)
  rw [Option.mem_def] at noted
  have run := handled _ rfl
  rw [noted,Option.map_some,firstOf found] at run
  simp only [bind,Except.bind,rewritten] at run
  rw [substitutedOk (r := notesSection) parsed,notesKeepNames function unmarked] at run
  exact ⟨_,run⟩

theorem caseFails {b : Block} {subprogram t : Text} (function : FunctionName subprogram)
    (triple : FirstTriple b.name t) (unfit : ¬ NotesFit b) :
    ∃ failure, handleTestCase (b.text subprogram) = .error failure := by
  obtain ⟨change,handled⟩ := namesHandled function triple
  have unmarked := newNameUnmarked function triple.1.2
  have plain : ∀ l ∈ b.late, Unmarked l := fun l mem => b.plain l (by simp [mem])
  have run := handled _ rfl
  cases noted : b.notes with
  | none =>
    rw [noted,Option.map_none,noNotesFound function unmarked plain] at run
    exact ⟨_,run⟩
  | some n =>
    obtain ⟨ls,after⟩ := n
    have found := @notesFound b _ _ (change after) ls b.late function unmarked plain (b.noted _ noted)
    obtain ⟨note,rewritten⟩ := handleTestNoteOk (linesText ls)
    rw [noted,Option.map_some,firstOf found] at run
    simp only [bind,Except.bind,rewritten] at run
    cases parsed : template 3 (notesTemplate note) with
    | ok pieces => exact absurd ⟨(ls,after),noted,note,pieces,rewritten,parsed⟩ unfit
    | error e =>
      rw [substitutedBad (r := notesSection) parsed] at run
      exact ⟨_,run⟩

theorem sameLine {a b x y : Text} (left : '\n' ∉ a) (right : '\n' ∉ b)
    (same : a ++ '\n'::x = b ++ '\n'::y) : a = b := by
  have hl := linesAppendBreak left x
  have hr := linesAppendBreak right y
  rw [same,hr] at hl
  exact List.append_inj_left' (List.cons.inj hl).1.symm rfl

theorem renamedExactly {b : Block} {subprogram : Text} (function : FunctionName subprogram) :
    Renamed subprogram b ↔ FirstTriple b.name b.number ∧ NotesFit b := by
  constructor
  · intro kept
    obtain ⟨rest,renamed⟩ := kept
    obtain ⟨_,m,_,triple⟩ := tripleFound (numberOccurs b)
    by_cases fit : NotesFit b
    · obtain ⟨rest',run⟩ := caseRenamed function triple fit
      have same := Except.ok.inj (run.symm.trans renamed)
      have digits : ∀ c ∈ b.number, isDigit c = true := fun c mem => asciiIsDigit (b.digits c mem)
      have left := (newNameUnmarked function triple.1.2).1
      have right := (newNameUnmarked function digits).1
      rw [Block.render,Block.render,frontLines,frontLines] at same
      simp only [linesText,List.flatMap_cons,List.append_assoc,List.cons_append,List.nil_append] at same
      have named := sameLine left right (List.append_cancel_left same)
      have number : m.taken = b.number := List.append_cancel_left named
      rw [← number]
      exact ⟨number ▸ triple,fit⟩
    · obtain ⟨failure,run⟩ := caseFails function triple fit
      rw [run] at renamed
      cases renamed
  · intro condition
    obtain ⟨triple,fit⟩ := condition
    exact caseRenamed function triple fit

theorem digitChar {c : Char} (digit : asciiDigit c = true) : ∃ i : Fin 10, c = Char.ofNat (48+i) := by
  simp only [asciiDigit,Bool.and_eq_true,decide_eq_true_eq] at digit
  exact charBetween digit.1 digit.2

/- A number of three digits is what the other scripts print for its value. -/
theorem formatNumber {number : Text} (three : number.length = 3)
    (digits : ∀ c ∈ number, asciiDigit c = true) : formatIndex (numeral 10 number) = number := by
  have printed : ∀ i j k : Fin 10, formatIndex (numeral 10
      [Char.ofNat (48+i),Char.ofNat (48+j),Char.ofNat (48+k)]) =
        [Char.ofNat (48+i),Char.ofNat (48+j),Char.ofNat (48+k)] := by decide +kernel
  obtain ⟨a,b,c,rfl⟩ := List.length_eq_three.mp three
  obtain ⟨i,rfl⟩ := digitChar (digits a (by simp))
  obtain ⟨j,rfl⟩ := digitChar (digits b (by simp))
  obtain ⟨k,rfl⟩ := digitChar (digits c (by simp))
  exact printed i j k

theorem newNameInjective (subprogram : Text) : Function.Injective (newName subprogram) :=
  fun _ _ same => List.append_cancel_left same

theorem renamingExactly {subprogram : Text} {blocks : List Block} (function : FunctionName subprogram) :
    Renaming subprogram blocks ↔
      (∀ b ∈ blocks, FirstTriple b.name b.number ∧ NotesFit b) ∧ (blocks.map Block.number).Nodup := by
  have names : blocks.map (fun b => newName subprogram b.number) =
      (blocks.map Block.number).map (newName subprogram) := by rw [List.map_map]; rfl
  rw [Renaming,names,List.nodup_map_iff (newNameInjective subprogram)]
  constructor
  · intro renamed
    obtain ⟨renamed,distinct,_⟩ := renamed
    exact ⟨fun b mem => (renamedExactly function).mp (renamed b mem),distinct⟩
  · intro condition
    obtain ⟨each,distinct⟩ := condition
    refine ⟨fun b mem => (renamedExactly function).mpr (each b mem),distinct,fun b mem => ?_⟩
    rw [newName,fullFunction,formatNumber (each b mem).1.1.1 b.digits]

instance (l : Text) : Decidable (Unmarked l) :=
  inferInstanceAs (Decidable ('\n' ∉ l ∧ ∀ m ∈ markers, ¬ m <:+: l))

def sampleBlock (namePrefix number : Text) (oneLine : '\n' ∉ namePrefix)
    (digits : ∀ c ∈ number, asciiDigit c = true) (atLeast : 3 ≤ number.length)
    (separate : ∀ c ∈ namePrefix.getLast?, asciiDigit c = false) : Block where
  title := "generated".toList
  early := ["TEST.UNIT:hal".toList]
  middle := ["TEST.NEW".toList]
  namePrefix := namePrefix
  number := number
  late := []
  notes := some (["Test Path 1".toList],"\nTEST.END\n".toList)
  titled := by decide
  plain := by decide
  noted := by
    intro n mem
    cases mem
    decide
  oneLine := oneLine
  digits := digits
  atLeast := atLeast
  separate := separate

def ioctlFirst : Block :=
  sampleBlock "ioctl.".toList "001".toList (by decide) (eachOf (by decide)) (by decide) (eachOption (by decide))

def ioctlSecond : Block :=
  sampleBlock "ioctl.".toList "002".toList (by decide) (eachOf (by decide)) (by decide) (eachOption (by decide))

def shaFirst : Block :=
  sampleBlock "sha256_init.".toList "001".toList (by decide) (eachOf (by decide)) (by decide) (eachOption (by decide))

def shaSecond : Block :=
  sampleBlock "sha256_init.".toList "002".toList (by decide) (eachOf (by decide)) (by decide) (eachOption (by decide))

theorem ioctlName : FunctionName "ioctl".toList := ⟨eachOf (by decide),eachOption (by decide)⟩

theorem shaName : FunctionName "sha256_init".toList :=
  ⟨eachOf (by decide),eachOption (by decide)⟩

def templateEnd : Text := ['\\','n','\\','3']

theorem notesTemplateShape (note : Text) : notesTemplate note = '\\' :: '1' :: (note ++ templateEnd) := rfl

theorem openingReference {note : Text} (start : ∀ c ∈ note.head?, decimal c = false) :
    escape 3 ('1'::(note ++ templateEnd)) = .ok (.group 1,note ++ templateEnd) := by
  refine escapeGroup (by decide) ?_
  cases note with
  | nil => exact eachOption (by decide)
  | cons c note => exact start

theorem verbatimReads {note : Text} (same : verbatim note = true) : ∃ pieces,
    Reads 3 (note ++ templateEnd) (pieces ++ [.text ['\n'],.group 3]) ∧ ∀ m, expand pieces m = note := by
  fun_induction verbatim note with
  | case1 => exact ⟨[],templateIff.mp rfl,fun _ => rfl⟩
  | case2 => cases same
  | case3 d s ih =>
    simp only [Bool.and_eq_true,Bool.not_eq_true'] at same
    obtain ⟨pieces,reads,stands⟩ := ih same.2
    refine ⟨.text ['\\',d]::pieces,.escape (escapeKept same.1 _) reads,fun m => ?_⟩
    have rest := stands m
    rw [expand] at rest ⊢
    rw [List.flatMap_cons,rest]
    rfl
  | case4 c s alone other ih =>
    obtain ⟨pieces,reads,stands⟩ := ih same
    refine ⟨.text [c]::pieces,.char ?_ reads,fun m => ?_⟩
    · intro slash
      cases s with
      | nil => exact alone slash rfl
      | cons d s => exact other d s slash rfl
    · have rest := stands m
      rw [expand] at rest ⊢
      rw [List.flatMap_cons,rest]
      rfl

theorem verbatimTemplate {note : Text} (same : verbatim note = true)
    (start : ∀ c ∈ note.head?, decimal c = false) : ∃ pieces,
    template 3 (notesTemplate note) = .ok (.group 1::(pieces ++ [.text ['\n'],.group 3])) ∧
      ∀ m, expand pieces m = note := by
  obtain ⟨pieces,reads,stands⟩ := verbatimReads same
  refine ⟨pieces,?_,stands⟩
  rw [notesTemplateShape,templateIff]
  exact .escape (openingReference start) reads

theorem bodyPlain : '\\' ∉ body := by
  have plain : body.all (· != '\\') = true := by
    delta body
    exact literalAll (by decide +kernel)
  intro mem
  have off := List.all_eq_true.mp plain _ mem
  simp at off

def standardNote : Text := List.intercalate ['\n'] [head,body,tail]

theorem standardShape : standardNote = head ++ ('\n'::(body ++ '\n'::tail)) := by
  simp [standardNote,List.intercalate]

theorem standardPlain : '\\' ∉ standardNote := by
  have title : '\\' ∉ head := by decide
  rw [standardShape]
  intro mem
  simp only [List.mem_append,List.mem_cons] at mem
  rcases mem with front | same | text | last
  · exact title front
  · cases same
  · exact bodyPlain text
  · exact tailPlain (List.mem_cons.mpr last)

theorem standardStart : ∀ c ∈ standardNote.head?, decimal c = false := by
  have letter : head = 'T'::head.tail := by decide
  rw [standardShape,letter]
  exact eachOption (by decide)

theorem ownNotesFit {b : Block} {ls : List Text} {after : Text} (noted : b.notes = some (ls,after))
    (own : ¬ generated <:+: linesText ls) : NotesFit b := by
  have note : handleTestNote (linesText ls) = .ok standardNote := by rw [handleTestNote,if_neg own,standardNote]
  obtain ⟨_,parsed,_⟩ := verbatimTemplate (plainVerbatim standardPlain) standardStart
  exact ⟨(ls,after),noted,_,_,note,parsed⟩

theorem sampleNotesFit : ∀ b ∈ [shaFirst,shaSecond], NotesFit b := by
  intro b mem
  simp only [List.mem_cons,List.not_mem_nil,or_false] at mem
  have own : ¬ generated <:+: linesText ["Test Path 1".toList] := by decide
  rcases mem with rfl | rfl
  · exact ownNotesFit rfl own
  · exact ownNotesFit rfl own

theorem sampleRenamingExactly : Renaming "ioctl".toList [ioctlFirst,ioctlSecond] ↔
    (∀ b ∈ [ioctlFirst,ioctlSecond], FirstTriple b.name b.number ∧ NotesFit b) ∧
      ([ioctlFirst,ioctlSecond].map Block.number).Nodup :=
  renamingExactly ioctlName

/- The digits of the function's own name are taken for the number of every test case. -/
theorem digitsInNameTaken : FunctionName "sha256_init".toList ∧
    ([shaFirst,shaSecond].map Block.name).Nodup ∧
    (∀ b ∈ [shaFirst,shaSecond], ∃ rest, handleTestCase (b.text "sha256_init".toList) =
      .ok (b.render "sha256_init".toList "sha256_init.256".toList "sha256_init.256".toList rest)) ∧
    ¬ Renaming "sha256_init".toList [shaFirst,shaSecond] := by
  have taken : ∀ b ∈ [shaFirst,shaSecond], FirstTriple b.name "256".toList := by
    intro b mem
    have named : b.name = "sha".toList ++ ("256".toList ++ ("_init.".toList ++ b.number)) := by
      simp only [List.mem_cons,List.not_mem_nil,or_false] at mem
      rcases mem with rfl | rfl <;> rfl
    refine ⟨⟨by decide,eachOf (by decide)⟩,"sha".toList,_,named,fun x t y split triple => ?_⟩
    rw [named] at split
    exact tripleAfter (eachOf (by decide)) split triple
  refine ⟨shaName,by decide,fun b mem => ?_,fun all => ?_⟩
  · exact caseRenamed shaName (taken b mem) (sampleNotesFit b mem)
  · have first := (renamedExactly shaName).mp (all.1 shaFirst List.mem_cons_self)
    have same := firstTripleUnique (taken shaFirst List.mem_cons_self) first.1
    revert same
    decide

end KernelTestTools.TestScript
