import KernelTestTools.NotesCarried
import KernelTestTools.TestBlocks
import KernelTestTools.ShellText

/-! test_case.py run on its own output. A pass gives every test case of the file the name that
its old one leads to and puts the rewritten notes into its section. The second pass no longer
finds the generated sentence and writes the standard notes; after it nothing changes. -/
namespace KernelTestTools.TestScript
open TextFile Regex ShellText

structure Free (l : Text) : Prop where
  unmarked : Unmarked l
  once : ¬ caseMarker <:+: l
  unended : ¬ endMarker <:+ l
  clean : '\r' ∉ l

structure Case where
  title : Text
  early : List Text
  subprogram : Text
  middle : List Text
  name : Text
  late : List Text
  notes : List Text
  after : List Text
  deriving DecidableEq, Repr

section
variable (c : Case)

def Case.called : List Text := c.early ++ [subprogramMarker ++ c.subprogram] ++ c.middle
def Case.inside : List Text := c.called ++ [nameMarker ++ c.name] ++ c.late

def Case.body : List Text := c.inside ++ [notesMarker] ++ c.notes ++ [endNotesMarker] ++ c.after

def Case.text : Text := linesText ([titleMarker ++ c.title] ++ c.body ++ [endMarker])

def Case.number : Text := (findall threeDigits 0 c.name).head?.getD []
def Case.newName : Text := TestScript.newName c.subprogram c.number
def Case.note : Text := (handleTestNote (linesText c.notes)).toOption.getD []

def Case.written (name note : Text) : Case := { c with title := name, name := name, notes := fields '\n' note }

def Case.pass : Case := c.written c.newName c.note

def Case.texts : List Text :=
  [c.title,c.subprogram,c.name] ++ c.early ++ c.middle ++ c.late ++ c.notes ++ c.after

structure Case.Fit : Prop where
  free : ∀ l ∈ c.texts, Free l
  notesUnended : ∀ l ∈ c.notes, ¬ endMarker <:+: l
  function : FunctionName c.subprogram
  numbered : FirstTriple c.name c.number
  carries : Carries c.note

end

structure TestFile where
  head : Text
  cases : List (Case × Text)
  deriving DecidableEq, Repr

def casesWith (cases : List (Case × Text)) : Text := cases.flatMap (fun c => c.1.text ++ c.2)

def TestFile.text (s : TestFile) : Text := s.head ++ casesWith s.cases

def TestFile.pass (s : TestFile) : TestFile :=
  { s with cases := s.cases.map (fun c => (c.1.pass,['\n'])) }

def GapFree (t : Text) : Prop := ¬ caseMarker <:+: t ∧ '\r' ∉ t

structure TestFile.Fit (s : TestFile) : Prop where
  some : s.cases ≠ []
  head : GapFree s.head
  gaps : ∀ c ∈ s.cases, GapFree c.2
  cases : ∀ c ∈ s.cases, c.1.Fit

/- The tool run again and again, each time on what it wrote. -/
def passes : Nat → Text → Except Failure Text
  | 0,s => .ok s
  | n+1,s => do
    let out ← main s
    passes n out

theorem joinedMember {x : Text} {ls : List Text} (mem : x ∈ ls) : x <:+: joinedLines ls := by
  induction ls with
  | nil => cases mem
  | cons l ls ih =>
    cases ls with
    | nil => rw [List.mem_singleton.mp mem,joinedOne]
    | cons k ls =>
      rw [joinedCons]
      rcases List.mem_cons.mp mem with rfl | later
      · exact (List.prefix_append _ _).isInfix
      · exact (ih later).trans ((List.suffix_cons '\n' _).trans (List.suffix_append l _)).isInfix

theorem fieldInside {x t : Text} (mem : x ∈ fields '\n' t) : x <:+: t := by
  have inside := joinedMember mem
  rwa [joinedLines,fieldsJoin] at inside

theorem linesTextCons (l : Text) (ls : List Text) : linesText (l::ls) = l ++ '\n'::linesText ls := by
  simp [linesText]

theorem joinedText {ls : List Text} (some : ls ≠ []) : joinedLines ls ++ ['\n'] = linesText ls := by
  induction ls with
  | nil => exact absurd rfl some
  | cons l ls ih =>
    cases ls with
    | nil => rw [joinedOne,linesTextSingle]
    | cons k ls =>
      rw [joinedCons,linesTextCons,← ih (by simp),List.append_assoc,List.cons_append]

theorem fieldsText (t : Text) : linesText (fields '\n' t) = t ++ ['\n'] := by
  have some : fields '\n' t ≠ [] := List.splitOn_ne_nil '\n' t
  rw [← joinedText some,joinedLines,fieldsJoin]

theorem linesRenamed (N : Text) (ls : List Text) : renames N (linesText ls) = linesText (ls.map (renames N)) := by
  induction ls with
  | nil => exact renamesEmpty N
  | cons l ls ih =>
    rw [linesTextCons,renamesBreak,ih,List.map_cons,linesTextCons]

theorem absentLines {m : Text} (line : '\n' ∉ m) (some : m ≠ []) {ls : List Text}
    (each : ∀ l ∈ ls, ¬ m <:+: l) : ¬ m <:+: linesText ls := by
  have free : NoStart m (linesText ls) [] := noStartLines line each []
  exact absentOfNoStart some free

theorem lineEnded {s : Text} (whole : Whole s) : lastLine s = [] := by
  obtain ⟨line,a,split,_⟩ := lastLineSplit s
  rcases List.eq_nil_or_concat (lastLine s) with empty | ⟨t,d,last⟩
  · exact empty
  · rcases whole with rfl | ⟨b,rfl⟩
    · exact absurd split (by simp [last])
    · rw [last,List.concat_eq_append,← List.append_assoc] at split
      have same := (List.append_inj' split rfl).2
      rw [last,List.concat_eq_append,← same] at line
      exact absurd (by simp) line

theorem linesWhole (ls : List Text) : Whole (linesText ls) := by
  rcases List.eq_nil_or_concat ls with rfl | ⟨ks,l,rfl⟩
  · exact .inl rfl
  · rw [List.concat_eq_append,linesTextAppend,linesTextSingle,← List.append_assoc]
    exact .inr ⟨_,rfl⟩

theorem noteRead (c : Case) : handleTestNote (linesText c.notes) = .ok c.note := by
  obtain ⟨note,rewritten⟩ := handleTestNoteOk (linesText c.notes)
  rw [Case.note,rewritten]
  rfl

theorem numberTriple {c : Case} {t : Text} (triple : FirstTriple c.name t) : c.number = t := by
  have occurs := triple
  obtain ⟨three,x,y,split,_⟩ := occurs
  obtain ⟨before,m,found,own⟩ := tripleFound ⟨x,t,y,split,three⟩
  rw [Case.number,findallHead,found,firstTripleUnique triple own]
  rfl

section
variable {c : Case} {m : Text}

theorem calledUnmarked (fit : c.Fit) (hm : m ∈ markers) (own : m ≠ subprogramMarker) :
    ∀ l ∈ c.called, ¬ m <:+: l := by
  intro l mem
  simp only [Case.called,List.mem_append,List.mem_singleton] at mem
  rcases mem with (early | rfl) | middle
  · exact (fit.free l (by simp [Case.texts,early])).unmarked.2 m hm
  · exact markedLine hm (by decide) own ((fit.free c.subprogram (by simp [Case.texts])).unmarked.2 m hm)
  · exact (fit.free l (by simp [Case.texts,middle])).unmarked.2 m hm

theorem insideUnmarked (fit : c.Fit) (hm : m ∈ markers) (own : m ≠ subprogramMarker) (name : m ≠ nameMarker) :
    ∀ l ∈ c.inside, ¬ m <:+: l := by
  intro l mem
  simp only [Case.inside,List.mem_append,List.mem_singleton] at mem
  rcases mem with (called | rfl) | late
  · exact calledUnmarked fit hm own l called
  · exact markedLine hm (by decide) name ((fit.free c.name (by simp [Case.texts])).unmarked.2 m hm)
  · exact (fit.free l (by simp [Case.texts,late])).unmarked.2 m hm

theorem titleUnmarked (fit : c.Fit) (hm : m ∈ markers) (other : m ≠ titleMarker) :
    ¬ m <:+: titleMarker ++ c.title :=
  markedLine hm (by decide) other ((fit.free c.title (by simp [Case.texts])).unmarked.2 m hm)

theorem notesUnmarked (fit : c.Fit) (hm : m ∈ markers) : ∀ l ∈ c.notes ++ c.after, ¬ m <:+: l := by
  intro l mem
  have listed : l ∈ c.texts := by
    simp only [Case.texts,List.mem_append] at mem ⊢
    rcases mem with note | after
    · exact .inl (.inr note)
    · exact .inr after
  exact (fit.free l listed).unmarked.2 m hm

end

section
variable {c : Case}

def Case.before (c : Case) : Text := linesText ([titleMarker ++ c.title] ++ c.inside)
def Case.behind (c : Case) : Text := '\n'::linesText (c.after ++ [endMarker])

theorem caseSectioned (c : Case) : c.text = sectioned c.before (linesText c.notes) c.behind := by
  simp [Case.text,Case.body,sectioned,Case.before,Case.behind,opening,linesTextAppend,linesTextCons]

theorem endUnmarked {m : Text} (hm : m ∈ markers) : ¬ m <:+: endMarker := by
  intro inside
  exact absurd (inside.subset (markersOneLine m hm).2) (by decide)

theorem markersSome : ∀ m ∈ markers, m ≠ [] := by decide

section
variable {m : Text}

theorem calledAbsent (fit : c.Fit) (hm : m ∈ markers) (title : m ≠ titleMarker) (own : m ≠ subprogramMarker) :
    ¬ m <:+: linesText ([titleMarker ++ c.title] ++ c.called) := by
  refine absentLines (markersOneLine m hm).1 (markersSome m hm) (fun l mem => ?_)
  rcases List.mem_append.mp mem with first | called
  · rw [List.mem_singleton.mp first]
    exact titleUnmarked fit hm title
  · exact calledUnmarked fit hm own l called

theorem beforeAbsent (fit : c.Fit) (hm : m ∈ markers) (title : m ≠ titleMarker) (own : m ≠ subprogramMarker)
    (name : m ≠ nameMarker) : ¬ m <:+: c.before := by
  refine absentLines (markersOneLine m hm).1 (markersSome m hm) (fun l mem => ?_)
  rcases List.mem_append.mp mem with first | inside
  · rw [List.mem_singleton.mp first]
    exact titleUnmarked fit hm title
  · exact insideUnmarked fit hm own name l inside

theorem notesAbsent (fit : c.Fit) (hm : m ∈ markers) : ¬ m <:+: linesText c.notes :=
  absentLines (markersOneLine m hm).1 (markersSome m hm)
    (fun l mem => notesUnmarked fit hm l (List.mem_append_left _ mem))

theorem behindAbsent (fit : c.Fit) (hm : m ∈ markers) : ¬ m <:+: c.behind := by
  have shape : c.behind = linesText ([] :: (c.after ++ [endMarker])) := by simp [Case.behind,linesTextCons]
  rw [shape]
  refine absentLines (markersOneLine m hm).1 (markersSome m hm) (fun l mem => ?_)
  rcases List.mem_cons.mp mem with rfl | later
  · exact fun inside => markersSome m hm (List.eq_nil_of_infix_nil inside)
  · rcases List.mem_append.mp later with after | last
    · exact notesUnmarked fit hm l (List.mem_append_right _ after)
    · rw [List.mem_singleton.mp last]
      exact endUnmarked hm

end

theorem caseOpens (fit : c.Fit) : OnlyAt opening c.before (linesText c.notes ++ (endNotesMarker ++ c.behind)) := by
  have hm : notesMarker ∈ markers := by decide
  have marker : notesMarker <:+: opening := (List.prefix_append notesMarker ['\n']).isInfix
  have left : ¬ opening <:+: c.before := fun inside =>
    beforeAbsent fit hm (by decide) (by decide) (by decide) (marker.trans inside)
  have last : ¬ opening <:+: endNotesMarker ++ c.behind := by
    refine fun inside => absentAppend ?_ (behindAbsent fit hm) (marker.trans inside)
    exact noStartApart (markersApart _ hm _ (by decide) (by decide)) _
  refine onlyOnce (by decide) left ?_
  exact wholeOpened (linesWhole c.notes) (fun inside => notesAbsent fit hm (marker.trans inside)) last

theorem caseCloses (fit : c.Fit) : OnlyAt endNotesMarker (c.before ++ (opening ++ linesText c.notes)) c.behind := by
  have hm : endNotesMarker ∈ markers := by decide
  have front : ¬ endNotesMarker <:+: c.before := beforeAbsent fit hm (by decide) (by decide) (by decide)
  have later : ¬ endNotesMarker <:+: opening ++ linesText c.notes :=
    wholeClosed (.inr ⟨notesMarker,rfl⟩) (by decide) (notesAbsent fit hm)
  refine onlyOnce (by decide) ?_ (behindAbsent fit hm)
  exact wholeClosed (linesWhole _) front later

theorem caseNamed (fit : c.Fit) : FirstRest nameMarker c.text c.name := by
  have absent := @calledAbsent _ nameMarker fit (by decide) (by decide) (by decide)
  have line := (fit.free c.name (by simp [Case.texts])).unmarked.1
  have shape : c.text = linesText ([titleMarker ++ c.title] ++ c.called) ++ (nameMarker ++ (c.name ++
      '\n'::linesText (c.late ++ [notesMarker] ++ c.notes ++ [endNotesMarker] ++ c.after ++ [endMarker]))) := by
    simp [Case.text,Case.body,Case.inside,linesTextAppend,linesTextCons]
  rw [shape]
  exact firstRestOf (by decide) absent line (fun _ mem => (Option.some.inj mem).symm)

theorem caseCalled (fit : c.Fit) : FirstRest subprogramMarker c.text c.subprogram := by
  have hm : subprogramMarker ∈ markers := by decide
  have absent : ¬ subprogramMarker <:+: linesText ([titleMarker ++ c.title] ++ c.early) := by
    refine absentLines (by decide) (by decide) (fun l mem => ?_)
    rcases List.mem_append.mp mem with first | early
    · rw [List.mem_singleton.mp first]
      exact titleUnmarked fit hm (by decide)
    · exact (fit.free l (by simp [Case.texts,early])).unmarked.2 _ hm
  have line := (fit.free c.subprogram (by simp [Case.texts])).unmarked.1
  have shape : c.text = linesText ([titleMarker ++ c.title] ++ c.early) ++ (subprogramMarker ++ (c.subprogram ++
      '\n'::linesText (c.middle ++ [nameMarker ++ c.name] ++ c.late ++ [notesMarker] ++ c.notes ++
        [endNotesMarker] ++ c.after ++ [endMarker]))) := by
    simp [Case.text,Case.body,Case.inside,Case.called,linesTextAppend,linesTextCons]
  rw [shape]
  exact firstRestOf (by decide) absent line (fun _ mem => (Option.some.inj mem).symm)

theorem caseBlocked (fit : c.Fit) : ∃ b : NotesBlock, b.before = c.before ∧ b.notes = linesText c.notes ∧
    b.after = c.behind ∧ b.newName = c.newName := by
  have named := caseNamed fit
  have called := caseCalled fit
  rw [caseSectioned] at named called
  exact ⟨⟨c.before,linesText c.notes,c.behind,c.name,c.number,c.subprogram,caseOpens fit,caseCloses fit,named,
    fit.numbered,called,fun mem => (fit.function.plain _ mem).2.1 rfl,fit.function.start⟩,rfl,rfl,rfl,rfl⟩

theorem titleRenamed {N t : Text} (new : Unmarked N) (old : Unmarked t) :
    renames N (titleMarker ++ t) = titleMarker ++ N := by
  have hm : nameMarker ∈ markers := by decide
  have titled := @labelledEnd titleMarker N titleSome [] t (noStartNil _ _) old.1
  rw [List.nil_append,List.nil_append] at titled
  rw [renames,titled,unmarkedKept (markedLine hm (by decide) (by decide) (new.2 _ hm))]

theorem nameRenamed {N t : Text} (old : Unmarked t) : renames N (nameMarker ++ t) = nameMarker ++ N := by
  have hm : titleMarker ∈ markers := by decide
  have named := @labelledEnd nameMarker N nameSome [] t (noStartNil _ _) old.1
  rw [List.nil_append,List.nil_append] at named
  rw [renames,unmarkedKept (markedLine hm (by decide) (by decide) (old.2 _ hm)),named]

theorem freeRenamed {l : Text} (free : Free l) (N : Text) : renames N l = l :=
  renamesUnlabelled ⟨free.unmarked.2 _ (by decide),free.unmarked.2 _ (by decide)⟩

theorem freeAllRenamed {ls : List Text} (free : ∀ l ∈ ls, Free l) (N : Text) : ls.map (renames N) = ls :=
  (List.map_congr_left (fun l mem => freeRenamed (free l mem) N)).trans (List.map_id' ls)

theorem beforeNamed (fit : c.Fit) {N : Text} (new : Unmarked N) :
    renames N c.before = ({ c with title := N, name := N } : Case).before := by
  have free := fit.free
  have early := @freeAllRenamed c.early (fun l mem => free l (by simp [Case.texts,mem])) N
  have middle := @freeAllRenamed c.middle (fun l mem => free l (by simp [Case.texts,mem])) N
  have late := @freeAllRenamed c.late (fun l mem => free l (by simp [Case.texts,mem])) N
  have title := titleRenamed new (free c.title (by simp [Case.texts])).unmarked
  have name := @nameRenamed N _ (free c.name (by simp [Case.texts])).unmarked
  have subprogram : renames N (subprogramMarker ++ c.subprogram) = subprogramMarker ++ c.subprogram := by
    have unmarked := (free c.subprogram (by simp [Case.texts])).unmarked.2
    exact renamesUnlabelled ⟨markedLine (by decide) (by decide) (by decide) (unmarked _ (by decide)),
      markedLine (by decide) (by decide) (by decide) (unmarked _ (by decide))⟩
  rw [Case.before,linesRenamed]
  simp only [Case.inside,Case.called,List.map_append,List.map_cons,List.map_nil,early,middle,late,title,name,
    subprogram]
  rfl

theorem behindNamed (fit : c.Fit) (N : Text) : renames N c.behind = c.behind := by
  have marker : titleMarker ∈ markers ∧ nameMarker ∈ markers := by decide
  exact renamesUnlabelled ⟨behindAbsent fit marker.1,behindAbsent fit marker.2⟩

theorem newNameFree (fit : c.Fit) : Free c.newName := by
  have triple := fit.numbered.1
  have plain := newNamePlain fit.function triple.2
  have free := fit.free c.subprogram (by simp [Case.texts])
  refine ⟨newNameUnmarked fit.function triple.2,fun inside => ?_,fun last => ?_,fun mem => ?_⟩
  · exact (plain ':' (inside.subset (by decide))).1 rfl
  · obtain ⟨x,same⟩ := last
    obtain ⟨a,b,d,digits⟩ := List.length_eq_three.mp triple.1
    have whole : endMarker = endMarker.dropLast ++ ['D'] := by decide
    rw [Case.newName,newName,digits,whole,← List.append_assoc] at same
    have own : [a,b,d] = [a,b] ++ [d] := rfl
    rw [own,← List.append_assoc] at same
    have ends : 'D' = d := List.singleton_inj.mp (List.append_inj' same rfl).2
    have digit := triple.2 d (by rw [digits]; simp)
    rw [← ends] at digit
    revert digit
    decide
  · simp only [Case.newName,newName,List.mem_append,List.mem_singleton] at mem
    rcases mem with (own | dot) | digit
    · exact free.clean own
    · cases dot
    · have off := triple.2 _ digit
      revert off
      decide

theorem casePass (fit : c.Fit) : handleTestCase c.text = .ok c.pass.text := by
  obtain ⟨b,before,notes,behind,name⟩ := caseBlocked fit
  obtain ⟨pieces,parsed,expanded⟩ := carriesTemplate fit.carries
  have marker : titleMarker ∈ markers ∧ nameMarker ∈ markers := by decide
  have opened : Unlabelled (lastLine b.before) := by
    have whole : Whole c.before := linesWhole _
    rw [before,lineEnded whole]
    exact ⟨by decide,by decide⟩
  have free : Unlabelled b.notes := by
    rw [notes]
    exact ⟨notesAbsent fit marker.1,notesAbsent fit marker.2⟩
  have rewritten : handleTestNote b.notes = .ok c.note := by
    rw [notes]
    exact noteRead c
  have run := undisturbedRun (unlabelledStill opened free) rewritten parsed
  have shape : b.text = c.text := by rw [NotesBlock.text,before,notes,behind,caseSectioned]
  rw [expanded,shape,name,before,behind,beforeNamed fit (newNameFree fit).unmarked,behindNamed fit] at run
  rw [run,caseSectioned,sectioned,Case.pass,Case.written,fieldsText]
  simp only [List.append_assoc,List.cons_append,List.nil_append]
  rfl

end

def outside : List Text := caseMarker::endMarker::markers

theorem outsideShape : ∀ u ∈ outside, u ≠ [] ∧ '\n' ∉ u ∧ 'T' ∈ u ∧ Apart u head ∧ Apart head u := by decide

theorem standardFree : ∀ u ∈ outside, ¬ u <:+: standardNote := by decide +kernel

theorem standardForeign : ¬ generated <:+: standardNote := by decide +kernel

theorem noteFree {origin note u : Text} (rewritten : handleTestNote origin = .ok note) (mem : u ∈ outside)
    (absent : ¬ u <:+: origin) : ¬ u <:+: note := by
  obtain ⟨some,line,letter,left,right⟩ := outsideShape u mem
  rcases noteForms rewritten with ⟨_,rfl⟩ | ⟨_,t,replaced,forms⟩
  · exact standardFree u mem
  · exact noteAbsent some line letter left right (.inr absent) replaced forms

theorem noteOther {origin note : Text} (rewritten : handleTestNote origin = .ok note) :
    ¬ generated <:+: note := by
  rcases noteForms rewritten with ⟨_,rfl⟩ | ⟨own,_⟩
  · exact standardForeign
  · exact noteForeign rewritten own

theorem noteClean {origin note : Text} (rewritten : handleTestNote origin = .ok note) (clean : '\r' ∉ origin) :
    '\r' ∉ note := by
  have standard : '\r' ∉ standardNote := by decide +kernel
  have headClean : '\r' ∉ head := by decide
  have tailClean : '\r' ∉ '\n'::tail := by decide +kernel
  rcases noteForms rewritten with ⟨_,rfl⟩ | ⟨_,t,replaced,forms⟩
  · exact standard
  · have clear : '\r' ∉ t := by
      intro mem
      rcases replacedMember replaced _ mem with old | new
      · exact clean old
      · exact headClean new
    rcases forms with rfl | ⟨x,front,rfl⟩
    · exact clear
    · intro mem
      rcases List.mem_append.mp mem with old | last
      · exact clear (front.subset old)
      · exact tailClean last

theorem tripleSide {s u x t y : Text} (split : s ++ '.'::u = x ++ (t ++ y)) (triple : Triple t) :
    (∃ z, s = x ++ (t ++ z)) ∨ ∃ w, x = s ++ '.'::w ∧ u = w ++ (t ++ y) := by
  have dot : '.' ∉ t := by
    intro mem
    have off := triple.2 _ mem
    revert off
    decide
  rw [← List.append_assoc] at split
  rcases List.append_eq_append_iff.mp split with ⟨z,whole,rest⟩ | ⟨z,whole,_⟩
  · cases z with
    | nil => exact .inl ⟨[],by simpa using whole.symm⟩
    | cons e z =>
      obtain ⟨rfl,behind⟩ := List.cons.inj rest
      rcases List.append_eq_append_iff.mp whole with ⟨v,_,later⟩ | ⟨v,front,later⟩
      · exact absurd (by rw [later]; simp) dot
      · cases v with
        | nil => exact absurd (by rw [← List.nil_append t,← later]; simp) dot
        | cons d w =>
          obtain ⟨rfl,inner⟩ := List.cons.inj later
          exact .inr ⟨w,front,by rw [behind,inner]; simp⟩
  · exact .inl ⟨z,by rw [whole,List.append_assoc]⟩

/- The first three digits of a new name: the function's own, or else the number. -/
theorem firstInName {s t u : Text} (number : Triple u) : FirstTriple (newName s u) t ↔
    FirstTriple s t ∨ (∀ k, ¬ FirstTriple s k) ∧ t = u := by
  have named : newName s u = s ++ '.'::u := by simp [newName]
  rw [named]
  constructor
  · intro first
    obtain ⟨triple,x,y,split,least⟩ := first
    rcases tripleSide split triple with ⟨z,own⟩ | ⟨w,behind,rest⟩
    · refine .inl ⟨triple,x,z,own,fun x' t' y' other triple' => ?_⟩
      exact least x' t' (y' ++ '.'::u) (by rw [other]; simp) triple'
    · have lengths := congrArg List.length rest
      have three := number.1
      have three' := triple.1
      simp only [List.length_append] at lengths
      have front : w = [] := List.eq_nil_of_length_eq_zero (by omega)
      have tail : y = [] := List.eq_nil_of_length_eq_zero (by omega)
      refine .inr ⟨fun k own => ?_,by rw [rest,front,tail]; simp⟩
      obtain ⟨triple',x',y',own,_⟩ := own
      have short := least x' k (y' ++ '.'::u) (by rw [own]; simp) triple'
      have inner := congrArg List.length own
      have outer := congrArg List.length behind
      simp only [List.length_append,List.length_cons] at inner outer
      omega
  · intro either
    rcases either with own | ⟨none,rfl⟩
    · obtain ⟨triple,x,y,split,least⟩ := own
      refine ⟨triple,x,y ++ '.'::u,by rw [split]; simp,fun x' t' y' other triple' => ?_⟩
      rcases tripleSide other triple' with ⟨z,inside⟩ | ⟨w,behind,_⟩
      · exact least x' t' z inside triple'
      · rw [behind,split]
        simp only [List.length_append]
        omega
    · refine ⟨number,s ++ ['.'],[],by simp,fun x' t' y' other triple' => ?_⟩
      rcases tripleSide other triple' with ⟨z,inside⟩ | ⟨w,behind,_⟩
      · obtain ⟨_,m,_,first⟩ := tripleFound ⟨x',t',z,inside,triple'⟩
        exact absurd first (none _)
      · rw [behind]
        simp

theorem firstStable {s t u : Text} (number : Triple u) (first : FirstTriple (newName s u) t) :
    FirstTriple (newName s t) t := by
  rcases (firstInName number).mp first with own | ⟨none,_⟩
  · exact (firstInName first.1).mpr (.inl own)
  · exact (firstInName first.1).mpr (.inr ⟨none,rfl⟩)

section
variable {c : Case}

theorem passNotesOther (c : Case) : ¬ generated <:+: linesText c.pass.notes := by
  rw [Case.pass,Case.written,fieldsText]
  intro inside
  rcases lineInfix (s := []) (by decide) inside with own | none
  · exact noteOther (noteRead c) own
  · exact absurd none (by decide)

theorem passNote (c : Case) : c.pass.note = standardNote := by
  have own : handleTestNote (linesText c.pass.notes) = .ok standardNote := by
    rw [handleTestNote,if_neg (passNotesOther c),standardNote]
  exact Except.ok.inj ((noteRead c.pass).symm.trans own)

theorem notesOutside (fit : c.Fit) : ∀ u ∈ outside, ¬ u <:+: linesText c.notes := by
  intro u mem
  obtain ⟨some,line,_⟩ := outsideShape u mem
  refine absentLines line some (fun l listed => ?_)
  have free := fit.free l (by simp [Case.texts,listed])
  simp only [outside,List.mem_cons] at mem
  rcases mem with rfl | rfl | marker
  · exact free.once
  · exact fit.notesUnended l listed
  · exact free.unmarked.2 u (by simpa using marker)

theorem notesClean (fit : c.Fit) : '\r' ∉ linesText c.notes := by
  intro mem
  obtain ⟨l,listed,inside⟩ := List.mem_flatMap.mp mem
  rcases List.mem_append.mp inside with own | last
  · exact (fit.free l (by simp [Case.texts,listed])).clean own
  · exact absurd last (by decide)

theorem passNotesFree (fit : c.Fit) : ∀ l ∈ c.pass.notes, Free l ∧ ¬ endMarker <:+: l := by
  intro l mem
  have inside : l <:+: c.note := fieldInside mem
  have absent : ∀ u ∈ outside, ¬ u <:+: l := fun u listed own =>
    noteFree (noteRead c) listed (notesOutside fit u listed) (own.trans inside)
  have ended : ¬ endMarker <:+: l := absent _ (by decide)
  refine ⟨⟨⟨(fieldsFree mem).1,fun m marker => absent m (by simp [outside,marker])⟩,absent _ (by decide),
    fun last => ended last.isInfix,fun own => ?_⟩,ended⟩
  exact noteClean (noteRead c) (notesClean fit) (inside.subset own)

theorem passNumbered (fit : c.Fit) : FirstTriple c.pass.name c.pass.number := by
  have occurs : c.newName = (c.subprogram ++ ['.']) ++ (c.number ++ []) := by
    rw [List.append_nil]
    rfl
  obtain ⟨_,m,_,own⟩ := tripleFound ⟨_,_,_,occurs,fit.numbered.1⟩
  have named : FirstTriple c.pass.name m.taken := own
  rwa [numberTriple named]

theorem passFit (fit : c.Fit) : c.pass.Fit := by
  refine ⟨fun l mem => ?_,fun l mem => (passNotesFree fit l mem).2,fit.function,passNumbered fit,?_⟩
  · have named := newNameFree fit
    have free := fit.free
    simp only [Case.texts,Case.pass,Case.written,List.mem_append,List.mem_cons,List.not_mem_nil,or_false] at mem
    rcases mem with ((((own | early) | middle) | late) | note) | after
    · rcases own with rfl | rfl | rfl
      · exact named
      · exact free _ (by simp [Case.texts])
      · exact named
    · exact free l (by simp [Case.texts,early])
    · exact free l (by simp [Case.texts,middle])
    · exact free l (by simp [Case.texts,late])
    · exact (passNotesFree fit l note).1
    · exact free l (by simp [Case.texts,after])
  · rw [passNote]
    exact standardCarries

theorem passNumber (fit : c.Fit) : c.pass.pass.number = c.pass.number :=
  numberTriple (firstStable fit.numbered.1 (passNumbered fit))

theorem passSame (c : Case) : c.pass.pass = c.pass ↔ c.pass.number = c.number ∧ c.pass.note = c.note := by
  constructor
  · intro same
    have name : newName c.subprogram c.pass.number = newName c.subprogram c.number := congrArg Case.name same
    have notes : fields '\n' c.pass.note = fields '\n' c.note := congrArg Case.notes same
    have joined := congrArg (['\n'].intercalate) notes
    rw [fieldsJoin,fieldsJoin] at joined
    exact ⟨newNameInjective _ name,joined⟩
  · intro both
    obtain ⟨number,note⟩ := both
    change c.written (newName c.subprogram c.pass.number) c.pass.note = c.written (newName c.subprogram c.number) c.note
    rw [number,note]

theorem passTwice (fit : c.Fit) : c.pass.pass.pass = c.pass.pass :=
  (passSame c.pass).mpr ⟨passNumber fit,(passNote c.pass).trans (passNote c).symm⟩

theorem numberKept (fit : c.Fit) : c.pass.number = c.number ↔ ∀ t, FirstTriple c.subprogram t → t = c.number := by
  have first : FirstTriple (newName c.subprogram c.number) c.pass.number := passNumbered fit
  rcases (firstInName fit.numbered.1).mp first with own | ⟨none,same⟩
  · exact ⟨fun same t other => (firstTripleUnique other own).trans same,fun all => all _ own⟩
  · exact ⟨fun _ t other => absurd other (none t),fun _ => same⟩

end

structure Inner (l : Text) : Prop where
  line : '\n' ∉ l
  once : ¬ caseMarker <:+: l
  unended : ¬ endMarker <:+ l
  clean : '\r' ∉ l

theorem freeInner {l : Text} (free : Free l) : Inner l := ⟨free.unmarked.1,free.once,free.unended,free.clean⟩

theorem markedInner {a l : Text} (mem : a ∈ [subprogramMarker,nameMarker]) (free : Free l) : Inner (a ++ l) := by
  have shape : '\n' ∉ a ∧ '\r' ∉ a ∧ Apart caseMarker a ∧ a = a.dropLast ++ [':'] := by
    revert a
    decide
  obtain ⟨line,clean,apart,colon⟩ := shape
  refine ⟨?_,absentAppend (noStartApart apart l) free.once,fun last => ?_,?_⟩
  · simp [line,free.unmarked.1]
  · rw [colon,List.append_assoc,List.singleton_append] at last
    have behind : ':' :: l <:+ a.dropLast ++ ':' :: l := List.suffix_append _ _
    have foreign : ':' ∉ endMarker := by decide
    rcases List.suffix_or_suffix_of_suffix last behind with short | long
    · rcases List.suffix_cons_iff.mp short with same | own
      · exact foreign (by rw [same]; simp)
      · exact free.unended own
    · exact foreign (long.subset List.mem_cons_self)
  · simp [clean,free.clean]

theorem plainInner : Inner notesMarker ∧ Inner endNotesMarker :=
  ⟨⟨by decide,by decide,by decide,by decide⟩,⟨by decide,by decide,by decide,by decide⟩⟩

theorem linesUnended {ls : List Text} (inner : ∀ l ∈ ls, Inner l) : ¬ endMarker ++ ['\n'] <:+: linesText ls := by
  induction ls with
  | nil => decide
  | cons l ls ih =>
    have own := inner l List.mem_cons_self
    intro inside
    rw [linesTextCons] at inside
    rcases lineSuffix (by decide) inside with here | later
    · exact own.unended (lineEnds own.line here)
    · exact ih (fun k mem => inner k (List.mem_cons_of_mem _ mem)) later

section
variable {c : Case}

theorem bodyInner (fit : c.Fit) : ∀ l ∈ c.body, Inner l := by
  have free := fit.free
  intro l mem
  simp only [Case.body,Case.inside,Case.called,List.mem_append,List.mem_singleton] at mem
  rcases mem with (((((((early | rfl) | middle) | rfl) | late) | rfl) | note) | rfl) | after
  · exact freeInner (free l (by simp [Case.texts,early]))
  · exact markedInner (by simp) (free c.subprogram (by simp [Case.texts]))
  · exact freeInner (free l (by simp [Case.texts,middle]))
  · exact markedInner (by simp) (free c.name (by simp [Case.texts]))
  · exact freeInner (free l (by simp [Case.texts,late]))
  · exact plainInner.1
  · exact freeInner (free l (by simp [Case.texts,note]))
  · exact plainInner.2
  · exact freeInner (free l (by simp [Case.texts,after]))

theorem titledInner (fit : c.Fit) : ∀ l ∈ (' '::c.title)::c.body, Inner l := by
  intro l mem
  rcases List.mem_cons.mp mem with rfl | body
  · have free := fit.free c.title (by simp [Case.texts])
    refine ⟨by simp [free.unmarked.1],fun inside => ?_,fun last => ?_,by simp [free.clean]⟩
    · rcases List.infix_cons_iff.mp inside with front | own
      · exact absurd (List.cons_prefix_cons.mp front).1 (by decide)
      · exact free.once own
    · rcases List.suffix_cons_iff.mp last with same | own
      · exact absurd (List.cons.inj same).1 (by decide)
      · exact free.unended own
  · exact bodyInner fit l body

theorem caseLines (c : Case) :
    c.text = caseMarker ++ (linesText ((' '::c.title)::c.body) ++ (endMarker ++ ['\n'])) := by
  have marker : titleMarker = caseMarker ++ [' '] := by decide
  rw [Case.text,marker]
  simp [linesTextAppend,linesTextCons]
  rfl

theorem caseFramed (fit : c.Fit) : ∃ b : CaseBlock, b.text ++ ['\n'] = c.text := by
  have inner := titledInner fit
  have joined : joinedLines ((' '::c.title)::c.body) ++ ['\n'] = linesText ((' '::c.title)::c.body) :=
    joinedText (by simp)
  have once : ¬ caseMarker <:+: linesText ((' '::c.title)::c.body) :=
    absentLines (by decide) (by decide) (fun l mem => (inner l mem).once)
  have unended := linesUnended inner
  rw [← joined] at once unended
  refine ⟨⟨_,fun inside => once (inside.trans (List.prefix_append _ _).isInfix),unended⟩,?_⟩
  rw [caseLines,← joined,CaseBlock.text]
  simp only [List.append_assoc,List.cons_append,List.nil_append]

theorem caseClean (fit : c.Fit) : '\r' ∉ c.text := by
  have title : '\r' ∉ caseMarker := by decide
  have ends : '\r' ∉ endMarker := by decide
  have body : '\r' ∉ linesText ((' '::c.title)::c.body) := by
    intro mem
    obtain ⟨l,listed,inside⟩ := List.mem_flatMap.mp mem
    rcases List.mem_append.mp inside with own | last
    · exact (titledInner fit l listed).clean own
    · exact absurd last (by decide)
  rw [caseLines]
  simp [title,body,ends]

theorem writtenText {name name' note note' : Text} (line : '\n' ∉ name) (line' : '\n' ∉ name')
    (same : (c.written name note).text = (c.written name' note').text) : name = name' ∧ note = note' := by
  have shape (name note : Text) : (c.written name note).text = titleMarker ++ (name ++
      '\n'::(linesText c.called ++ (nameMarker ++ (name ++ '\n'::(linesText (c.late ++ [notesMarker]) ++ (note ++
        '\n'::linesText ([endNotesMarker] ++ c.after ++ [endMarker]))))))) := by
    have notes := fieldsText note
    simp only [Case.text,Case.body,Case.inside,Case.called,Case.written,linesTextAppend,notes]
    simp [linesTextCons]
    rfl
  rw [shape,shape] at same
  have whole := List.append_cancel_left same
  have named := sameLine line line' whole
  rw [named] at whole
  have rest := List.append_cancel_left whole
  have called := List.append_cancel_left (List.cons.inj rest).2
  have later := List.append_cancel_left (List.append_cancel_left called)
  have notes := List.append_cancel_left (List.cons.inj later).2
  exact ⟨named,List.append_cancel_right notes⟩

end

section
variable {cases : List (Case × Text)} {s : TestFile}

theorem casesListed (fit : ∀ c ∈ cases, c.1.Fit) (gaps : ∀ c ∈ cases, GapFree c.2) {gap : Text} (free : GapFree gap) :
    findall testCases 0 (gap ++ casesWith cases) = cases.map (fun c => c.1.text) := by
  induction cases generalizing gap with
  | nil =>
    rw [casesWith,List.flatMap_nil,List.append_nil]
    exact noCaseFound free.1
  | cons c cases ih =>
    obtain ⟨b,framed⟩ := caseFramed (fit c List.mem_cons_self)
    have rest := ih (fun k mem => fit k (List.mem_cons_of_mem _ mem))
      (fun k mem => gaps k (List.mem_cons_of_mem _ mem)) (gaps c List.mem_cons_self)
    have shape : casesWith (c::cases) = b.text ++ '\n'::(c.2 ++ casesWith cases) := by
      simp [casesWith,← framed]
    rw [shape,caseFound b free.1,rest,framed,List.map_cons]

theorem fileClean (fit : s.Fit) : '\r' ∉ s.text := by
  intro mem
  rcases List.mem_append.mp mem with front | inside
  · exact fit.head.2 front
  · obtain ⟨c,listed,own⟩ := List.mem_flatMap.mp inside
    rcases List.mem_append.mp own with text | gap
    · exact caseClean (fit.cases c listed) text
    · exact (fit.gaps c listed).2 gap

theorem fileHead (fit : s.Fit) : getHead s.text = .ok s.head := by
  obtain ⟨c,cases,split⟩ := List.exists_cons_of_ne_nil fit.some
  have start : casesWith s.cases = caseMarker ++ ((linesText ((' '::c.1.title)::c.1.body) ++ (endMarker ++ ['\n'])) ++
      (c.2 ++ casesWith cases)) := by
    rw [split,casesWith,List.flatMap_cons,caseLines]
    simp [casesWith]
  rw [TestFile.text,start]
  exact headFound fit.head.1

theorem filePassFit (fit : s.Fit) : s.pass.Fit := by
  have gap : GapFree ['\n'] := ⟨by decide,by decide⟩
  refine ⟨by simp [TestFile.pass,fit.some],fit.head,fun c mem => ?_,fun c mem => ?_⟩
  · obtain ⟨k,_,rfl⟩ := List.mem_map.mp mem
    exact gap
  · obtain ⟨k,listed,rfl⟩ := List.mem_map.mp mem
    exact passFit (fit.cases k listed)

theorem filePass (fit : s.Fit) {script : Text} (read : universalNewlines script = s.text) :
    main script = .ok s.pass.text := by
  have found := casesListed fit.cases fit.gaps fit.head
  have handled : (s.cases.map (fun c => c.1.text)).map handleTestCase =
      (s.cases.map (fun c => c.1.pass.text)).map .ok := by
    rw [List.map_map,List.map_map]
    exact List.map_congr_left (fun c mem => casePass (fit.cases c mem))
  have written := writeCasesOk handled
  have front := fileHead fit
  rw [TestFile.text] at front
  rw [main,read,TestFile.text]
  simp only [front,found,written,bind,Except.bind]
  rw [TestFile.text,TestFile.pass,casesWith,List.flatMap_map,List.flatMap_map]

theorem fileTwice (fit : s.Fit) : s.pass.pass.pass = s.pass.pass := by
  have cases : s.pass.pass.pass.cases = s.pass.pass.cases := by
    simp only [TestFile.pass,List.map_map]
    refine List.map_congr_left (fun c mem => ?_)
    exact congrArg (·,['\n']) (passTwice (fit.cases c mem))
  exact congrArg (TestFile.mk s.head) cases

theorem ownRead (fit : s.Fit) : universalNewlines s.text = s.text := noReturnUnchanged (fileClean fit)

theorem passesStay (fit : s.Fit) (n : Nat) : passes n s.pass.pass.text = .ok s.pass.pass.text := by
  have later := filePassFit (filePassFit fit)
  induction n with
  | zero => rfl
  | succ n ih =>
    have once := filePass later (ownRead later)
    rw [fileTwice fit] at once
    rw [passes,once]
    exact ih

end

instance (l : Text) : Decidable (Free l) :=
  decidable_of_iff (Unmarked l ∧ ¬ caseMarker <:+: l ∧ ¬ endMarker <:+ l ∧ '\r' ∉ l)
    ⟨fun h => ⟨h.1,h.2.1,h.2.2.1,h.2.2.2⟩,fun h => ⟨h.unmarked,h.once,h.unended,h.clean⟩⟩

def shaCase : Case where
  title := "generated".toList
  early := ["TEST.UNIT:hal".toList]
  subprogram := "sha256_init".toList
  middle := ["TEST.NEW".toList]
  name := "BASIS-PATH-001".toList
  late := []
  notes := ["This is an automatically generated test case.".toList,"Test Path 1".toList]
  after := []

def shaLater : Case where
  title := "BASIS-PATH-002".toList
  early := []
  subprogram := "sha256_init".toList
  middle := ["TEST.NEW".toList]
  name := "BASIS-PATH-002".toList
  late := ["TEST.VALUE:hal.state:0".toList]
  notes := ["Test Path 2".toList]
  after := []

def shaFile : TestFile where
  head := "-- Environment\n".toList
  cases := [(shaCase,"--\n".toList),(shaLater,['\n'])]

def shaNote : Text := "Test Case Description:\nTest Path 1\n".toList

theorem shaCaseNote : shaCase.note = shaNote := by
  have own : handleTestNote (linesText shaCase.notes) = .ok shaNote :=
    sampleNote (x := []) (r := "\nTest Path 1\n".toList) (by decide +kernel) (by decide) (by decide +kernel)
      (by decide +kernel) (by decide +kernel)
  exact Except.ok.inj ((noteRead shaCase).symm.trans own)

theorem shaLaterNote : shaLater.note = standardNote := by
  have own : handleTestNote (linesText shaLater.notes) = .ok standardNote := by
    rw [handleTestNote,if_neg (by decide),standardNote]
  exact Except.ok.inj ((noteRead shaLater).symm.trans own)

theorem pathTriple {number : Text} (triple : Triple number) :
    FirstTriple ("BASIS-PATH-".toList ++ number) number := by
  have named := @firstTripleOf "BASIS-PATH-".toList number [] (eachOf (by decide)) triple
  rwa [List.append_nil] at named

theorem shaCaseFit : shaCase.Fit := by
  have triple : FirstTriple shaCase.name "001".toList := pathTriple ⟨by decide,eachOf (by decide)⟩
  have carries : Carries shaCase.note := by
    rw [shaCaseNote]
    exact ⟨by decide +kernel,eachOption (by decide)⟩
  exact ⟨by decide +kernel,by decide +kernel,shaName,numberTriple triple ▸ triple,carries⟩

theorem shaLaterFit : shaLater.Fit := by
  have triple : FirstTriple shaLater.name "002".toList := pathTriple ⟨by decide,eachOf (by decide)⟩
  have carries : Carries shaLater.note := by
    rw [shaLaterNote]
    exact standardCarries
  exact ⟨by decide +kernel,by decide +kernel,shaName,numberTriple triple ▸ triple,carries⟩

theorem shaFileFit : shaFile.Fit := by
  have gaps : ∀ c ∈ shaFile.cases, ¬ caseMarker <:+: c.2 ∧ '\r' ∉ c.2 := by decide
  refine ⟨by decide,⟨by decide,by decide⟩,gaps,fun c mem => ?_⟩
  rcases List.mem_cons.mp mem with rfl | later
  · exact shaCaseFit
  · rw [List.mem_singleton.mp later]
    exact shaLaterFit

end KernelTestTools.TestScript
