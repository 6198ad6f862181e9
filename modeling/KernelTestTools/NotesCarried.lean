import KernelTestTools.NotesSection

/-! Whether the notes are carried over as handle_test_note returns them. The template changes
notes with a digit in front or with an escape that does not stand for itself; the renaming
changes notes with a title or a name in them before they are looked up. -/
namespace KernelTestTools.TestScript
open TextFile Regex

def Between (s t : Text) : Prop := ∃ x y, s = sectioned x t y ∧ ¬ opening <:+: x ∧ ¬ endNotesMarker <:+: t

def Carried (b : NotesBlock) : Prop := ∃ note out, handleTestNote b.notes = .ok note ∧
  handleTestCase b.text = .ok out ∧ Between out (note ++ ['\n'])

structure Undisturbed (b : NotesBlock) : Prop where
  opened : Unlabelled (lastLine b.before)
  ended : Unlabelled (lastLine b.notes)
  closed : ¬ endNotesMarker <:+: b.renamedNotes
  kept : handleTestNote b.renamedNotes = handleTestNote b.notes

def Carriable (b : NotesBlock) : Prop :=
  Undisturbed b ∧ ∃ note, handleTestNote b.notes = .ok note ∧ Carries note

theorem undisturbedRun {b : NotesBlock} {note : Text} {pieces : List (Piece Char)} (still : Undisturbed b)
    (rewritten : handleTestNote b.notes = .ok note) (parsed : template 3 (notesTemplate note) = .ok pieces) :
    handleTestCase b.text = .ok (renames b.newName b.before ++ (expand pieces
      (sectionMatch b.renamedNotes (renames b.newName b.after)) ++ renames b.newName b.after)) := by
  obtain ⟨front,_,behind⟩ := @renamedOpenings b _ (blockNameLine b) (blockNameLast b)
  exact sectionRun (sectionRenamed _ still.opened still.ended) front still.closed behind
    (still.kept.trans rewritten) parsed

theorem carriableCarried {b : NotesBlock} (carriable : Carriable b) : Carried b := by
  obtain ⟨still,note,rewritten,carries⟩ := carriable
  obtain ⟨pieces,parsed,expanded⟩ := carriesTemplate carries
  obtain ⟨front,_,_⟩ := @renamedOpenings b _ (blockNameLine b) (blockNameLast b)
  refine ⟨note,_,rewritten,undisturbedRun still rewritten parsed,renames b.newName b.before,
    renames b.newName b.after,?_,front,closedLine (noteClosed (still.kept.trans rewritten) still.closed)⟩
  rw [expanded,sectioned]
  simp

theorem carriedClean {b : NotesBlock} (still : Undisturbed b) (carried : Carried b) : Carriable b := by
  obtain ⟨note,out,rewritten,run,x,y,shape,first,_⟩ := carried
  obtain ⟨front,old,behind⟩ := @renamedOpenings b _ (blockNameLine b) (blockNameLast b)
  refine ⟨still,note,rewritten,?_⟩
  cases parsed : template 3 (notesTemplate note) with
  | error e =>
    have failed := sectionFails (sectionRenamed _ still.opened still.ended) front still.closed
      (still.kept.trans rewritten) parsed
    rw [failed] at run
    cases run
  | ok pieces =>
    rw [undisturbedRun still rewritten parsed] at run
    have same : renames b.newName b.before ++ (expand pieces
        (sectionMatch b.renamedNotes (renames b.newName b.after)) ++ renames b.newName b.after) =
          x ++ (opening ++ (note ++ '\n'::(endNotesMarker ++ y))) := by
      rw [Except.ok.inj run,shape,sectioned]
      simp
    exact carriesBack (still.kept.trans rewritten) still.closed old parsed front first behind same

theorem carriedUndisturbed {b : NotesBlock} (own : ¬ endNotesMarker <:+: b.newName)
    (kept : handleTestNote b.renamedNotes = handleTestNote b.notes) (carried : Carried b) : Undisturbed b := by
  obtain ⟨note,out,_,run,_⟩ := carried
  have closed := onlyFront (by decide) b.closes
  refine ⟨?_,?_,?_,kept⟩
  · by_contra labelled
    rw [unopened (openingLost (blockNameLine b) (blockNameLast b) labelled)] at run
    cases run
  · by_contra labelled
    rw [unclosed (closingLost (blockNameLine b) own labelled)] at run
    cases run
  · refine renamesClosed (blockNameLine b) own (fun inside => closed (inside.trans ?_))
    exact ((List.suffix_append opening _).trans (List.suffix_append b.before _)).isInfix

/- Carriable notes are carried. The converse holds where the renaming does not change what
becomes of the notes; changed notes may turn into the right ones by accident. -/
theorem carriedExactly (b : NotesBlock) : (Carriable b → Carried b) ∧
    (¬ endNotesMarker <:+: b.newName → handleTestNote b.renamedNotes = handleTestNote b.notes →
      (Carried b ↔ Carriable b)) :=
  ⟨carriableCarried,fun own kept =>
    ⟨fun carried => carriedClean (carriedUndisturbed own kept carried) carried,carriableCarried⟩⟩

theorem unlabelledStill {b : NotesBlock} (opened : Unlabelled (lastLine b.before)) (free : Unlabelled b.notes) :
    Undisturbed b := by
  have same : b.renamedNotes = b.notes := renamesUnlabelled free
  have closed := onlyFront (by decide) b.closes
  obtain ⟨_,a,split,_⟩ := lastLineSplit b.notes
  refine ⟨opened,unlabelledPart ?_ free,?_,by rw [same]⟩
  · nth_rewrite 2 [split]
    exact (List.suffix_append a _).isInfix
  · rw [same]
    exact fun inside => closed (inside.trans ((List.suffix_append opening _).trans (List.suffix_append _ _)).isInfix)

def lineFeedNotes : NotesBlock :=
  sampleNotes "This is an automatically generated test case.\nc = '\\n'\n".toList (by decide +kernel) (by decide +kernel)

def blankNotes : NotesBlock :=
  sampleNotes "This is an automatically generated test case.\nc = '\\ '\n".toList (by decide +kernel) (by decide +kernel)

theorem lineFeedNote : handleTestNote lineFeedNotes.notes = .ok "Test Case Description:\nc = '\\n'\n".toList :=
  sampleNote (x := []) (r := "\nc = '\\n'\n".toList) (by decide +kernel) (by decide) (by decide +kernel)
    (by decide +kernel) (by decide +kernel)

theorem blankNote : handleTestNote blankNotes.notes = .ok "Test Case Description:\nc = '\\ '\n".toList :=
  sampleNote (x := []) (r := "\nc = '\\ '\n".toList) (by decide +kernel) (by decide) (by decide +kernel)
    (by decide +kernel) (by decide +kernel)

theorem lineFeedStill : Undisturbed lineFeedNotes :=
  unlabelledStill ⟨by decide,by decide⟩ ⟨by decide +kernel,by decide +kernel⟩

theorem sampleCarried : Carried blankNotes ∧ (Carried lineFeedNotes ↔ Carriable lineFeedNotes) :=
  ⟨(carriedExactly blankNotes).1 ⟨unlabelledStill ⟨by decide,by decide⟩ ⟨by decide +kernel,by decide +kernel⟩,_,
    blankNote,by decide,eachOption (by decide)⟩,
    (carriedExactly lineFeedNotes).2 (by decide +kernel) lineFeedStill.kept⟩

/- The escape becomes a line break in the middle of the character. -/
theorem lineFeedBreaks : ¬ Carried lineFeedNotes := by
  intro carried
  obtain ⟨_,note,rewritten,carries⟩ := carriedClean lineFeedStill carried
  rw [lineFeedNote] at rewritten
  cases rewritten
  exact absurd carries.escapes (by decide +kernel)

end KernelTestTools.TestScript
