import KernelTestTools.NotesCarried

/-! Which test cases handle_test_case takes, read off their text: it needs a name with a
number, a subprogram and a section of notes, and it puts the new name and the new notes into
templates, so their backslashes and digits have to be escapes that the engine accepts. -/
namespace KernelTestTools.TestScript
open TextFile Regex

def labelled (pieces : List (Piece Char)) (s : Text) : Text :=
  substitute (lineWith nameMarker nameSome) pieces (substitute (lineWith titleMarker titleSome) pieces s)

theorem firstEmpty {ms : List Text} {m : Text} (found : first ms = .ok m) : ms.head? = some m := by
  cases ms with
  | nil => cases found
  | cons k ms =>
    cases found
    rfl

theorem noneBefore {m x y x' y' : Text} (start : NoStart m x (m ++ y)) (split : x ++ (m ++ y) = x' ++ (m ++ y')) :
    x.length ≤ x'.length := by
  by_contra shorter
  rcases List.append_eq_append_iff.mp split with ⟨z,rfl,_⟩ | ⟨z,rfl,rest⟩
  · simp at shorter
  · have nonempty : z ≠ [] := by
      intro empty
      simp [empty] at shorter
    exact start x' z rfl nonempty ⟨y',rest⟩

section
variable {m s : Text} {some : m ≠ []}

theorem restOccurs (inside : m <:+: s) : ∃ v, FirstRest m s v := by
  obtain ⟨x,y,rfl,none⟩ := firstOccurrence inside
  have start := none []
  rw [List.append_nil] at start
  refine ⟨y.takeWhile inLine,fun mem => ?_,x,y.dropWhile inLine,?_,?_,fun _ _ split => noneBefore start split⟩
  · have kept := List.mem_takeWhile_imp mem
    simp [inLine] at kept
  · rw [List.takeWhile_append_dropWhile]
  · intro c mem
    have stops := List.head?_dropWhile_not inLine y
    rw [Option.mem_def.mp mem] at stops
    simpa [inLine] using stops

theorem restExactly {v : Text} : first (findall (valueAfter m some) 1 s) = .ok v ↔ FirstRest m s v := by
  refine ⟨fun found => ?_,restFound⟩
  by_cases inside : m <:+: s
  · obtain ⟨w,rest⟩ := restOccurs inside
    rw [restFound rest] at found
    cases found
    exact rest
  · have none : search (valueAfter m some).re s = none := searchLiteralNone (literalRe m) inside
    have missing := firstEmpty found
    rw [findallHead,none] at missing
    cases missing

end

theorem numberExactly {name number : Text} :
    first (findall threeDigits 0 name) = .ok number ↔ FirstTriple name number := by
  refine ⟨fun found => ?_,numberFound⟩
  have taken := firstEmpty found
  rw [findallHead] at taken
  obtain ⟨k,here,same⟩ := Option.map_eq_some_iff.mp taken
  obtain ⟨t,split,own⟩ := searchMatch here
  have three : (t.take 3).length = 3 ∧ (t.take 3).all isDigit = true := by
    by_contra none
    rw [matchHere,threeDigits,tries,if_neg none] at own
    cases own
  have triple : FirstTriple name k.2.taken := by
    obtain ⟨before,m,found',triple⟩ := @tripleFound name
      ⟨k.1,t.take 3,t.drop 3,by rw [List.take_append_drop,split],three.1,List.all_eq_true.mp three.2⟩
    rw [here] at found'
    cases found'
    exact triple
  have read := numberFound triple
  rw [found] at read
  cases read
  exact triple

theorem betweenOccurs {s a b : Text} (split : s = a ++ (opening ++ b)) (closed : endNotesMarker <:+: b) :
    ∃ n, Between s n := by
  have inside : opening <:+: s := ⟨a,b,by rw [split,List.append_assoc]⟩
  obtain ⟨x,r,rfl,none⟩ := firstOccurrence inside
  have start := none []
  rw [List.append_nil] at start
  have later : b <:+ r := by
    have shorter := noneBefore start split
    have lengths := congrArg List.length split
    simp only [List.length_append] at lengths
    have own : r <:+ x ++ (opening ++ r) := (List.suffix_append opening r).trans (List.suffix_append x _)
    refine List.suffix_of_suffix_length_le ?_ own (by omega)
    rw [split]
    exact (List.suffix_append opening b).trans (List.suffix_append a _)
  obtain ⟨n,y,rfl,next⟩ := firstOccurrence (closed.trans later.isInfix)
  exact ⟨n,x,y,rfl,absentOfNoStart (by decide) start,absentOfNoStart (by decide) (next [])⟩

theorem notesExactly {s n : Text} : first (findall notes 1 s) = .ok n ↔ Between s n := by
  constructor
  · intro found
    have taken := firstEmpty found
    rw [findallHead] at taken
    obtain ⟨k,here,_⟩ := Option.map_eq_some_iff.mp taken
    obtain ⟨t,split,own⟩ := searchMatch here
    obtain ⟨i,j,opened,next,_⟩ := matchSeq own
    obtain ⟨l,e,spanned,ended,_⟩ := matchSeq next
    have between : ∃ n', Between s n' := by
      refine betweenOccurs (a := k.1) (b := i.rest) ?_ ?_
      · rw [split,triesSplit opened,(literalOnly (literalRe opening) opened).2]
      · rw [matchHere] at ended
        have closing := List.mem_of_mem_head? ended
        rw [triesSplit spanned,triesSplit closing,(literalOnly (literalRe endNotesMarker) closing).2]
        exact ⟨l.taken,e.rest,List.append_assoc ..⟩
    obtain ⟨n',x,y,rfl,opens,closes⟩ := between
    have read := notesTaken (y := y) opens closes
    rw [← sectioned,found] at read
    cases read
    exact ⟨x,y,rfl,opens,closes⟩
  · intro between
    obtain ⟨x,y,rfl,opens,closes⟩ := between
    exact notesTaken opens closes

/- The notes of a block fit exactly when they were not generated, or every backslash and digit
of the rewritten ones is an escape that the engine accepts. -/
theorem notesFitExactly {b : Block} : NotesFit b ↔ ∃ n ∈ b.notes, generated <:+: linesText n.1 →
    ∀ note, handleTestNote (linesText n.1) = .ok note → Legal 3 (notesTemplate note) := by
  constructor
  · intro fit
    obtain ⟨n,mem,note,pieces,rewritten,parsed⟩ := fit
    refine ⟨n,mem,fun _ note' same => ?_⟩
    rw [rewritten] at same
    cases same
    exact templateLegal.mp ⟨pieces,parsed⟩
  · intro fit
    obtain ⟨⟨ls,after⟩,mem,legal⟩ := fit
    by_cases own : generated <:+: linesText ls
    · obtain ⟨note,rewritten⟩ := handleTestNoteOk (linesText ls)
      obtain ⟨pieces,parsed⟩ := templateLegal.mpr (legal own note rewritten)
      exact ⟨(ls,after),mem,note,pieces,rewritten,parsed⟩
    · exact ownNotesFit mem own

theorem substitutedExactly {r : Pattern Char} {repl s : Text} {out : Text} :
    substituted r repl s = .ok out ↔
      ∃ pieces, template (groupCount r.re) repl = .ok pieces ∧ out = substitute r pieces s := by
  cases parsed : template (groupCount r.re) repl with
  | error e =>
    rw [substitutedBad parsed]
    simp
  | ok pieces =>
    rw [substitutedOk parsed]
    simp [eq_comm]

theorem okBind {x : Except Failure Text} {f : Text → Except Failure Text} {t : Text}
    (run : (x >>= f) = .ok t) : ∃ a, x = .ok a ∧ f a = .ok t := by
  cases x with
  | error e => cases run
  | ok a => exact ⟨a,rfl,run⟩

theorem handledExactly (s : Text) : (∃ out, handleTestCase s = .ok out) ↔
    ∃ name number subprogram pieces notes note, FirstRest nameMarker s name ∧ FirstTriple name number ∧
      FirstRest subprogramMarker s subprogram ∧
      template 2 ('\\' :: '1' :: newName subprogram number) = .ok pieces ∧
      Between (labelled pieces s) notes ∧ handleTestNote notes = .ok note ∧ Legal 3 (notesTemplate note) := by
  constructor
  · intro handled
    obtain ⟨out,run⟩ := handled
    rw [handleTestCase] at run
    obtain ⟨name,named,run⟩ := okBind run
    obtain ⟨number,numbered,run⟩ := okBind run
    obtain ⟨subprogram,called,run⟩ := okBind run
    obtain ⟨titled,retitled,run⟩ := okBind run
    obtain ⟨result,renamed,run⟩ := okBind run
    obtain ⟨notes,taken,run⟩ := okBind run
    obtain ⟨note,rewritten,run⟩ := okBind run
    obtain ⟨pieces,parsed,rfl⟩ := substitutedExactly.mp retitled
    obtain ⟨pieces',parsed',rfl⟩ := substitutedExactly.mp renamed
    obtain ⟨last,fitting,_⟩ := substitutedExactly.mp run
    cases parsed.symm.trans parsed'
    exact ⟨name,number,subprogram,pieces,notes,note,restExactly.mp named,numberExactly.mp numbered,
      restExactly.mp called,parsed,notesExactly.mp taken,rewritten,templateLegal.mp ⟨last,fitting⟩⟩
  · intro parts
    obtain ⟨name,number,subprogram,pieces,notes,note,named,numbered,called,parsed,between,rewritten,legal⟩ := parts
    obtain ⟨last,fitting⟩ := templateLegal.mpr legal
    have testName := @restExactly nameMarker s (by decide) name
    have testSubprogram := @restExactly subprogramMarker s (by decide) subprogram
    have titled := @substitutedOk (lineWith titleMarker titleSome) _ s _ parsed
    have renamed := @substitutedOk (lineWith nameMarker nameSome) _
      (substitute (lineWith titleMarker titleSome) pieces s) _ parsed
    have taken := notesExactly.mpr between
    have written := @substitutedOk notesSection _ (labelled pieces s) _ fitting
    rw [labelled] at taken written
    simp only [newName] at titled renamed
    simp only [handleTestCase,bind,Except.bind,testName.mpr named,numberExactly.mpr numbered,
      testSubprogram.mpr called,titled,renamed,taken,rewritten,written]
    exact ⟨_,rfl⟩

end KernelTestTools.TestScript

