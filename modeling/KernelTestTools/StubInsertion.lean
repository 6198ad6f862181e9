import KernelTestTools.StubRerun

/-! Insert_stub.py over any list of names and any ENVIRO.AUX: which lines the rewritten file
has. The list is written back as it stands, so an anchor line without a line break runs into
the first stub behind it. -/
namespace KernelTestTools.StubTool
open TextFile

def functionsFile (names : List Text) : Text := names.flatMap (· ++ ['\n'])

def OneLine (name : Text) : Prop := '\n' ∉ name ∧ '\r' ∉ name

def AnchorFree (aux : Text) : Prop := ∀ l ∈ lines (universalNewlines aux), ¬ libraryStubs <:+: l

structure StubsInserted (names : List Text) (aux after : Text) : Prop where
  unanchored : AnchorFree aux → after = aux
  inPlace : ∀ front anchor back, Anchored (lines (universalNewlines aux)) front back anchor →
    lineTexts after = (front ++ [anchor]).map lineText ++ names.map (additionalStub ++ ·) ++ back.map lineText

structure InsertionSafe (names : List Text) (aux : Text) : Prop where
  trimmed : ∀ f ∈ names, strip f = f
  anchorEnds : names = [] ∨
    ∀ front anchor back, Anchored (lines (universalNewlines aux)) front back anchor → Terminated anchor

theorem anchorFreePosition {aux : Text} : insertPosition (lines (universalNewlines aux)) = none ↔ AnchorFree aux := by
  rw [insertPosition,Option.map_eq_none_iff,List.findIdx?_eq_none_iff]
  exact forall₂_congr (fun l _ => decide_eq_false_iff_not)

theorem anchorFreeUnchanged {aux : Text} (free : AnchorFree aux) (functionsFile : Text) :
    insertFunctionsAfterLibraryStubs functionsFile aux = aux := by
  rw [insertFunctionsAfterLibraryStubs]
  simp only [anchorFreePosition.mpr free]

theorem anchoredMember {ls front back : List Text} {anchor : Text} (at' : Anchored ls front back anchor) :
    anchor ∈ ls := by
  rw [at'.split]
  exact List.mem_append_right _ List.mem_cons_self

theorem anchorExists {aux : Text} (some : ¬ AnchorFree aux) :
    ∃ front anchor back, Anchored (lines (universalNewlines aux)) front back anchor := by
  simp only [AnchorFree,not_forall,not_not] at some
  obtain ⟨l,mem,here⟩ := some
  obtain ⟨front,anchor,back,at'⟩ := anchoredOfMember mem here
  exact ⟨front,anchor,back,at'⟩

theorem stripOneLine {l : Text} (line : Terminated l ∨ '\n' ∉ l) : '\n' ∉ strip l := by
  rcases line with ⟨body,free,rfl⟩ | free
  · rw [stripBreak]
    exact fun mem => free (stripSubset body mem)
  · exact fun mem => free (stripSubset l mem)

theorem readOneLine {functionsFile : Text} : ∀ f ∈ readFunctions functionsFile, OneLine f := by
  intro f mem
  obtain ⟨l,listed,rfl⟩ := List.mem_map.mp mem
  refine ⟨stripOneLine ?_,fun feed => lineNoReturn listed (stripSubset l feed)⟩
  exact (lineListMember (linesShape _) listed).imp id (fun last => last.1)

theorem stubsWhole {functions : List Text} (oneLine : ∀ f ∈ functions, OneLine f) :
    ∀ l ∈ functions.map stubLine, Terminated l ∧ '\r' ∉ l := by
  intro l mem
  obtain ⟨f,listed,rfl⟩ := List.mem_map.mp mem
  exact stubTerminated (oneLine f listed)

theorem stubTexts {functions : List Text} (oneLine : ∀ f ∈ functions, OneLine f) :
    (functions.map stubLine).map lineText = functions.map (additionalStub ++ ·) := by
  rw [List.map_map]
  refine List.map_congr_left (fun f mem => ?_)
  have front : '\n' ∉ additionalStub := by decide
  exact lineTextBreak (by simp [front,(oneLine f mem).1])

section
variable {names functions front back : List Text} {aux anchor file : Text}

theorem anchorEndsTexts (read : readFunctions file = functions)
    (at' : Anchored (lines (universalNewlines aux)) front back anchor) (line : Terminated anchor) :
    lineTexts (insertFunctionsAfterLibraryStubs file aux) =
      (front ++ [anchor]).map lineText ++ functions.map (additionalStub ++ ·) ++ back.map lineText := by
  have oneLine : ∀ f ∈ functions, OneLine f := read ▸ readOneLine
  rw [insertedText read at',lineTexts,insertedLines (stubsWhole oneLine) at' line]
  simp only [List.map_append,List.map_cons,stubTexts oneLine]
  simp

theorem anchorOpenLast (at' : Anchored (lines (universalNewlines aux)) front back anchor)
    (line : ¬ Terminated anchor) : back = [] ∧ '\n' ∉ anchor ∧ ∀ l ∈ front, Terminated l := by
  have shape := linesShape (universalNewlines aux)
  rw [at'.split] at shape
  have last : back = [] := by
    rcases List.eq_nil_or_concat back with none | ⟨init,last,rfl⟩
    · exact none
    · rw [List.concat_eq_append,← List.cons_append,← List.append_assoc] at shape
      exact absurd (lineListInit shape anchor (by simp)) line
  subst last
  refine ⟨rfl,?_,lineListInit shape⟩
  rcases lineListMember shape (List.mem_append_right _ List.mem_cons_self) with ends | open'
  · exact absurd ends line
  · exact open'.1

/- An anchor line without one is the last, and the first stub is glued to it. -/
theorem anchorOpenLines {f : Text} (read : readFunctions file = f::functions)
    (at' : Anchored (lines (universalNewlines aux)) front back anchor) (line : ¬ Terminated anchor) :
    lines (universalNewlines (insertFunctionsAfterLibraryStubs file aux)) =
      front ++ (anchor ++ stubLine f)::functions.map stubLine := by
  obtain ⟨rfl,whole,before⟩ := anchorOpenLast at' line
  have stubs := @stubsWhole (f::functions) (read ▸ readOneLine)
  obtain ⟨⟨body,free,ends⟩,feed⟩ := stubs (stubLine f) (by simp)
  have glued : Terminated (anchor ++ stubLine f) :=
    ⟨anchor ++ body,by simp [whole,free],by rw [ends,List.append_assoc]⟩
  have all : ∀ l ∈ front ++ (anchor ++ stubLine f)::functions.map stubLine, Terminated l ∧ '\r' ∉ l := by
    intro l mem
    rcases List.mem_append.mp mem with early | late
    · exact ⟨before l early,lineNoReturn (s := aux) (at'.split ▸ List.mem_append_left _ early)⟩
    · rcases List.mem_cons.mp late with rfl | later
      · refine ⟨glued,?_⟩
        rw [List.mem_append,not_or]
        exact ⟨lineNoReturn (anchoredMember at'),feed⟩
      · exact stubs l (List.mem_cons_of_mem _ later)
  have joined : (front ++ anchor::((f::functions).map stubLine ++ [])).flatten =
      (front ++ (anchor ++ stubLine f)::functions.map stubLine).flatten ++ [] := by simp
  have clean : '\r' ∉ (front ++ (anchor ++ stubLine f)::functions.map stubLine).flatten ++ [] := by
    rw [List.append_nil]
    intro mem
    obtain ⟨l,listed,inside⟩ := List.mem_flatten.mp mem
    exact (all l listed).2 inside
  rw [insertedText read at',joined,noReturnUnchanged clean,linesFlatten (fun l mem => (all l mem).1)]
  simp

theorem nothingInserted (at' : Anchored (lines (universalNewlines aux)) front back anchor) :
    lineTexts (insertFunctionsAfterLibraryStubs (functionsFile []) aux) = lineTexts aux := by
  have inserted := insertedText (@readListed [] (by simp)) at'
  rw [List.map_nil,List.map_nil,List.nil_append,← at'.split,linesJoin] at inserted
  rw [functionsFile,inserted,lineTexts,noReturnUnchanged (universalNoReturn aux),lineTexts]

theorem stubsInPlace (oneLine : ∀ f ∈ names, OneLine f)
    (at' : Anchored (lines (universalNewlines aux)) front back anchor) :
    lineTexts (insertFunctionsAfterLibraryStubs (functionsFile names) aux) =
        (front ++ [anchor]).map lineText ++ names.map (additionalStub ++ ·) ++ back.map lineText ↔
      (∀ f ∈ names, strip f = f) ∧ (names = [] ∨ Terminated anchor) := by
  by_cases line : Terminated anchor
  · have read : readFunctions (functionsFile names) = names.map strip := readListed oneLine
    rw [anchorEndsTexts read at' line,List.append_cancel_right_eq,List.append_cancel_left_eq,List.map_map,
      List.map_inj_left]
    constructor
    · exact fun same => ⟨fun f mem => List.append_cancel_left (same f mem),.inr line⟩
    · exact fun safe f mem => congrArg (additionalStub ++ ·) (safe.1 f mem)
  · cases names with
    | nil =>
      rw [nothingInserted at',lineTexts,at'.split]
      simp
    | cons f names =>
      have read : readFunctions (functionsFile (f::names)) = (f::names).map strip := readListed oneLine
      have glued := anchorOpenLines read at' line
      obtain ⟨rfl,_,_⟩ := anchorOpenLast at' line
      have shorter : lineTexts (insertFunctionsAfterLibraryStubs (functionsFile (f::names)) aux) ≠
          (front ++ [anchor]).map lineText ++ (f::names).map (additionalStub ++ ·) ++ List.map lineText [] := by
        intro same
        have count := congrArg List.length same
        rw [lineTexts,glued] at count
        simp only [List.length_map,List.length_append,List.length_cons,List.length_nil] at count
        omega
      constructor
      · exact fun same => absurd same shorter
      · intro safe
        rcases safe.2 with none | ends
        · cases none
        · exact absurd ends line

end

theorem stubsInsertedExactly (names : List Text) (aux : Text) (oneLine : ∀ f ∈ names, OneLine f) :
    StubsInserted names aux (insertFunctionsAfterLibraryStubs (functionsFile names) aux) ↔
      AnchorFree aux ∨ InsertionSafe names aux := by
  constructor
  · intro inserted
    by_cases free : AnchorFree aux
    · exact .inl free
    obtain ⟨front,anchor,back,at'⟩ := anchorExists free
    obtain ⟨trimmed,_⟩ := (stubsInPlace oneLine at').mp (inserted.inPlace front anchor back at')
    refine .inr ⟨trimmed,?_⟩
    by_cases none : names = []
    · exact .inl none
    · refine .inr (fun front anchor back at' => ?_)
      have placed := (stubsInPlace oneLine at').mp (inserted.inPlace front anchor back at')
      exact placed.2.resolve_left none
  · intro safe
    refine ⟨fun free => anchorFreeUnchanged free _,fun front anchor back at' => ?_⟩
    rcases safe with free | ⟨trimmed,ends⟩
    · exact absurd at'.anchor (free anchor (anchoredMember at'))
    · exact (stubsInPlace oneLine at').mpr ⟨trimmed,ends.imp id (fun all => all front anchor back at')⟩

theorem sampleStubsInserted : StubsInserted ["vfree".toList,"kfree".toList] sampleAux
    (insertFunctionsAfterLibraryStubs (functionsFile ["vfree".toList,"kfree".toList]) sampleAux) ↔
      AnchorFree sampleAux ∨ InsertionSafe ["vfree".toList,"kfree".toList] sampleAux :=
  stubsInsertedExactly _ _ (by
    intro f mem
    simp only [List.mem_cons,List.not_mem_nil,or_false] at mem
    rcases mem with rfl | rfl <;> exact ⟨by decide,by decide⟩)

theorem stubGlued : ¬ StubsInserted ["vfree".toList] "ENVIRO.NEW\nENVIRO.LIBRARY_STUBS:".toList
    (insertFunctionsAfterLibraryStubs (functionsFile ["vfree".toList])
      "ENVIRO.NEW\nENVIRO.LIBRARY_STUBS:".toList) := by
  intro inserted
  have placed := inserted.inPlace ["ENVIRO.NEW\n".toList] libraryStubs [] ⟨by decide,by decide,by decide⟩
  revert placed
  decide

end KernelTestTools.StubTool
