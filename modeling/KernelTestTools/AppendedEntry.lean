import KernelTestTools.LastWrite

/-! The append path of Set_Return.py: an entry written behind a last line without a percent
sign, and a second pass over the file. The entry is appended in mode 'a' as it is, so it has a
line of its own only where the file ended in a line break. -/
namespace KernelTestTools.SetReturn
open TextFile DatFiles

def EndsLine (content : Text) : Prop := ∃ c ∈ content.getLast?, c = '\n' ∨ c = '\r'

/- The file has the old lines and the entry, and any later pass changes the entry's value only. -/
structure Appended (content key newValue : Text) (after : Option DatFile) : Prop where
  written : ∃ text, after = some (.text text) ∧
    lineTexts text = lineTexts content ++ [key ++ percent::newValue]
  again : ∀ key' v, ∃ before, (entries after).flatten = before ++ entryLine key newValue ∧
    (updateDat v key' after).1 = some (.text (before ++ entryLine key v))

def Unmarked (content : Text) : Prop :=
  ∀ last ∈ (lines (universalNewlines content)).getLast?, percent ∉ last

theorem universalLast (s : Text) :
    (universalNewlines s).getLast? = s.getLast?.map (fun c => if c = '\r' then '\n' else c) := by
  induction s using universalNewlines.induct with
  | case1 => rfl
  | case2 rest ih =>
    rw [universalNewlines,List.getLast?_cons,ih,List.getLast?_cons,List.getLast?_cons]
    cases rest.getLast? <;> rfl
  | case3 c rest other ih =>
    rw [universalNewlines,List.getLast?_cons,ih,List.getLast?_cons]
    · cases rest.getLast? <;> rfl
    · exact other

theorem endsLineRead {content : Text} : EndsLine content ↔ ['\n'] <:+ universalNewlines content := by
  have ends : ['\n'] <:+ universalNewlines content ↔ (universalNewlines content).getLast? = some '\n' := by
    rw [List.getLast?_eq_some_iff]
    constructor
    · exact fun h => h.imp (fun t same => same.symm)
    · exact fun h => h.imp (fun t same => same.symm)
  rw [ends,universalLast,Option.map_eq_some_iff]
  constructor
  · intro h
    obtain ⟨c,last,rfl | rfl⟩ := h
    · exact ⟨'\n',last,rfl⟩
    · exact ⟨'\r',last,rfl⟩
  · intro h
    obtain ⟨c,last,same⟩ := h
    refine ⟨c,last,?_⟩
    split at same
    · rename_i feed
      exact .inr feed
    · exact .inl same

section
variable {content key newValue : Text} {c : Char} {rest : Text}

theorem appendedRead (start : key = c::rest) (other : c ≠ '\n') (clean : '\r' ∉ entryLine key newValue) :
    universalNewlines (content ++ entryLine key newValue) =
      universalNewlines content ++ entryLine key newValue := by
  have shape : entryLine key newValue = c::(rest ++ [percent] ++ newValue ++ ['\n']) := by
    rw [entryLine,start]
    rfl
  rw [shape,universalAppend content other,← shape,noReturnUnchanged clean]

theorem appendedLines (start : key = c::rest) (other : c ≠ '\n') (named : Plain key) (value : Plain newValue)
    (ends : EndsLine content) :
    lines (universalNewlines (content ++ entryLine key newValue)) =
      lines (universalNewlines content) ++ [entryLine key newValue] := by
  obtain ⟨line,clean⟩ := entryTerminated named value
  have whole := linesTerminated (endsLineRead.mp ends)
  have last := linesCons line []
  have split := linesFlatten whole (entryLine key newValue)
  rw [List.append_nil] at last
  rw [linesJoin,last] at split
  rw [appendedRead start other clean,split]
  rfl

/- Without a line break in front, the last old line takes the entry. -/
theorem gluedLines (start : key = c::rest) (other : c ≠ '\n') (named : Plain key) (value : Plain newValue)
    (nonempty : content ≠ []) (ends : ¬ EndsLine content) :
    (lineTexts (content ++ entryLine key newValue)).length = (lineTexts content).length := by
  obtain ⟨init,last,split⟩ := lineOrSplit nonempty
  obtain ⟨⟨body,free,same⟩,clean⟩ := entryTerminated named value
  have shape := linesShape (universalNewlines content)
  have joined := linesJoin (universalNewlines content)
  rw [split] at shape joined
  rw [List.flatten_append,List.flatten_singleton] at joined
  have whole : '\n' ∉ last := by
    rcases lineListMember shape (List.mem_append_right _ List.mem_cons_self) with ⟨body,_,terminated⟩ | open'
    · refine absurd (endsLineRead.mpr ?_) ends
      rw [← joined,terminated,← List.append_assoc]
      exact List.suffix_append _ _
    · exact open'.1
  have glued : Terminated (last ++ entryLine key newValue) :=
    ⟨last ++ body,by simp [whole,free],by rw [same,List.append_assoc]⟩
  have single := linesCons glued []
  rw [List.append_nil] at single
  rw [lineTexts,appendedRead start other clean,← joined,List.append_assoc,
    linesFlatten (lineListInit shape),single,lineTexts,split]
  simp

end

theorem lineTextPlain {s l : Text} (mem : l ∈ lineTexts s) : Plain l := by
  obtain ⟨k,listed,rfl⟩ := List.mem_map.mp mem
  have part : lineText k ⊆ k := (List.rdropWhile_prefix _ k).subset
  refine ⟨fun line => ?_,fun feed => lineNoReturn listed (part feed)⟩
  rcases lineListMember (linesShape (universalNewlines s)) listed with ⟨body,free,rfl⟩ | open'
  · rw [lineTextBreak free] at line
    exact free line
  · exact open'.1 (part line)

structure AppendSafe (content globalId newValue : Text) : Prop where
  ends : EndsLine content
  marked : percent ∉ globalId
  named : Plain globalId
  value : Plain newValue

theorem appendedText {content newValue k : Text} (nonempty : content ≠ []) (unmarked : Unmarked content) :
    (updateDat newValue (some k) (some (.text content))).1 = some (.text (content ++ entryLine k newValue)) := by
  obtain ⟨init,last,split⟩ := lineOrSplit nonempty
  have free : percent ∉ last := unmarked last (by rw [split]; simp)
  rw [updateNoPercent split free]
  rfl

section
variable {content newValue globalId : Text} {unitSub : Text × Text}

theorem entryText (key v : Text) : entryLine key v = (key ++ percent::v) ++ ['\n'] := by
  simp [entryLine]

theorem globalIdInKey : globalId ⊆ entryKey globalId unitSub := fun _ mem => List.mem_append_right _ mem

theorem keyStart : entryKey globalId unitSub = '0' :: '.' :: (unitSub.1 ++ ['.'] ++ unitSub.2 ++ ['.'] ++ globalId) := by
  simp [entryKey]

theorem againUnmarked {key : Text} {c : Char} {rest : Text} (start : key = c::rest) (other : c ≠ '\n')
    (named : Plain key) (value : Plain newValue) (ends : EndsLine content)
    (appended : Appended content key newValue (some (.text (content ++ entryLine key newValue)))) :
    percent ∉ key := by
  intro mem
  obtain ⟨k,r,split,free⟩ := List.eq_append_cons_of_mem mem
  have listed := appendedLines start other named value ends
  have last : entryLine key newValue = k ++ percent::(r ++ [percent] ++ newValue ++ ['\n']) := by
    rw [entryLine,split]
    simp
  obtain ⟨before,read,changed⟩ := appended.again none []
  rw [entries,listed,List.flatten_append,List.flatten_singleton,linesJoin] at read
  have same := List.append_cancel_right read
  rw [last] at listed
  rw [last,updatePercent listed free,linesJoin,same] at changed
  simp only [Option.some.injEq,DatFile.text.injEq,List.append_cancel_left_eq,entryLine,
    List.append_cancel_right_eq] at changed
  have shorter := (List.dropWhile_suffix (l := k) isSpace).length_le
  have lengths := congrArg List.length (changed.trans split)
  rw [lstrip,List.length_append,List.length_cons] at lengths
  omega

theorem appendedSafe (safe : SafeKey (entryKey globalId unitSub)) (value : Plain newValue) (ends : EndsLine content) :
    Appended content (entryKey globalId unitSub) newValue
      (some (.text (content ++ entryLine (entryKey globalId unitSub) newValue))) := by
  have listed := appendedLines keyStart (by decide) safe.plain value ends
  refine ⟨⟨_,rfl,?_⟩,fun key' v => ⟨universalNewlines content,?_,?_⟩⟩
  · have whole : '\n' ∉ entryKey globalId unitSub ++ percent::newValue := by
      simp [safe.plain.1,value.1,percent]
    rw [lineTexts,listed,List.map_append,List.map_singleton,entryText,lineTextBreak whole,lineTexts]
  · rw [entries,listed]
    simp
  · rw [entryText,List.append_assoc,List.cons_append] at listed
    rw [entryText,List.append_assoc,List.cons_append,updatePercent listed safe.marked,safe.trimmed,linesJoin]

end

theorem appendedExactly (x : XmlFile) (unitSub : Text × Text) (content globalId newValue : Text)
    (nonempty : content ≠ []) (unmarked : Unmarked content)
    (tags : extractUnitAndSubprogram x = some unitSub) :
    Appended content (entryKey globalId unitSub) newValue
        (updateDat newValue ((extractUnitAndSubprogram x).map (entryKey globalId)) (some (.text content))).1 ↔
      AppendSafe content globalId newValue := by
  rw [tags,Option.map_some,appendedText nonempty unmarked]
  constructor
  · intro appended
    obtain ⟨text,same,written⟩ := appended.written
    cases same
    have plain : Plain (entryKey globalId unitSub ++ percent::newValue) :=
      lineTextPlain (written ▸ List.mem_append_right _ List.mem_cons_self)
    have named : Plain (entryKey globalId unitSub) :=
      ⟨fun mem => plain.1 (List.mem_append_left _ mem),fun mem => plain.2 (List.mem_append_left _ mem)⟩
    have value : Plain newValue :=
      ⟨fun mem => plain.1 (List.mem_append_right _ (List.mem_cons_of_mem _ mem)),
        fun mem => plain.2 (List.mem_append_right _ (List.mem_cons_of_mem _ mem))⟩
    have ends : EndsLine content := by
      by_contra open'
      have glued := gluedLines keyStart (by decide) named value nonempty open'
      rw [written,List.length_append,List.length_singleton] at glued
      omega
    have marked := againUnmarked keyStart (by decide) named value ends appended
    exact ⟨ends,fun mem => marked (globalIdInKey mem),
      ⟨fun mem => named.1 (globalIdInKey mem),fun mem => named.2 (globalIdInKey mem)⟩,value⟩
  · intro safe
    exact appendedSafe (entryKeySafe tags safe.marked safe.named) safe.value safe.ends

theorem sampleAppended : Appended "expected\n".toList (entryKey "7".toList ("1".toList,"2".toList)) "0".toList
    (updateDat "0".toList ((extractUnitAndSubprogram (sampleDocument "T-1.XML" "001")).map (entryKey "7".toList))
      (some (.text "expected\n".toList))).1 ↔ AppendSafe "expected\n".toList "7".toList "0".toList :=
  appendedExactly (sampleDocument "T-1.XML" "001") ("1".toList,"2".toList) _ _ _ (by decide)
    (by unfold Unmarked; decide) (by decide)

/- A file whose last line has no line break: the entry ends up on that line. -/
theorem entryGlued : ¬ Appended "expected".toList (entryKey "7".toList ("1".toList,"2".toList)) "0".toList
    (updateDat "0".toList ((extractUnitAndSubprogram (sampleDocument "T-1.XML" "001")).map (entryKey "7".toList))
      (some (.text "expected".toList))).1 := by
  intro appended
  obtain ⟨text,after,written⟩ := appended.written
  have glued : (updateDat "0".toList ((extractUnitAndSubprogram (sampleDocument "T-1.XML" "001")).map
      (entryKey "7".toList)) (some (.text "expected".toList))).1 =
        some (.text "expected0.1.2.7%0\n".toList) := by decide
  rw [glued] at after
  cases after
  revert written
  decide

end KernelTestTools.SetReturn
