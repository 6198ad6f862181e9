import KernelTestTools.CoverageOrder

/-! Two passes of modify_coverage for one function. The first leaves every line's entry as it
was, so the second goes through the same states and writes what it would have written. -/
namespace KernelTestTools.Coverage
open TextFile

theorem writtenTwice {name c1 c2 l : Text} (line : Line l) (plain : PlainCount c1) (p : Pending) :
    written name c2 p (written name c1 p l) = written name c2 p l := by
  have same := @writtenSame name _ _ line plain p
  generalize rewritten : written name c1 p l = k at same
  unfold written at rewritten ⊢
  rw [same.fndas name,same.das]
  split
  · rfl
  · rename_i other
    rw [if_neg other] at rewritten
    split
    · rename_i number waiting
      simp only [waiting] at rewritten
      split
      · rfl
      · rename_i different
        rw [if_neg different] at rewritten
        exact rewritten.symm
    · rename_i waiting
      simp only [waiting] at rewritten
      exact rewritten.symm

/- By induction on the lines: both scans carry the same state past each of them. -/
theorem modifiedTwice {name c1 c2 : Text} (plain : PlainCount c1) {ls : List Text}
    (whole : ∀ l ∈ ls, Line l) (p : Pending) :
    modifiedLines name c2 p (modifiedLines name c1 p ls) = modifiedLines name c2 p ls := by
  induction ls generalizing p with
  | nil => rfl
  | cons l ls ih =>
    have line := whole l List.mem_cons_self
    have state := nextSame (@writtenSame name _ _ line plain p) name p
    have rest := ih (fun k mem => whole k (List.mem_cons_of_mem _ mem)) (next name p l)
    rw [modifiedLinesCons,modifiedLinesCons,modifiedLinesCons,state,writtenTwice line plain,rest]

section
variable {name count infoFile : Text}

theorem modifyCoverageRead (plain : PlainCount count) :
    lines (universalNewlines (modifyCoverage name count infoFile)) =
      modifiedLines name count idle (lines (universalNewlines infoFile)) := by
  have shape := linesShape (universalNewlines infoFile)
  have clean := @modifiedClean _ name _ (lineOfList shape) plain (fun l mem => lineNoReturn mem) idle
  have free : '\r' ∉ modifyCoverage name count infoFile := by
    intro mem
    obtain ⟨l,listed,inside⟩ := List.mem_flatten.mp mem
    exact clean l listed inside
  rw [noReturnUnchanged free,modifyCoverage,linesExact (modifiedList shape plain idle)]

theorem lineCountKept (plain : PlainCount count) :
    (lines (universalNewlines (modifyCoverage name count infoFile))).length =
      (lines (universalNewlines infoFile)).length := by
  rw [modifyCoverageRead plain,modifiedLinesLength]

end

theorem secondPassWins {name c1 c2 infoFile : Text} (plain : PlainCount c1) :
    modifyCoverage name c2 (modifyCoverage name c1 infoFile) = modifyCoverage name c2 infoFile := by
  have whole := lineOfList (linesShape (universalNewlines infoFile))
  rw [modifyCoverage,modifyCoverageRead plain,modifiedTwice plain whole,modifyCoverage]

theorem lastCountWins (infoFile functionName c1 c2 : Text) (first : PlainCount c1) (last : PlainCount c2) :
    modifyCoverage functionName c2 (modifyCoverage functionName c1 infoFile) =
        modifyCoverage functionName c2 infoFile ∧
      modifyCoverage functionName c2 (modifyCoverage functionName c2 infoFile) =
        modifyCoverage functionName c2 infoFile ∧
      (lines (universalNewlines (modifyCoverage functionName c2 infoFile))).length =
        (lines (universalNewlines infoFile)).length :=
  ⟨secondPassWins first,secondPassWins last,lineCountKept last⟩

theorem sampleLastCount :
    modifyCoverage "f".toList "7".toList (modifyCoverage "f".toList "5".toList "FN:1,f\nFNDA:0, f".toList) =
        modifyCoverage "f".toList "7".toList "FN:1,f\nFNDA:0, f".toList ∧
      modifyCoverage "f".toList "7".toList (modifyCoverage "f".toList "7".toList "FN:1,f\nFNDA:0, f".toList) =
        modifyCoverage "f".toList "7".toList "FN:1,f\nFNDA:0, f".toList ∧
      (lines (universalNewlines (modifyCoverage "f".toList "7".toList "FN:1,f\nFNDA:0, f".toList))).length =
        (lines (universalNewlines "FN:1,f\nFNDA:0, f".toList)).length :=
  lastCountWins _ _ _ _ ⟨by decide,by decide,by decide⟩ ⟨by decide,by decide,by decide⟩

end KernelTestTools.Coverage
