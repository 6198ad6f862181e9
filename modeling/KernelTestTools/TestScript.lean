import KernelTestTools.TextFile
import KernelTestTools.Regex

/-! test_case.py, which renames the test cases of a script and rewrites their notes. The
new name and the new notes go into replacement templates as they are, so their backslashes
and leading digits are read as part of the template. -/
namespace KernelTestTools.TestScript
open TextFile Regex

def head : Text := "Test Case Description:".toList

def body : Text :=
  "     Cover statement branch, verify the function is executed correctly.No branches in subprogram.".toList

def tail : Text :=
  "\nMethods for software unit testing:\nRequirements-based test,Interface test\n\n".toList ++
    "Methods for deriving test cases for software unit testing:\n".toList ++
    "Analysis of requirements,Generation and analysis of equivalence classes,Analysis of boundary values".toList

def generated : Text := "This is an automatically generated test case.".toList
def generationNotes : Text := "Test Case Generation Notes:".toList
def titleMarker : Text := "-- Test Case: ".toList
def nameMarker : Text := "TEST.NAME:".toList
def subprogramMarker : Text := "TEST.SUBPROGRAM:".toList
def notesMarker : Text := "TEST.NOTES:".toList
def endNotesMarker : Text := "TEST.END_NOTES:".toList
def caseMarker : Text := "-- Test Case:".toList
def endMarker : Text := "TEST.END".toList

def anyChar (_ : Char) : Bool := true
def inLine (c : Char) : Bool := c != '\n'

/- A marker and the rest of its line, with the groups that findall and sub ask for. -/
def valueAfter (marker : Text) (some : marker ≠ []) : Pattern Char :=
  ⟨.seq (.lit marker) (.group 1 (.rep inLine 0 false)),literalConsumes (literalRe marker) some⟩

def lineWith (marker : Text) (some : marker ≠ []) : Pattern Char :=
  ⟨.seq (.group 1 (.lit marker)) (.group 2 (.rep inLine 0 false)),
    literalConsumes (literalGroup marker 1) some⟩

def threeDigits : Pattern Char := ⟨.exact isDigit 3,exactConsumes (by decide)⟩

def notes : Pattern Char :=
  ⟨.seq (.lit (notesMarker ++ ['\n'])) (.seq (.group 1 (.rep anyChar 0 true)) (.lit endNotesMarker)),
    literalConsumes (literalRe _) (by decide)⟩

def notesSection : Pattern Char :=
  ⟨.seq (.group 1 (.lit (notesMarker ++ ['\n'])))
    (.seq (.group 2 (.rep anyChar 0 true)) (.group 3 (.lit endNotesMarker))),
    literalConsumes (literalGroup _ 1) (by decide)⟩

def generatedNote : Pattern Char := ⟨.lit generated,textConsumes (by decide)⟩

def oldNotes : Pattern Char :=
  ⟨.seq (.rep isSpace 0 false) (.seq (.lit generationNotes) (.group 1 (.rep anyChar 0 false))),
    rightConsumes (literalConsumes (literalRe _) (by decide))⟩

def testCases : Pattern Char :=
  ⟨.seq (.lit caseMarker) (.seq (.rep anyChar 0 true) (.lit (endMarker ++ ['\n']))),
    literalConsumes (literalRe _) (by decide)⟩

inductive Failure where
  | indexError
  | attributeError
  | template (error : TemplateError)
  deriving DecidableEq, Repr

def first : List Text → Except Failure Text
  | [] => .error .indexError
  | m::_ => .ok m

def substituted (r : Pattern Char) (repl s : Text) : Except Failure Text :=
  (sub r repl s).mapError .template

def handleTestNote (origin : Text) : Except Failure Text :=
  if generated <:+: origin then
    substituted oldNotes ('\n'::tail) (substitute generatedNote [.text head] origin)
  else .ok (List.intercalate ['\n'] [head,body,tail])

def notesTemplate (newTestNotes : Text) : Text :=
  '\\' :: '1' :: (newTestNotes ++ ['\\','n','\\','3'])

def handleTestCase (testCase : Text) : Except Failure Text := do
  let testName ← first (findall (valueAfter nameMarker (by decide)) 1 testCase)
  let testNum ← first (findall threeDigits 0 testName)
  let testSubprogram ← first (findall (valueAfter subprogramMarker (by decide)) 1 testCase)
  let newName := '\\' :: '1' :: (testSubprogram ++ ['.'] ++ testNum)
  let titled ← substituted (lineWith titleMarker (by decide)) newName testCase
  let result ← substituted (lineWith nameMarker (by decide)) newName titled
  let testNotes ← first (findall notes 1 result)
  let newTestNotes ← handleTestNote testNotes
  substituted notesSection (notesTemplate newTestNotes) result

def getHead (s : Text) : Except Failure Text :=
  match matchHere (.seq (.group 1 (.rep anyChar 0 true)) (.lit caseMarker)) s with
  | none => .error .attributeError
  | some m => .ok (m.group 1)

def writeCases : List Text → Except Failure Text
  | [] => .ok []
  | testCase::rest => do
    let newTestCase ← handleTestCase testCase
    let later ← writeCases rest
    .ok (newTestCase ++ ['\n'] ++ later)

/- From the bytes of in.tst, decoded, to the content of out.tst. -/
def main (script : Text) : Except Failure Text := do
  let content := universalNewlines script
  let tstHead ← getHead content
  let cases ← writeCases (findall testCases 0 content)
  .ok (tstHead ++ cases)

theorem substitutedOk {r : Pattern Char} {repl s : Text} {pieces : List (Piece Char)}
    (parsed : template (groupCount r.re) repl = .ok pieces) :
    substituted r repl s = .ok (substitute r pieces s) := by
  simp [substituted,sub,parsed,bind,Except.bind,Except.mapError]

theorem substitutedBad {r : Pattern Char} {repl s : Text} {e : TemplateError}
    (parsed : template (groupCount r.re) repl = .error e) :
    substituted r repl s = .error (.template e) := by
  simp [substituted,sub,parsed,bind,Except.bind,Except.mapError]

theorem literalAll {p : Char → Bool} {cs : List Char} (all : cs.all p = true) :
    (String.ofList cs).toList.all p = true := by
  rw [String.toList_ofList]
  exact all

theorem tailPlain : '\\' ∉ '\n'::tail := by
  have plain : tail.all (· != '\\') = true := by
    delta tail
    rw [List.all_append,List.all_append,literalAll (by decide +kernel),literalAll (by decide +kernel),
      literalAll (by decide +kernel)]
    rfl
  intro mem
  rcases List.mem_cons.mp mem with same | inside
  · cases same
  · have off := List.all_eq_true.mp plain _ inside
    simp at off

theorem handleTestNoteOk (origin : Text) : ∃ note, handleTestNote origin = .ok note := by
  unfold handleTestNote
  split
  · exact ⟨_,substitutedOk (templatePlain _ tailPlain)⟩
  · exact ⟨_,rfl⟩

end KernelTestTools.TestScript
