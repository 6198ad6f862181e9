import KernelTestTools.TextFile

/-! The one-pass rewriting of an lcov tracefile by modify_coverage. The two variables that
the loop carries from line to line are explicit; a record boundary does not touch them. -/
namespace KernelTestTools.Coverage
open TextFile

def fn : Text := "FN:".toList
def fnda : Text := "FNDA:".toList
def da : Text := "DA:".toList

structure Pending where
  fnFound : Bool
  lineNumber : Option Text
  deriving DecidableEq, Repr

def idle : Pending := ⟨false,none⟩

/- parts[1].strip() of a line with exactly two comma-separated parts. -/
def second (line : Text) : Option Text := match fields ',' line with
  | [_,name] => some (strip name)
  | _ => none

/- parts[0].split(':')[1].strip() of a line with exactly two comma-separated parts. The
callers have seen a prefix with a colon, so the index is in range. -/
def firstNumber (line : Text) : Option Text := match fields ',' line with
  | [key,_] => some (strip ((fields ':' key)[1]?.getD []))
  | _ => none

def newFnda (name count : Text) : Text := fnda ++ count ++ [','] ++ name ++ ['\n']
def newDa (number count : Text) : Text := da ++ number ++ [','] ++ count ++ ['\n']

def visitLine (functionName newCount : Text) (p : Pending) (line : Text) : Pending × Text :=
  if fn <+: line then
    if second line = some functionName then (⟨true,firstNumber line⟩,line) else (p,line)
  else if fnda <+: line ∧ p.fnFound then
    if second line = some functionName then
      ({p with fnFound := false},newFnda functionName newCount)
    else (p,line)
  else if da <+: line then
    match p.lineNumber with
    | none => (p,line)
    | some number =>
      if firstNumber line = some number then ({p with lineNumber := none},newDa number newCount)
      else (p,line)
  else (p,line)

def modifiedLines (functionName newCount : Text) : Pending → List Text → List Text
  | _,[] => []
  | p,line::rest =>
    (visitLine functionName newCount p line).2::
      modifiedLines functionName newCount (visitLine functionName newCount p line).1 rest

def modifyCoverage (functionName newCount infoFile : Text) : Text :=
  (modifiedLines functionName newCount idle (lines (universalNewlines infoFile))).flatten

/- What a single line says, with the white space around its fields trimmed: the line of
an FN entry for the function, an FNDA entry for it, the number of a two-field DA entry. -/
def fnNumber (functionName line : Text) : Option Text :=
  if fn <+: line ∧ second line = some functionName then firstNumber line else none

def isFnda (functionName line : Text) : Bool :=
  decide (fnda <+: line ∧ second line = some functionName)

def daNumber (line : Text) : Option Text := if da <+: line then firstNumber line else none

theorem keysDistinct {line : Text} :
    ¬ (fn <+: line ∧ fnda <+: line) ∧ ¬ (fn <+: line ∧ da <+: line) ∧
      ¬ (fnda <+: line ∧ da <+: line) := by
  refine ⟨?_,?_,?_⟩ <;> rintro ⟨⟨a,rfl⟩,⟨b,same⟩⟩ <;> simp [fn,fnda,da] at same

theorem numberOfSecond {line name} (two : second line = some name) :
    ∃ number, firstNumber line = some number := by
  unfold second at two
  unfold firstNumber
  split at two
  · exact ⟨_,rfl⟩
  · contradiction

theorem fnNumberSome {functionName line} :
    (fnNumber functionName line).isSome ↔ fn <+: line ∧ second line = some functionName := by
  unfold fnNumber
  split
  · rename_i named
    obtain ⟨number,found⟩ := numberOfSecond named.2
    simp [found,named]
  · rename_i other
    simpa using other

def next (functionName : Text) (p : Pending) (line : Text) : Pending :=
  match fnNumber functionName line with
  | some number => ⟨true,some number⟩
  | none => ⟨p.fnFound && !isFnda functionName line,
      p.lineNumber.filter (fun number => decide (daNumber line ≠ some number))⟩

def written (functionName newCount : Text) (p : Pending) (line : Text) : Text :=
  if p.fnFound ∧ isFnda functionName line then newFnda functionName newCount
  else match p.lineNumber with
    | some number => if daNumber line = some number then newDa number newCount else line
    | none => line

theorem visitLineSpec (functionName newCount : Text) (p : Pending) (line : Text) :
    visitLine functionName newCount p line =
      (next functionName p line,written functionName newCount p line) := by
  obtain ⟨notFnda,notDa,disjoint⟩ := @keysDistinct line
  obtain ⟨fnFound,lineNumber⟩ := p
  by_cases isFn : fn <+: line
  · have other : ¬ fnda <+: line := fun h => notFnda ⟨isFn,h⟩
    have different : ¬ da <+: line := fun h => notDa ⟨isFn,h⟩
    by_cases named : second line = some functionName
    · obtain ⟨number,found⟩ := numberOfSecond named
      cases lineNumber <;>
        simp [visitLine,next,written,fnNumber,isFnda,daNumber,isFn,other,different,named,found]
    · cases lineNumber <;>
        simp [visitLine,next,written,Option.filter,fnNumber,isFnda,daNumber,isFn,other,different,named]
  · by_cases isFnda' : fnda <+: line
    · have different : ¬ da <+: line := fun h => disjoint ⟨isFnda',h⟩
      by_cases named : second line = some functionName <;> cases fnFound <;> cases lineNumber <;>
        simp [visitLine,next,written,Option.filter,fnNumber,isFnda,daNumber,isFn,isFnda',different,named]
    · by_cases isDa : da <+: line
      · cases lineNumber with
        | none => simp [visitLine,next,written,fnNumber,isFnda,isFn,isFnda',isDa]
        | some number =>
          by_cases found : firstNumber line = some number <;>
            simp [visitLine,next,written,Option.filter,fnNumber,isFnda,daNumber,isFn,isFnda',isDa,found]
      · cases lineNumber <;>
          simp [visitLine,next,written,Option.filter,fnNumber,isFnda,daNumber,isFn,isFnda',isDa]

end KernelTestTools.Coverage
