import KernelTestTools.TextFile
import KernelTestTools.Regex
import Mathlib.Data.Char
import Mathlib.Data.Finset.Sort
import Mathlib.Data.List.Lex

/-! The hand-over of undefined symbols: extract_undef.py collects the names of a linker
output in undefined_functions.txt, one on a line, and Insert_stub.py reads them back and
inserts a stub entry for each behind the anchor line of ENVIRO.AUX. -/
namespace KernelTestTools.StubTool
open TextFile Regex

def undefinedReference : Text := "undefined reference to ".toList

def backtick : Char := Char.ofNat 0x60
def quote (c : Char) : Bool := c == '\'' || c == backtick
def unquoted (c : Char) : Bool := !quote c

/- The opening and the closing quote are each either of the two characters. -/
def undefinedPattern : Pattern Char :=
  ⟨.seq (.lit undefinedReference)
    (.seq (.exact quote 1) (.seq (.group 1 (.rep unquoted 0 false)) (.exact quote 1))),
    literalConsumes (literalRe _) (by decide)⟩

/- The content of undefined_functions.txt for a linker output. -/
def extractUndefinedRefs (output : Text) : Text :=
  let found := findall undefinedPattern 1 (universalNewlines output)
  let uniqueFuncs := found.toFinset.sort (· ≤ ·)
  uniqueFuncs.flatMap (· ++ ['\n'])

def readFunctions (functionsFile : Text) : List Text :=
  (lines (universalNewlines functionsFile)).map strip

def libraryStubs : Text := "ENVIRO.LIBRARY_STUBS:".toList
def additionalStub : Text := "ENVIRO.ADDITIONAL_STUB:".toList

def stubLine (function : Text) : Text := additionalStub ++ function ++ ['\n']

def insertPosition (ls : List Text) : Option Nat :=
  (ls.findIdx? (fun l => decide (libraryStubs <:+: l))).map (·+1)

def insertAll : List Text → Nat → List Text → List Text
  | [],_,ls => ls
  | function::rest,position,ls => insertAll rest (position+1) (ls.insertIdx position (stubLine function))

/- The content of ENVIRO.AUX afterwards. -/
def insertFunctionsAfterLibraryStubs (functionsFile aux : Text) : Text :=
  let ls := lines (universalNewlines aux)
  match insertPosition ls with
  | none => aux
  | some position => (insertAll (readFunctions functionsFile) position ls).flatten

structure SymbolName (name : Text) : Prop where
  nonempty : name ≠ []
  bare : ∀ c ∈ name, quote c = false
  oneLine : '\n' ∉ name ∧ '\r' ∉ name
  trimmed : strip name = name

structure LinkerOutput where
  before : Text
  messages : List (Text × Text)
  symbols : ∀ m ∈ messages, SymbolName m.1
  beforeFree : ¬ undefinedReference <:+: before
  afterFree : ∀ m ∈ messages, ¬ undefinedReference <:+: m.2

def messageText (m : Text × Text) : Text :=
  undefinedReference ++ (backtick :: (m.1 ++ '\'' :: m.2))

def LinkerOutput.text (o : LinkerOutput) : Text := o.before ++ o.messages.flatMap messageText

def LinkerOutput.names (o : LinkerOutput) : List Text := o.messages.map (·.1)

theorem insertBehind (front back : List Text) (l : Text) :
    (front ++ back).insertIdx front.length l = front ++ l::back := by
  induction front with
  | nil => rfl
  | cons k front ih => rw [List.cons_append,List.length_cons,List.insertIdx_succ_cons,ih,List.cons_append]

theorem insertAllSplit (functions front back : List Text) :
    insertAll functions front.length (front ++ back) = front ++ functions.map stubLine ++ back := by
  induction functions generalizing front with
  | nil => simp [insertAll]
  | cons function rest ih =>
    have next := ih (front ++ [stubLine function])
    rw [List.length_append,List.length_singleton,List.append_assoc,List.singleton_append] at next
    rw [insertAll,insertBehind,next]
    simp

theorem referenceUnbordered : Unbordered undefinedReference := by decide

theorem messageFound {before name rest : Text} (free : ¬ undefinedReference <:+: before)
    (bare : ∀ c ∈ name, quote c = false) :
    findall undefinedPattern 1 (before ++ (messageText (name,rest))) =
      name::findall undefinedPattern 1 rest := by
  have blocked : ∀ c t, unquoted c = true → tries (.exact quote 1) (c::t) = [] := by
    intro c t inside
    have off : quote c = false := by simpa [unquoted] using inside
    simp [tries,off]
  have inside : ∀ c ∈ name, unquoted c = true := fun c mem => by simp [unquoted,bare c mem]
  have stop : ('\'' :: rest).takeWhile unquoted = [] := by simp [unquoted,quote]
  obtain ⟨taken,left⟩ := spanExact inside stop
  have body := greedyThen (greedyGroup unquoted 0 1) blocked (name ++ '\'' :: rest)
  rw [taken,left,if_pos (Nat.zero_le _)] at body
  have here : matchHere (.seq (.exact quote 1) (.seq (.group 1 (.rep unquoted 0 false)) (.exact quote 1)))
      (backtick :: (name ++ '\'' :: rest)) = some ⟨[(1,name)],backtick :: (name ++ ['\'']),rest⟩ := by
    rw [matchHere,exactThen (by decide),body]
    simp [tries,quote,Match.before]
  have found := searchLiteral (literalRe undefinedReference)
    (noStartUnbordered referenceUnbordered free _) here
  rw [findall,messageText,scanSome (r := undefinedPattern) found]
  simp [findall,Match.before,Match.group]

theorem noMessageFound {s : Text} (free : ¬ undefinedReference <:+: s) :
    findall undefinedPattern 1 s = [] := by
  rw [findall,scanNone (r := undefinedPattern) (searchLiteralNone (literalRe undefinedReference) free)]
  rfl

theorem messagesFound {before : Text} {messages : List (Text × Text)}
    (symbols : ∀ m ∈ messages, SymbolName m.1) (free : ¬ undefinedReference <:+: before)
    (after : ∀ m ∈ messages, ¬ undefinedReference <:+: m.2) :
    findall undefinedPattern 1 (before ++ messages.flatMap messageText) = messages.map (·.1) := by
  induction messages generalizing before with
  | nil =>
    rw [List.flatMap_nil,List.append_nil]
    exact noMessageFound free
  | cons m messages ih =>
    obtain ⟨name,rest⟩ := m
    have bare := (symbols (name,rest) List.mem_cons_self).bare
    have tail := @ih rest (fun k mem => symbols k (List.mem_cons_of_mem _ mem))
      (after (name,rest) List.mem_cons_self) (fun k mem => after k (List.mem_cons_of_mem _ mem))
    have shape : before ++ ((name,rest)::messages).flatMap messageText =
        before ++ messageText (name,rest ++ messages.flatMap messageText) := by simp [messageText]
    rw [shape,messageFound free bare,tail]
    rfl

theorem readListed {names : List Text} (oneLine : ∀ name ∈ names, '\n' ∉ name ∧ '\r' ∉ name) :
    readFunctions (names.flatMap (· ++ ['\n'])) = names.map strip := by
  have clean : '\r' ∉ names.flatMap (· ++ ['\n']) := by
    intro mem
    obtain ⟨name,listed,inside⟩ := List.mem_flatMap.mp mem
    rcases List.mem_append.mp inside with early | late
    · exact (oneLine name listed).2 early
    · cases List.mem_singleton.mp late
  have split : lines (names.flatMap (· ++ ['\n'])) = names.map (· ++ ['\n']) := by
    have all : ∀ l ∈ names.map (· ++ ['\n']), Terminated l := by
      intro l mem
      obtain ⟨name,listed,rfl⟩ := List.mem_map.mp mem
      exact ⟨name,(oneLine name listed).1,rfl⟩
    have whole := linesFlatten all []
    rw [linesNil,List.append_nil,List.append_nil] at whole
    rw [List.flatMap_def]
    exact whole
  rw [readFunctions,noReturnUnchanged clean,split,List.map_map]
  exact List.map_congr_left (fun name _ => stripBreak name)

theorem readWritten {names : List Text} (symbols : ∀ name ∈ names, SymbolName name) :
    readFunctions (names.flatMap (· ++ ['\n'])) = names := by
  rw [readListed (fun name mem => (symbols name mem).oneLine)]
  conv => rhs; rw [← List.map_id names]
  exact List.map_congr_left (fun name mem => (symbols name mem).trimmed)

theorem readBack {output : Text} {o : LinkerOutput} (read : universalNewlines output = o.text) :
    readFunctions (extractUndefinedRefs output) = o.names.toFinset.sort (· ≤ ·) := by
  have found : findall undefinedPattern 1 (universalNewlines output) = o.names := by
    rw [read]
    exact messagesFound o.symbols o.beforeFree o.afterFree
  have symbols : ∀ name ∈ o.names.toFinset.sort (· ≤ ·), SymbolName name := by
    intro name mem
    rw [Finset.mem_sort,List.mem_toFinset] at mem
    obtain ⟨m,listed,rfl⟩ := List.mem_map.mp mem
    exact o.symbols m listed
  rw [extractUndefinedRefs,found,readWritten symbols]

theorem handOver {output : Text} {o : LinkerOutput} (read : universalNewlines output = o.text) :
    (readFunctions (extractUndefinedRefs output)).Pairwise (· < ·) ∧
      ∀ name, name ∈ readFunctions (extractUndefinedRefs output) ↔ name ∈ o.names := by
  rw [readBack read]
  refine ⟨(Finset.sortedLT_sort _).pairwise,fun name => ?_⟩
  rw [Finset.mem_sort,List.mem_toFinset]

def sampleOutput : LinkerOutput where
  before := "hal.o: In function 'probe':\nhal.c:12: ".toList
  messages := [("vfree".toList,"\nhal.c:20: ".toList),("kfree".toList,"\nhal.c:31: ".toList),
    ("vfree".toList,"\ncollect2: error: ld returned 1 exit status\n".toList)]
  symbols := by
    intro m mem
    simp only [List.mem_cons,List.not_mem_nil,or_false] at mem
    rcases mem with rfl | rfl | rfl <;> exact ⟨by decide,eachOf (by decide),by decide,by decide⟩
  beforeFree := by decide +kernel
  afterFree := by decide +kernel

theorem sampleHandOver :
    (readFunctions (extractUndefinedRefs sampleOutput.text)).Pairwise (· < ·) ∧
      ∀ name, name ∈ readFunctions (extractUndefinedRefs sampleOutput.text) ↔ name ∈ sampleOutput.names :=
  handOver (by decide +kernel)

end KernelTestTools.StubTool
