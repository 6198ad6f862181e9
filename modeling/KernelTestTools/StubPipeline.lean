import KernelTestTools.StubInsertion
import KernelTestTools.FileTree

/-! run_all_py.sh over a directory tree: find and glob choose the environment, extract_undef.py
ends with an exit status for each failure, Insert_stub.py swallows its own. -/
namespace KernelTestTools.StubTool
open TextFile Regex FileTree

abbrev Status := Nat

def envSuffix : Text := ".env".toList

/- "${x%suffix}" -/
def withoutSuffix (suffix x : Text) : Text := if suffix <:+ x then x.take (x.length - suffix.length) else x

/- os.path.splitext(name)[0] of a name without a slash. -/
def splitext (name : Name) : Name :=
  let root := (name.rdropWhile (· != '.')).dropLast
  if '.' ∈ name ∧ root.any (· != '.') then root else name

def foundPath (p : Location) : Text := dot ++ p.flatMap (fun n => '/' :: n)

def IsFile (t : Tree) (p : Location) : Prop := (fileOf (t.node p)).isSome

/- What find . -type f -name "*.env" and glob.glob("*.env") list, each in an order of its own. -/
structure Listing (t : Tree) where
  find : List Location
  glob : List Name
  findExact : ∀ p, p ∈ find ↔ IsFile t (t.cwd ++ p) ∧ ∃ n ∈ p.getLast?, envSuffix <:+ n
  globExact : ∀ n, n ∈ glob ↔ (t.node (t.cwd ++ [n])).isSome ∧ envSuffix <:+ n ∧ n.head? ≠ some '.'
  once : find.Nodup ∧ glob.Nodup

/- ENV_NAME: the first line that find prints, without its suffix. -/
def envName {t : Tree} (l : Listing t) : Option Text :=
  l.find.head?.map (fun p => withoutSuffix envSuffix ((foundPath p).takeWhile (· != '\n')))

def linkerOutputPath (env : Text) : Text := env ++ '/' :: (env ++ "_linker_output.txt".toList)
def auxPath (env : Text) : Text := env ++ '/' :: "ENVIRO.AUX".toList
def functionsPath : Text := "undefined_functions.txt".toList

/- extract_undef.py: every exception ends in sys.exit(1). -/
def extractUndef (param : Text) (t : Tree) : Status × Tree := match readText t param with
  | none => (1,t)
  | some output => match writeText t functionsPath (extractUndefinedRefs output) with
    | none => (1,t)
    | some t' => (0,t')

def getEnvironmentName (glob : List Name) : Option Name := glob.head?.map splitext

/- The body of the try block; none where it raises, or finds no anchor line. -/
def insertInto (env : Name) (t : Tree) : Option Tree := do
  let functions ← readText t functionsPath
  let aux ← readText t (auxPath env)
  if (insertPosition (lines (universalNewlines aux))).isSome then
    writeText t (auxPath env) (insertFunctionsAfterLibraryStubs functions aux)
  else none

/- Insert_stub.py: each failure is a message, and the program ends as usual. -/
def insertStub (glob : List Name) (t : Tree) : Status × Tree := match getEnvironmentName glob with
  | none => (0,t)
  | some env => match insertInto env t with
    | none => (0,t)
    | some t' => (0,t')

def runAllPyScript {t : Tree} (l : Listing t) : Status × Tree := match envName l with
  | none => (1,t)
  | some env =>
    let extracted := extractUndef (linkerOutputPath env) t
    if extracted.1 ≠ 0 then (1,extracted.2)
    else
      let inserted := insertStub l.glob extracted.2
      if inserted.1 ≠ 0 then (1,inserted.2) else (0,inserted.2)

def Undefined (t : Tree) (env f : Text) : Prop :=
  SymbolName f ∧ ∃ output, readText t (linkerOutputPath env) = some output ∧
    f ∈ findall undefinedPattern 1 (universalNewlines output)

def HasStub (t : Tree) (env f : Text) : Prop :=
  ∃ aux, fileAt t (auxPath env) = some aux ∧ additionalStub ++ f ∈ lineTexts aux.text

def ReportsFailure {t : Tree} (l : Listing t) : Prop :=
  (runAllPyScript l).1 = 0 → ∃ env, envName l = some env ∧
    ∀ f, Undefined t env f → HasStub (runAllPyScript l).2 env f

structure Reaches {t : Tree} (l : Listing t) (env : Text) (aux : File) : Prop where
  chosen : ∃ name, getEnvironmentName l.glob = some name ∧
    resolve t.cwd (auxPath name) = resolve t.cwd (auxPath env)
  functions : (fileAt t functionsPath).elim true File.readable = true
  found : fileAt t (auxPath env) = some aux
  allowed : aux.readable = true ∧ aux.decodable = true ∧ aux.writable = true
  anchored : ¬ AnchorFree aux.text

/- The line of a function survives an anchor line that is the last and has no line break: it
stands in front of it, comes behind the first stub, or is what the first stub makes of it. -/
def Lands (aux : Text) (functions : List Text) (f : Text) : Prop :=
  ∀ front anchor back, Anchored (lines (universalNewlines aux)) front back anchor →
    Terminated anchor ∨ additionalStub ++ f ∈ front.map lineText ∨ f ∈ functions.tail ∨
      anchor ++ additionalStub ++ functions.headD [] = additionalStub ++ f

structure Extracts (t : Tree) (env output : Text) : Prop where
  read : readText t (linkerOutputPath env) = some output
  writable : WritableAt t (resolve t.cwd functionsPath)

def Delivered {t : Tree} (l : Listing t) (env output f : Text) : Prop :=
  (∃ aux, Reaches l env aux ∧ Lands aux.text (readFunctions (extractUndefinedRefs output)) f) ∨
    (¬ ∃ aux, Reaches l env aux) ∧ HasStub t env f

theorem auxApart (cwd : Location) (env : Text) : resolve cwd (auxPath env) ≠ resolve cwd functionsPath := by
  have aux : ValidName "ENVIRO.AUX".toList := by decide
  have functions : ValidName functionsPath := by decide
  rw [auxPath,resolveJoin,resolveName _ aux,resolveName _ functions]
  intro same
  have last := (List.append_inj' same rfl).2
  revert last
  decide

theorem readMember {names : List Text} {f : Text} (clean : ∀ name ∈ names, '\r' ∉ name) (mem : f ∈ names)
    (oneLine : '\n' ∉ f) (trimmed : strip f = f) : f ∈ readFunctions (names.flatMap (· ++ ['\n'])) := by
  have free : '\r' ∉ names.flatMap (· ++ ['\n']) := by
    intro inside
    obtain ⟨name,listed,here⟩ := List.mem_flatMap.mp inside
    simp only [List.mem_append,List.mem_singleton] at here
    rcases here with early | late
    · exact clean name listed early
    · cases late
  obtain ⟨before,after,rfl⟩ := List.append_of_mem mem
  have ends : before.flatMap (· ++ ['\n']) = [] ∨ ['\n'] <:+ before.flatMap (· ++ ['\n']) := by
    rcases List.eq_nil_or_concat before with rfl | ⟨init,last,rfl⟩
    · exact .inl rfl
    · right
      rw [List.concat_eq_append,List.flatMap_append,List.flatMap_singleton,← List.append_assoc]
      exact List.suffix_append _ _
  have whole : ∀ l ∈ lines (before.flatMap (· ++ ['\n'])), Terminated l := by
    rcases ends with none | last
    · rw [none]
      simp
    · exact linesTerminated last
  have split := linesFlatten whole ((f::after).flatMap (· ++ ['\n']))
  rw [linesJoin,← List.flatMap_append,List.flatMap_cons,List.append_assoc,List.singleton_append,
    linesAppendBreak oneLine] at split
  rw [readFunctions,noReturnUnchanged free,split]
  refine List.mem_map.mpr ⟨f ++ ['\n'],by simp,?_⟩
  rw [stripBreak,trimmed]

theorem undefinedRead {output f : Text} (symbol : SymbolName f)
    (mem : f ∈ findall undefinedPattern 1 (universalNewlines output)) :
    f ∈ readFunctions (extractUndefinedRefs output) := by
  refine readMember (fun name listed feed => ?_) ?_ symbol.oneLine.1 symbol.trimmed
  · rw [Finset.mem_sort,List.mem_toFinset] at listed
    exact universalNoReturn output (findallInside undefinedPattern 1 _ name listed feed)
  · rwa [Finset.mem_sort,List.mem_toFinset]

theorem landsIff {file aux f : Text} (anchored : ¬ AnchorFree aux) (mem : f ∈ readFunctions file) :
    additionalStub ++ f ∈ lineTexts (insertFunctionsAfterLibraryStubs file aux) ↔
      Lands aux (readFunctions file) f := by
  have each : ∀ front anchor back, Anchored (lines (universalNewlines aux)) front back anchor →
      (additionalStub ++ f ∈ lineTexts (insertFunctionsAfterLibraryStubs file aux) ↔
        Terminated anchor ∨ additionalStub ++ f ∈ front.map lineText ∨ f ∈ (readFunctions file).tail ∨
          anchor ++ additionalStub ++ (readFunctions file).headD [] = additionalStub ++ f) := by
    intro front anchor back at'
    by_cases line : Terminated anchor
    · refine iff_of_true ?_ (.inl line)
      rw [anchorEndsTexts rfl at' line]
      exact List.mem_append_left _ (List.mem_append_right _ (List.mem_map_of_mem mem))
    · obtain ⟨g,functions,read⟩ := List.exists_cons_of_ne_nil (List.ne_nil_of_mem mem)
      obtain ⟨_,whole,_⟩ := anchorOpenLast at' line
      have oneLine : ∀ h ∈ g::functions, OneLine h := read ▸ readOneLine
      have front' : '\n' ∉ additionalStub := by decide
      have first : lineText (anchor ++ stubLine g) = anchor ++ additionalStub ++ g := by
        rw [stubLine,← List.append_assoc,← List.append_assoc]
        exact lineTextBreak (by simp [whole,front',(oneLine g List.mem_cons_self).1])
      have rest := stubTexts (fun h mem => oneLine h (List.mem_cons_of_mem _ mem))
      have others : additionalStub ++ f ∈ functions.map (additionalStub ++ ·) ↔ f ∈ functions :=
        List.mem_map_of_injective (List.append_right_injective additionalStub)
      rw [lineTexts,anchorOpenLines read at' line,read]
      simp only [List.map_append,List.map_cons,first,rest,List.mem_append,List.mem_cons,others,line,
        List.tail_cons,List.headD_cons,false_or]
      rw [or_congr_right (or_comm),@eq_comm _ (additionalStub ++ f)]
  obtain ⟨front,anchor,back,at'⟩ := anchorExists anchored
  constructor
  · exact fun here front anchor back at' => (each front anchor back at').mp here
  · exact fun lands => (each front anchor back at').mpr (lands front anchor back at')

section
variable {t : Tree} {l : Listing t} {env output : Text}

theorem extractSucceeds (extracts : Extracts t env output) : ∃ t', extractUndef (linkerOutputPath env) t = (0,t') ∧
    writeText t functionsPath (extractUndefinedRefs output) = some t' := by
  obtain ⟨t',wrote⟩ := Option.isSome_iff_exists.mp (@writeTextIff t functionsPath
    (extractUndefinedRefs output) |>.mpr extracts.writable)
  refine ⟨t',?_,wrote⟩
  simp only [extractUndef,extracts.read,wrote]

theorem extractFails (none : ¬ ∃ output, Extracts t env output) : (extractUndef (linkerOutputPath env) t).1 = 1 := by
  unfold extractUndef
  split
  · rfl
  · rename_i output read
    split
    · rfl
    · rename_i t' wrote
      refine absurd ⟨output,read,?_⟩ none
      have some := @writeTextIff t functionsPath (extractUndefinedRefs output)
      rw [wrote] at some
      exact some.mp rfl

theorem insertSucceeds (glob : List Name) (t : Tree) : insertStub glob t =
    (0,((getEnvironmentName glob).bind (fun env => insertInto env t)).getD t) := by
  unfold insertStub
  cases getEnvironmentName glob with
  | none => rfl
  | some env =>
    simp only [Option.bind_some]
    cases insertInto env t <;> rfl

theorem scriptSucceeds {t' : Tree} (named : envName l = some env)
    (extracted : extractUndef (linkerOutputPath env) t = (0,t')) :
    runAllPyScript l = (0,((getEnvironmentName l.glob).bind (fun env => insertInto env t')).getD t') := by
  simp only [runAllPyScript,named,extracted,insertSucceeds]
  rfl

theorem scriptFails (named : envName l = some env) (none : ¬ ∃ output, Extracts t env output) :
    (runAllPyScript l).1 = 1 := by
  simp only [runAllPyScript,named,extractFails none]
  rfl

end

section
variable {t t' : Tree} {l : Listing t} {env : Text} {functionsFile : Text}

theorem insertIntoExactly {t final : Tree} {env : Text} : insertInto env t = some final ↔ ∃ functions aux,
    readText t functionsPath = some functions ∧ readText t (auxPath env) = some aux ∧ ¬ AnchorFree aux ∧
      writeText t (auxPath env) (insertFunctionsAfterLibraryStubs functions aux) = some final := by
  unfold insertInto
  constructor
  · intro inserted
    obtain ⟨functions,first,inserted⟩ := Option.bind_eq_some_iff.mp inserted
    obtain ⟨aux,second,inserted⟩ := Option.bind_eq_some_iff.mp inserted
    split at inserted
    · rename_i placed
      refine ⟨functions,aux,first,second,fun free => ?_,inserted⟩
      rw [anchorFreePosition.mpr free] at placed
      cases placed
    · cases inserted
  · intro all
    obtain ⟨functions,aux,first,second,anchored,wrote⟩ := all
    have placed : (insertPosition (lines (universalNewlines aux))).isSome := by
      rw [Option.isSome_iff_ne_none]
      exact fun none => anchored (anchorFreePosition.mp none)
    rw [first,second]
    simp only [bind,Option.bind,placed,if_true]
    exact wrote

theorem insertReaches {aux : File} (wrote : writeText t functionsPath functionsFile = some t')
    (reaches : Reaches l env aux) : ∃ final,
      (getEnvironmentName l.glob).bind (fun env => insertInto env t') = some final ∧
        ∃ file, fileAt final (auxPath env) = some file ∧
          file.text = insertFunctionsAfterLibraryStubs functionsFile aux.text := by
  obtain ⟨⟨name,chosen,same⟩,readable,found,⟨read,decodes,writes⟩,anchored⟩ := reaches
  have cwd := writeKeepsCwd wrote
  have functions : readText t' functionsPath = some functionsFile := by
    rw [readWrittenText wrote,readable,if_pos rfl]
  have there : fileAt t' (auxPath name) = some aux := by
    rw [fileAt,cwd,same,← cwd]
    exact (fileElsewhere wrote (auxApart _ _)).trans found
  have text : readText t' (auxPath name) = some aux.text := by
    rw [readText,there,Option.bind_some,read,decodes]
    rfl
  obtain ⟨final,last⟩ := Option.isSome_iff_exists.mp ((@writeTextIff t' (auxPath name)
    (insertFunctionsAfterLibraryStubs functionsFile aux.text)).mpr ((writableFile there).mpr writes))
  obtain ⟨file,written,text',_⟩ := writtenFile last
  refine ⟨final,?_,file,?_,text'⟩
  · rw [chosen,Option.bind_some]
    exact insertIntoExactly.mpr ⟨functionsFile,aux.text,functions,text,anchored,last⟩
  · rw [fileAt,writeKeepsCwd last,cwd] at written ⊢
    rwa [← same]

theorem insertedReaches {final : Tree} {name : Name} (wrote : writeText t functionsPath functionsFile = some t')
    (chosen : getEnvironmentName l.glob = some name) (inserted : insertInto name t' = some final)
    (same : resolve t.cwd (auxPath name) = resolve t.cwd (auxPath env)) : ∃ aux, Reaches l env aux := by
  have before := fileElsewhere wrote (auxApart t.cwd env)
  have cwd := writeKeepsCwd wrote
  obtain ⟨functions,text,first,second,anchored,last⟩ := insertIntoExactly.mp inserted
  obtain ⟨aux,found,readable,decodes,rfl⟩ := readTextFile second
  have here : fileAt t (auxPath env) = some aux := by
    rw [← before,fileAt,cwd,← same,← cwd]
    exact found
  have functionsReadable : (fileAt t functionsPath).elim true File.readable = true := by
    rw [readWrittenText wrote] at first
    split at first
    · assumption
    · cases first
  have writable := (@writeTextIff t' (auxPath name)
    (insertFunctionsAfterLibraryStubs functions aux.text)).mp (by rw [last]; rfl)
  exact ⟨aux,⟨name,chosen,same⟩,functionsReadable,here,
    ⟨readable,decodes,(writableFile found).mp writable⟩,anchored⟩

theorem insertMisses (wrote : writeText t functionsPath functionsFile = some t')
    (none : ¬ ∃ aux, Reaches l env aux) :
    fileAt (((getEnvironmentName l.glob).bind (fun env => insertInto env t')).getD t') (auxPath env) =
      fileAt t (auxPath env) := by
  have before := fileElsewhere wrote (auxApart t.cwd env)
  have cwd := writeKeepsCwd wrote
  cases inserted : (getEnvironmentName l.glob).bind (fun env => insertInto env t') with
  | none => exact before
  | some final =>
    obtain ⟨name,chosen,inserted⟩ := Option.bind_eq_some_iff.mp inserted
    obtain ⟨_,_,_,_,_,last⟩ := insertIntoExactly.mp inserted
    by_cases same : resolve t.cwd (auxPath name) = resolve t.cwd (auxPath env)
    · exact absurd (insertedReaches wrote chosen inserted same) none
    · have apart : resolve t'.cwd (auxPath env) ≠ resolve t'.cwd (auxPath name) := by
        rw [cwd]
        exact fun h => same h.symm
      exact (fileElsewhere last apart).trans before

end

section
variable {t : Tree} {l : Listing t} {env output : Text}

theorem reachesSame {aux aux' : File} (reaches : Reaches l env aux) (reaches' : Reaches l env aux') : aux = aux' :=
  Option.some.inj (reaches.found.symm.trans reaches'.found)

theorem stubDelivered {f : Text} (named : envName l = some env) (extracts : Extracts t env output)
    (symbol : SymbolName f) (mem : f ∈ findall undefinedPattern 1 (universalNewlines output)) :
    HasStub (runAllPyScript l).2 env f ↔ Delivered l env output f := by
  obtain ⟨t',extracted,wrote⟩ := extractSucceeds extracts
  rw [scriptSucceeds named extracted]
  by_cases some : ∃ aux, Reaches l env aux
  · obtain ⟨aux,reaches⟩ := some
    obtain ⟨final,inserted,file,here,text⟩ := insertReaches wrote reaches
    rw [inserted,Option.getD_some,Delivered]
    have lands := landsIff reaches.anchored (undefinedRead symbol mem)
    constructor
    · intro stub
      obtain ⟨file',there,line⟩ := stub
      rw [here] at there
      cases there
      rw [text] at line
      exact .inl ⟨aux,reaches,lands.mp line⟩
    · intro delivered
      rcases delivered with ⟨aux',reaches',line⟩ | ⟨none,_⟩
      · rw [reachesSame reaches' reaches] at line
        exact ⟨file,here,by rw [text]; exact lands.mpr line⟩
      · exact absurd ⟨aux,reaches⟩ none
  · rw [HasStub,insertMisses wrote some,Delivered]
    constructor
    · exact fun stub => .inr ⟨some,stub⟩
    · intro delivered
      rcases delivered with ⟨aux,reaches,_⟩ | ⟨_,stub⟩
      · exact absurd ⟨aux,reaches⟩ some
      · exact stub

end

theorem reportsFailureExactly (t : Tree) (l : Listing t) : ReportsFailure l ↔
    ∀ env, envName l = some env → ∀ output, Extracts t env output →
      ∀ f, Undefined t env f → Delivered l env output f := by
  constructor
  · intro reports env named output extracts f undefined
    obtain ⟨symbol,output',read,mem⟩ := undefined
    cases extracts.read.symm.trans read
    obtain ⟨t',extracted,wrote⟩ := extractSucceeds extracts
    have ended : (runAllPyScript l).1 = 0 := by rw [scriptSucceeds named extracted]
    obtain ⟨env',named',stubs⟩ := reports ended
    cases named.symm.trans named'
    exact (stubDelivered named extracts symbol mem).mp (stubs f ⟨symbol,output,read,mem⟩)
  · intro delivered ended
    cases named : envName l with
    | none =>
      rw [runAllPyScript,named] at ended
      cases ended
    | some env =>
      refine ⟨env,rfl,fun f undefined => ?_⟩
      obtain ⟨symbol,output,read,mem⟩ := undefined
      by_cases some : ∃ output, Extracts t env output
      · obtain ⟨output',extracts⟩ := some
        cases extracts.read.symm.trans read
        exact (stubDelivered named extracts symbol mem).mpr
          (delivered env named output extracts f ⟨symbol,output,read,mem⟩)
      · rw [scriptFails named some] at ended
        cases ended

def plainFile (text : Text) : Node := .file ⟨text,true,true,true⟩

theorem filePresent {t : Tree} {p : Location} (file : IsFile t p) : (t.node p).isSome := by
  unfold IsFile fileOf at file
  split at file
  · rename_i f node
    rw [node]
    rfl
  · cases file

section
variable {entries : List (Location × Node)} {list : EntryList [] entries}

theorem entriesFound {found : List Location}
    (each : ∀ p ∈ found, (fileOf (entryAt entries p)).isSome ∧ ∃ n ∈ p.getLast?, envSuffix <:+ n)
    (all : ∀ e ∈ entries, (fileOf (entryAt entries e.1)).isSome →
      (∃ n ∈ e.1.getLast?, envSuffix <:+ n) → e.1 ∈ found) (p : Location) :
    p ∈ found ↔ IsFile (treeOf [] entries list) ([] ++ p) ∧ ∃ n ∈ p.getLast?, envSuffix <:+ n := by
  constructor
  · exact each p
  · intro both
    obtain ⟨e,listed,rfl⟩ := entryListed (filePresent both.1)
    exact all e listed both.1 both.2

theorem entriesGlobbed {globbed : List Name}
    (each : ∀ n ∈ globbed, (entryAt entries [n]).isSome ∧ envSuffix <:+ n ∧ n.head? ≠ some '.')
    (all : ∀ e ∈ entries, ∀ n ∈ e.1.head?, envSuffix <:+ n → n ∈ globbed) (n : Name) :
    n ∈ globbed ↔ ((treeOf [] entries list).node ([] ++ [n])).isSome ∧ envSuffix <:+ n ∧ n.head? ≠ some '.' := by
  constructor
  · exact each n
  · intro shown
    obtain ⟨e,listed,same⟩ := entryListed shown.1
    exact all e listed n (by rw [same]; rfl) shown.2.1

end

def unanchoredEntries : List (Location × Node) :=
  [([],.dir true),(["HAL1.env".toList],plainFile []),(["HAL1".toList],.dir true),
    (["HAL1".toList,"HAL1_linker_output.txt".toList],plainFile singleOutput.text),
    (["HAL1".toList,"ENVIRO.AUX".toList],plainFile "ENVIRO.NEW\nENVIRO.END\n".toList)]

theorem unanchoredList : EntryList [] unanchoredEntries := ⟨by decide,by decide,by decide⟩

def unanchoredTree : Tree := treeOf [] unanchoredEntries unanchoredList

theorem unanchoredFound (p : Location) : p ∈ [["HAL1.env".toList]] ↔
    IsFile unanchoredTree ([] ++ p) ∧ ∃ n ∈ p.getLast?, envSuffix <:+ n :=
  entriesFound (by decide) (by decide) p

theorem unanchoredGlobbed (n : Name) : n ∈ ["HAL1.env".toList] ↔
    (unanchoredTree.node ([] ++ [n])).isSome ∧ envSuffix <:+ n ∧ n.head? ≠ some '.' :=
  entriesGlobbed (by decide) (by decide) n

def unanchoredListing : Listing unanchoredTree where
  find := [["HAL1.env".toList]]
  glob := ["HAL1.env".toList]
  findExact := unanchoredFound
  globExact := unanchoredGlobbed
  once := ⟨List.nodup_singleton _,List.nodup_singleton _⟩

theorem silentSuccess : ¬ ReportsFailure unanchoredListing := by
  intro reports
  have ended : (runAllPyScript unanchoredListing).1 = 0 := by decide +kernel
  have left : fileAt (runAllPyScript unanchoredListing).2 (auxPath "./HAL1".toList) =
      some ⟨"ENVIRO.NEW\nENVIRO.END\n".toList,true,true,true⟩ := by decide +kernel
  have named : envName unanchoredListing = some "./HAL1".toList := by decide
  have undefined : Undefined unanchoredTree "./HAL1".toList "vfree".toList :=
    ⟨⟨by decide,eachOf (by decide),by decide,by decide⟩,singleOutput.text,by decide +kernel,by decide +kernel⟩
  obtain ⟨env,named',stubs⟩ := reports ended
  cases named.symm.trans named'
  obtain ⟨aux,found,line⟩ := stubs "vfree".toList undefined
  rw [left] at found
  cases found
  revert line
  decide

end KernelTestTools.StubTool
