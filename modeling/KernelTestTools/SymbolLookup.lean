import KernelTestTools.ShellText

/-! How the test scripts find a kernel function before they load a module: grep and awk over
/proc/kallsyms with a check of the text found, and popen with fscanf in perf_event_open_test.c.
A line of a module's symbol ends in the module's name. -/
namespace KernelTestTools.SymbolLookup
open TextFile ShellText

abbrev Address := BitVec 64

structure Symbol where
  address : Address
  kind : Char
  name : Text
  module : Option Text
  kindVisible : blank kind = false
  nameWord : Word name
  moduleWord : ∀ m ∈ module, Word m

def addressText (a : Address) : Text := hexText 16 a.toNat

def moduleText : Option Text → Text
  | none => []
  | some m => '\t' :: '[' :: (m ++ [']'])

def symbolLine (s : Symbol) : Text :=
  addressText s.address ++ ' ' :: s.kind :: ' ' :: (s.name ++ moduleText s.module)

def kallsyms (symbols : List Symbol) : Text := symbols.flatMap (fun s => symbolLine s ++ ['\n'])

/- A name as the scripts write it into their patterns: the full stop is the only special
character of grep in it. -/
structure Wanted where
  name : Text
  plain : name.all (fun c => c.isAlphanum || c == '_' || c == '.') = true

def matchesAll : Text → Text → Bool
  | [],[] => true
  | p::ps,c::cs => (p == '.' || p == c) && matchesAll ps cs
  | _,_ => false

/- grep " name$" on one line. -/
def endsMatching (wanted line : Text) : Bool := line.tails.any (matchesAll (' ' :: wanted))

def grep (found : Text → Bool) (file : Text) : List Text := ((lines file).map lineText).filter found

/- name_address=$(cat /proc/kallsyms | grep " name$" | awk '{print $1}') -/
def funcAddress (wanted : Wanted) (file : Text) : Text :=
  joinedLines ((grep (endsMatching wanted.name) file).map firstField)

def zeroText : Text := "0000000000000000".toList

/- [ "$func_address" != "0000000000000000" ] && [ -n "$func_address" ] -/
def checkAddr (funcAddress : Text) : Bool := funcAddress != zeroText && funcAddress != []

structure Lookup where
  wanted : Wanted
  parameter : Text
  hexPrefix : Bool
  quoted : Bool
  parameterWord : Word parameter

def argumentFront (l : Lookup) : Text := l.parameter ++ '=' :: (if l.hexPrefix then "0x".toList else [])

def insmodWords (l : Lookup) (funcAddress : Text) : List Text :=
  if l.quoted then [argumentFront l ++ funcAddress] else splitWords (argumentFront l ++ funcAddress)

/- A script: all checks, then insmod with these arguments; none where it exits before. -/
def testScript (lookups : List Lookup) (file : Text) : Option (List Text) :=
  if lookups.all (fun l => checkAddr (funcAddress l.wanted file)) then
    some (lookups.flatMap (fun l => insmodWords l (funcAddress l.wanted file)))
  else none

/- test_perf_get_page_size.sh and test_cpuset_mems.sh -/
def perfGetPageSize : Lookup where
  wanted := ⟨"perf_get_page_size".toList,rfl⟩
  parameter := "addr1".toList
  hexPrefix := true
  quoted := false
  parameterWord := ⟨nofun,blankFree rfl⟩

def cpusetPrintMems : Lookup where
  wanted := ⟨"cpuset_print_current_mems_allowed".toList,rfl⟩
  parameter := "addr1".toList
  hexPrefix := true
  quoted := true
  parameterWord := ⟨nofun,blankFree rfl⟩

def cpusetMemPressure : Lookup where
  wanted := ⟨"__cpuset_memory_pressure_bump".toList,rfl⟩
  parameter := "addr2".toList
  hexPrefix := true
  quoted := true
  parameterWord := ⟨nofun,blankFree rfl⟩

def testPerfGetPageSize : Text → Option (List Text) := testScript [perfGetPageSize]
def testCpusetMems : Text → Option (List Text) := testScript [cpusetPrintMems,cpusetMemPressure]

def perfPmuResched : Text := "perf_pmu_resched".toList

/- The six characters of isspace. -/
def scanSpace (c : Char) : Bool := c == ' ' || (9 ≤ c.toNat && c.toNat ≤ 13)

/- fscanf(fp, "%lx", &addr1) of an address without sign and 0x. -/
def scanHex (s : Text) : Option Address :=
  let digits := (s.dropWhile scanSpace).takeWhile hexDigit
  if digits = [] then none else some (BitVec.ofNat 64 (hexValue digits))

/- perf_event_open_test.c: the address it loads the module with, read from the first line of
grep perf_pmu_resched. -/
def perfEventOpenTest (file : Text) : Option Address :=
  scanHex ((grep (fun l => perfPmuResched <:+: l) file).flatMap (· ++ ['\n']))

def owners (name : Text) (symbols : List Symbol) : List Symbol :=
  symbols.filter (fun s => s.module = none ∧ s.name = name ∧ s.address ≠ 0)

def argument (l : Lookup) (a : Address) : Text := argumentFront l ++ addressText a

def LoadsRight (lookups : List Lookup) (symbols : List Symbol) : Prop :=
  ∀ arguments, testScript lookups (kallsyms symbols) = some arguments →
    (∀ l ∈ lookups, (owners l.wanted.name symbols).length = 1) ∧
      arguments = lookups.flatMap (fun l => (owners l.wanted.name symbols).map (fun s => argument l s.address))

def matched (wanted : Wanted) (symbols : List Symbol) : List Symbol :=
  symbols.filter (fun s => endsMatching wanted.name (symbolLine s))

def CheckFails (wanted : Wanted) (symbols : List Symbol) : Prop :=
  matched wanted symbols = [] ∨ ∃ s, matched wanted symbols = [s] ∧ s.address = 0

def FoundOnce (wanted : Wanted) (symbols : List Symbol) : Prop :=
  ∃ s, matched wanted symbols = [s] ∧ s.module = none ∧ s.name = wanted.name

def OpenTestRight (symbols : List Symbol) : Prop :=
  ∀ a, perfEventOpenTest (kallsyms symbols) = some a →
    ∃ s, owners perfPmuResched symbols = [s] ∧ a = s.address

def containing (symbols : List Symbol) : List Symbol := symbols.filter (fun s => perfPmuResched <:+: symbolLine s)

def FirstIsOwn (symbols : List Symbol) : Prop :=
  ∃ s, owners perfPmuResched symbols = [s] ∧ ∃ first ∈ (containing symbols).head?, first.address = s.address

theorem matchesSelf (s : Text) : matchesAll s s = true := by
  induction s with
  | nil => rfl
  | cons c s ih => simp [matchesAll,ih]

theorem addressWord (a : Address) : Word (addressText a) := hexWord (by decide) _

theorem addressValue (a : Address) : hexValue (addressText a) = a.toNat := hexValueText a.isLt

theorem addressInjective {a b : Address} (same : addressText a = addressText b) : a = b := by
  have values := congrArg hexValue same
  rw [addressValue,addressValue] at values
  exact BitVec.eq_of_toNat_eq values

theorem zeroAddress {a : Address} : addressText a = zeroText ↔ a = 0 := by
  have zero : addressText 0 = zeroText := by decide
  rw [← zero]
  exact ⟨addressInjective,fun same => by rw [same]⟩

theorem symbolFirst (s : Symbol) : firstField (symbolLine s) = addressText s.address := by
  have word := addressWord s.address
  unfold symbolLine
  generalize addressText s.address = w at word ⊢
  have space : blank ' ' = true := rfl
  exact firstFieldWord word space _

theorem symbolLineWhole (s : Symbol) : '\n' ∉ symbolLine s := by
  have newline : blank '\n' = true := rfl
  have kind : s.kind ≠ '\n' := by
    intro same
    have visible := s.kindVisible
    rw [same] at visible
    cases visible
  have module : '\n' ∉ moduleText s.module := by
    cases here : s.module with
    | none => simp [moduleText]
    | some m =>
      have whole := blankAbsent newline (s.moduleWord m here).2
      simp [moduleText,whole]
  have address := blankAbsent newline (addressWord s.address).2
  have name := blankAbsent newline s.nameWord.2
  simp [symbolLine,address,name,module,Ne.symm kind]

theorem kallsymsLines (symbols : List Symbol) : (lines (kallsyms symbols)).map lineText = symbols.map symbolLine := by
  induction symbols with
  | nil => rfl
  | cons s symbols ih =>
    have step : kallsyms (s::symbols) = (symbolLine s ++ ['\n']) ++ kallsyms symbols := rfl
    rw [step,linesCons ⟨_,symbolLineWhole s,rfl⟩,List.map_cons,ih,lineTextBreak (symbolLineWhole s),List.map_cons]

theorem grepKallsyms (found : Text → Bool) (symbols : List Symbol) :
    grep found (kallsyms symbols) = (symbols.filter (fun s => found (symbolLine s))).map symbolLine := by
  rw [grep,kallsymsLines,List.filter_map]
  rfl

theorem funcAddressMatched (wanted : Wanted) (symbols : List Symbol) :
    funcAddress wanted (kallsyms symbols) =
      joinedLines ((matched wanted symbols).map (fun s => addressText s.address)) := by
  have fields (ss : List Symbol) :
      (ss.map symbolLine).map firstField = ss.map (fun s => addressText s.address) := by
    induction ss with
    | nil => rfl
    | cons s ss ih => simp only [List.map_cons,symbolFirst,ih]
  rw [funcAddress,grepKallsyms,fields,matched]

theorem ownMatched {wanted : Wanted} {s : Symbol} (core : s.module = none) (own : s.name = wanted.name) :
    endsMatching wanted.name (symbolLine s) = true := by
  have split : symbolLine s = (addressText s.address ++ [' ',s.kind]) ++ ' ' :: wanted.name := by
    simp [symbolLine,core,own,moduleText]
  rw [endsMatching,List.any_eq_true]
  refine ⟨' ' :: wanted.name,?_,matchesSelf _⟩
  rw [List.mem_tails,split]
  exact List.suffix_append _ _

theorem ownersMatched (wanted : Wanted) (symbols : List Symbol) : owners wanted.name symbols =
    (matched wanted symbols).filter (fun s => s.module = none ∧ s.name = wanted.name ∧ s.address ≠ 0) := by
  rw [matched,List.filter_filter,owners]
  refine List.filter_congr (fun s _ => ?_)
  by_cases own : s.module = none ∧ s.name = wanted.name ∧ s.address ≠ 0
  · rw [decide_eq_true own,ownMatched own.1 own.2.1]
    rfl
  · rw [decide_eq_false own]
    rfl

section
variable {wanted : Wanted} {symbols rest : List Symbol} {s : Symbol} {l : Lookup}

theorem checkIff : checkAddr (funcAddress wanted (kallsyms symbols)) = false ↔ CheckFails wanted symbols := by
  rw [funcAddressMatched,CheckFails]
  cases found : matched wanted symbols with
  | nil => simp [joinedLines,checkAddr]
  | cons s rest =>
    have some := (addressWord s.address).1
    cases rest with
    | nil =>
      simp [joinedOne,checkAddr,some,zeroAddress]
    | cons k rest =>
      rw [List.map_cons,List.map_cons,joinedCons]
      have longer : addressText s.address ++ '\n' :: joinedLines
          (addressText k.address::rest.map (fun s => addressText s.address)) ≠ zeroText := by
        intro same
        have inside : '\n' ∈ zeroText := by
          rw [← same]
          simp
        revert inside
        decide
      simp [checkAddr,longer]

theorem frontPlain (l : Lookup) : ∀ c ∈ argumentFront l, blank c = false := by
  have digits : ∀ c ∈ '=' :: (if l.hexPrefix then "0x".toList else []), blank c = false := by
    cases l.hexPrefix <;> exact blankFree rfl
  intro c mem
  rcases List.mem_append.mp mem with early | late
  · exact l.parameterWord.2 c early
  · exact digits c late

theorem wordsSingle (found : matched l.wanted symbols = s::rest) (a : Address) :
    insmodWords l (funcAddress l.wanted (kallsyms symbols)) = [argument l a] ↔ rest = [] ∧ s.address = a := by
  rw [funcAddressMatched,found,List.map_cons,insmodWords]
  split
  · rw [List.singleton_inj,argument,List.append_cancel_left_eq]
    cases rest with
    | nil =>
      rw [List.map_nil,joinedOne]
      simp only [true_and]
      exact ⟨addressInjective,fun same => by rw [same]⟩
    | cons k rest =>
      rw [List.map_cons,joinedCons]
      refine iff_of_false (fun same => ?_) (fun both => List.cons_ne_nil k rest both.1)
      have inside : '\n' ∈ addressText a := by
        rw [← same]
        simp
      exact blankAbsent rfl (addressWord a).2 inside
  · rw [splitWordsJoined (frontPlain l) (addressWord s.address) (by simp [addressWord]),argument]
    simp only [List.cons.injEq,List.append_cancel_left_eq,List.map_eq_nil_iff]
    exact ⟨fun both => ⟨both.2,addressInjective both.1⟩,fun both => ⟨by rw [both.2],both.1⟩⟩

theorem wordsSome (passes : ¬CheckFails l.wanted symbols) :
    insmodWords l (funcAddress l.wanted (kallsyms symbols)) ≠ [] := by
  obtain ⟨s,rest,found⟩ := List.exists_cons_of_ne_nil (fun empty => passes (.inl empty))
  rw [funcAddressMatched,found,List.map_cons,insmodWords]
  split
  · simp
  · rw [splitWordsJoined (frontPlain l) (addressWord s.address) (by simp [addressWord])]
    simp

end

theorem longerFlatMap {A B : Type} {f h : A → List B} {ls : List A}
    (longer : ∀ l ∈ ls, (h l).length ≤ (f l).length) : (ls.flatMap h).length ≤ (ls.flatMap f).length := by
  induction ls with
  | nil => exact Nat.le_refl 0
  | cons l ls ih =>
    have here := longer l List.mem_cons_self
    have rest := ih (fun k mem => longer k (List.mem_cons_of_mem l mem))
    rw [List.flatMap_cons,List.flatMap_cons,List.length_append,List.length_append]
    omega

theorem sameOfFlatMap {A B : Type} {f h : A → List B} {ls : List A}
    (longer : ∀ l ∈ ls, (h l).length ≤ (f l).length) (same : ls.flatMap f = ls.flatMap h) :
    ∀ l ∈ ls, f l = h l := by
  induction ls with
  | nil => simp
  | cons l ls ih =>
    have later : ∀ k ∈ ls, (h k).length ≤ (f k).length := fun k mem => longer k (List.mem_cons_of_mem l mem)
    rw [List.flatMap_cons,List.flatMap_cons] at same
    have lengths := congrArg List.length same
    rw [List.length_append,List.length_append] at lengths
    have first := longer l List.mem_cons_self
    have rest := longerFlatMap later
    obtain ⟨here,behind⟩ := List.append_inj same (by omega)
    intro k mem
    rcases List.mem_cons.mp mem with rfl | inside
    · exact here
    · exact ih later behind k inside

theorem testScriptLoads {lookups : List Lookup} {symbols : List Symbol} {arguments : List Text} :
    testScript lookups (kallsyms symbols) = some arguments ↔
      (∀ l ∈ lookups, ¬CheckFails l.wanted symbols) ∧
        lookups.flatMap (fun l => insmodWords l (funcAddress l.wanted (kallsyms symbols))) = arguments := by
  unfold testScript
  have checks : (lookups.all (fun l => checkAddr (funcAddress l.wanted (kallsyms symbols))) = true) ↔
      ∀ l ∈ lookups, ¬CheckFails l.wanted symbols := by
    simp only [List.all_eq_true,← checkIff,Bool.not_eq_false]
  simp only [checks,Option.ite_none_right_eq_some,Option.some.injEq]

theorem ownersOnce {wanted : Wanted} {symbols : List Symbol} (once : FoundOnce wanted symbols)
    (passes : ¬CheckFails wanted symbols) :
    ∃ s, owners wanted.name symbols = [s] ∧ matched wanted symbols = [s] := by
  obtain ⟨s,found,core,own⟩ := once
  have address : s.address ≠ 0 := fun zero => passes (.inr ⟨s,found,zero⟩)
  refine ⟨s,?_,found⟩
  rw [ownersMatched,found,List.filter_eq_self]
  intro k mem
  rw [List.mem_singleton.mp mem]
  exact decide_eq_true ⟨core,own,address⟩

theorem ownerFoundOnce {symbols : List Symbol} {l : Lookup} {o : Symbol} (passes : ¬CheckFails l.wanted symbols)
    (single : owners l.wanted.name symbols = [o])
    (words : insmodWords l (funcAddress l.wanted (kallsyms symbols)) = [argument l o.address]) :
    FoundOnce l.wanted symbols := by
  obtain ⟨s,rest,found⟩ := List.exists_cons_of_ne_nil (fun empty => passes (.inl empty))
  obtain ⟨rfl,_⟩ := (wordsSingle found o.address).mp words
  have owner : o ∈ owners l.wanted.name symbols := by simp [single]
  rw [ownersMatched,found,List.mem_filter,List.mem_singleton] at owner
  obtain ⟨rfl,own⟩ := owner
  have own := of_decide_eq_true own
  exact ⟨o,found,own.1,own.2.1⟩

theorem loadsRightIff (lookups : List Lookup) (symbols : List Symbol) : LoadsRight lookups symbols ↔
    (∃ l ∈ lookups, CheckFails l.wanted symbols) ∨ ∀ l ∈ lookups, FoundOnce l.wanted symbols := by
  constructor
  · intro right
    by_cases fails : ∃ l ∈ lookups, CheckFails l.wanted symbols
    · exact .inl fails
    right
    have passes : ∀ l ∈ lookups, ¬CheckFails l.wanted symbols := fun l mem failed => fails ⟨l,mem,failed⟩
    obtain ⟨one,same⟩ := right _ (testScriptLoads.mpr ⟨passes,rfl⟩)
    have longer : ∀ l ∈ lookups, ((owners l.wanted.name symbols).map (fun s => argument l s.address)).length ≤
        (insmodWords l (funcAddress l.wanted (kallsyms symbols))).length := by
      intro l mem
      rw [List.length_map,one l mem]
      exact List.length_pos_iff.mpr (wordsSome (passes l mem))
    intro l mem
    obtain ⟨o,single⟩ := List.length_eq_one_iff.mp (one l mem)
    have words := sameOfFlatMap longer same l mem
    rw [single,List.map_singleton] at words
    exact ownerFoundOnce (passes l mem) single words
  · intro either arguments ran
    obtain ⟨passes,rfl⟩ := testScriptLoads.mp ran
    rcases either with ⟨l,mem,fails⟩ | once
    · exact absurd fails (passes l mem)
    refine ⟨fun l mem => ?_,List.flatMap_congr (fun l mem => ?_)⟩
    · obtain ⟨s,single,_⟩ := ownersOnce (once l mem) (passes l mem)
      rw [single,List.length_singleton]
    · obtain ⟨s,single,found⟩ := ownersOnce (once l mem) (passes l mem)
      rw [single,(wordsSingle found s.address).mpr ⟨rfl,rfl⟩,List.map_singleton]

theorem digitNotSpace {c : Char} (digit : hexDigit c = true) : scanSpace c = false := by
  cases space : scanSpace c with
  | false => rfl
  | true =>
    have blank : c ≠ ' ' := by
      rintro rfl
      cases digit
    unfold scanSpace at space
    unfold hexDigit at digit
    simp only [Bool.or_eq_true,Bool.and_eq_true,decide_eq_true_eq,beq_iff_eq,blank,false_or] at space digit
    omega

theorem scanHexWord {w : Text} {c : Char} (some' : w ≠ []) (digits : ∀ d ∈ w, hexDigit d = true)
    (stop : hexDigit c = false) (rest : Text) :
    scanHex (w ++ c::rest) = some (BitVec.ofNat 64 (hexValue w)) := by
  have whole : (w ++ c::rest).takeWhile hexDigit = w := by
    rw [List.takeWhile_append_of_pos digits,List.takeWhile_cons_of_neg (by simp [stop]),List.append_nil]
  obtain ⟨d,w,rfl⟩ := List.exists_cons_of_ne_nil some'
  have first := digitNotSpace (digits d List.mem_cons_self)
  unfold scanHex
  rw [List.cons_append,List.dropWhile_cons_of_neg (by simp [first]),← List.cons_append,whole]
  rfl

theorem scanSymbol (s : Symbol) (rest : Text) : scanHex (symbolLine s ++ rest) = some s.address := by
  have digits : ∀ c ∈ addressText s.address, hexDigit c = true := hexTextDigits
  have nonempty := (addressWord s.address).1
  have value := addressValue s.address
  unfold symbolLine
  generalize addressText s.address = w at digits nonempty value ⊢
  rw [List.append_assoc,List.cons_append,scanHexWord nonempty digits (by decide),value,BitVec.ofNat_toNat,
    BitVec.setWidth_eq]

theorem openTestReads (symbols : List Symbol) :
    perfEventOpenTest (kallsyms symbols) = (containing symbols).head?.map (·.address) := by
  rw [perfEventOpenTest,grepKallsyms]
  unfold containing
  cases (symbols.filter (fun s => perfPmuResched <:+: symbolLine s)) with
  | nil => rfl
  | cons s rest =>
    rw [List.map_cons,List.flatMap_cons,List.append_assoc,scanSymbol]
    rfl

theorem openTestRightIff (symbols : List Symbol) :
    OpenTestRight symbols ↔ containing symbols = [] ∨ FirstIsOwn symbols := by
  unfold OpenTestRight FirstIsOwn
  rw [openTestReads]
  cases containing symbols with
  | nil => simp
  | cons first rest =>
    simp only [List.head?_cons,Option.map_some,Option.some.injEq,Option.mem_def,reduceCtorEq,false_or,
      forall_eq',exists_eq_left']

theorem loadsOwnAddressExactly (lookups : List Lookup) (symbols : List Symbol) :
    (LoadsRight lookups symbols ↔
      (∃ l ∈ lookups, CheckFails l.wanted symbols) ∨ ∀ l ∈ lookups, FoundOnce l.wanted symbols) ∧
    (OpenTestRight symbols ↔ containing symbols = [] ∨ FirstIsOwn symbols) :=
  ⟨loadsRightIff lookups symbols,openTestRightIff symbols⟩

theorem perfGetPageSizeWord : Word "perf_get_page_size".toList := ⟨nofun,blankFree rfl⟩
theorem perfPmuReschedWord : Word perfPmuResched := ⟨nofun,blankFree rfl⟩

def pageSizes : List Symbol :=
  [⟨0xffffffff81200000,'t',"perf_get_page_size".toList,none,rfl,perfGetPageSizeWord,nofun⟩,
    ⟨0xffffffff81300000,'t',"perf_get_page_size".toList,none,rfl,perfGetPageSizeWord,nofun⟩]

def hiddenResched : List Symbol := [⟨0,'T',perfPmuResched,none,rfl,perfPmuReschedWord,nofun⟩]

theorem loadsOtherwise :
    testPerfGetPageSize (kallsyms pageSizes) =
        some ["addr1=0xffffffff81200000".toList,"ffffffff81300000".toList] ∧
      ¬LoadsRight [perfGetPageSize] pageSizes ∧
      perfEventOpenTest (kallsyms hiddenResched) = some 0 ∧ ¬OpenTestRight hiddenResched := by
  have loads : testPerfGetPageSize (kallsyms pageSizes) =
      some ["addr1=0xffffffff81200000".toList,"ffffffff81300000".toList] := by decide
  have reads : perfEventOpenTest (kallsyms hiddenResched) = some 0 := by decide
  refine ⟨loads,fun right => ?_,reads,fun right => ?_⟩
  · have two := (right _ loads).1 perfGetPageSize List.mem_cons_self
    revert two
    decide
  · obtain ⟨s,owner,_⟩ := right _ reads
    have empty : owners perfPmuResched hiddenResched = [] := by decide
    rw [empty] at owner
    cases owner

end KernelTestTools.SymbolLookup
