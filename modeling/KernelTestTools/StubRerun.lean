import KernelTestTools.StubTool

/-! The one-click script over the same linker output, again and again. Nothing compares the
stubs with the lines that are in ENVIRO.AUX already, so each run inserts the whole block
behind the anchor line once more. -/
namespace KernelTestTools.StubTool
open TextFile Regex

/- run_all_py.sh: extract_undef.py on the linker output, then Insert_stub.py. -/
def runAllPy (output aux : Text) : Text :=
  insertFunctionsAfterLibraryStubs (extractUndefinedRefs output) aux

def rerun (output : Text) : Nat → Text → Text
  | 0,aux => aux
  | m+1,aux => runAllPy output (rerun output m aux)

structure FreshAux (aux : Text) : Prop where
  anchored : ∃ l ∈ lines (universalNewlines aux), libraryStubs <:+: l ∧ Terminated l
  stubFree : ∀ l ∈ lines (universalNewlines aux), ¬ additionalStub <+: l

def Rerunnable (output aux : Text) (names : List Text) (m : Nat) : Prop :=
  (∀ f ∈ names, (lines (universalNewlines (rerun output m aux))).count (stubLine f) = 1) ∧
    rerun output m aux = rerun output 1 aux

structure Anchored (ls front back : List Text) (anchor : Text) : Prop where
  split : ls = front ++ anchor::back
  first : ∀ l ∈ front, ¬ libraryStubs <:+: l
  anchor : libraryStubs <:+: anchor

theorem anchoredPosition {ls front back anchor} (at' : Anchored ls front back anchor) :
    insertPosition ls = some (front.length+1) := by
  obtain ⟨rfl,first,here⟩ := at'
  induction front with
  | nil => rw [insertPosition,List.nil_append,List.findIdx?_cons,decide_eq_true here,if_pos rfl]; rfl
  | cons l front ih =>
    have other : ¬ libraryStubs <:+: l := first l List.mem_cons_self
    have rest := ih (fun k mem => first k (List.mem_cons_of_mem _ mem))
    unfold insertPosition at rest ⊢
    rw [Option.map_eq_some_iff] at rest
    obtain ⟨position,found,same⟩ := rest
    rw [List.cons_append,List.findIdx?_cons,found,decide_eq_false other,List.length_cons,← same]
    rfl

theorem anchoredOfMember {ls : List Text} {anchor : Text} (mem : anchor ∈ ls) (here : libraryStubs <:+: anchor) :
    ∃ front first back, Anchored ls front back first := by
  induction ls with
  | nil => cases mem
  | cons l ls ih =>
    by_cases own : libraryStubs <:+: l
    · exact ⟨[],l,ls,rfl,by simp,own⟩
    · have later : anchor ∈ ls := by
        rcases List.mem_cons.mp mem with same | later
        · exact absurd (same ▸ here) own
        · exact later
      obtain ⟨front,first,back,split,none,found⟩ := ih later
      exact ⟨l::front,first,back,by rw [split]; rfl,by simpa [own] using none,found⟩

theorem insertedText {functionsFile aux : Text} {front back : List Text} {anchor : Text} {functions : List Text}
    (read : readFunctions functionsFile = functions)
    (at' : Anchored (lines (universalNewlines aux)) front back anchor) :
    insertFunctionsAfterLibraryStubs functionsFile aux =
      (front ++ anchor::(functions.map stubLine ++ back)).flatten := by
  have inserted := insertAllSplit functions (front ++ [anchor]) back
  rw [List.length_append,List.length_singleton,List.append_assoc,List.singleton_append] at inserted
  rw [insertFunctionsAfterLibraryStubs,anchoredPosition at',read]
  simp only [at'.split,inserted]
  simp

theorem runAllPyLines {output aux : Text} {front back : List Text} {anchor : Text} {functions : List Text}
    (read : readFunctions (extractUndefinedRefs output) = functions)
    (at' : Anchored (lines (universalNewlines aux)) front back anchor) :
    runAllPy output aux = (front ++ anchor::(functions.map stubLine ++ back)).flatten :=
  insertedText read at'

def blocks (functions : List Text) (m : Nat) : List Text :=
  (List.replicate m (functions.map stubLine)).flatten

theorem blocksSucc (functions : List Text) (m : Nat) :
    blocks functions (m+1) = functions.map stubLine ++ blocks functions m := by
  rw [blocks,List.replicate_succ,List.flatten_cons,← blocks]

theorem stubTerminated {f : Text} (oneLine : '\n' ∉ f ∧ '\r' ∉ f) : Terminated (stubLine f) ∧ '\r' ∉ stubLine f := by
  have front : '\n' ∉ additionalStub ∧ '\r' ∉ additionalStub := by decide
  exact ⟨⟨additionalStub ++ f,by simp [front.1,oneLine.1],rfl⟩,by simp [stubLine,front.2,oneLine.2]⟩

theorem blocksTerminated {functions : List Text} (symbols : ∀ f ∈ functions, SymbolName f) {m : Nat} :
    ∀ l ∈ blocks functions m, Terminated l ∧ '\r' ∉ l := by
  intro l mem
  obtain ⟨block,copy,inside⟩ := List.mem_flatten.mp mem
  rw [List.eq_of_mem_replicate copy] at inside
  obtain ⟨f,listed,rfl⟩ := List.mem_map.mp inside
  exact stubTerminated (symbols f listed).oneLine

theorem lineListAppend {a b : List Text} (front : ∀ l ∈ a, Terminated l) (back : LineList b) :
    LineList (a ++ b) := by
  induction a with
  | nil => exact back
  | cons l a ih =>
    exact .cons (front l List.mem_cons_self) (ih (fun k mem => front k (List.mem_cons_of_mem _ mem)))

theorem lineListTail {a b : List Text} (shape : LineList (a ++ b)) : LineList b := by
  induction a with
  | nil => exact shape
  | cons l a ih =>
    generalize same : (l::a) ++ b = all at shape
    cases shape with
    | nil => cases same
    | last whole nonempty =>
      have empty := (List.append_eq_nil_iff.mp (List.cons.inj same).2).2
      rw [empty]
      exact .nil
    | cons line rest =>
      rw [← (List.cons.inj same).2] at rest
      exact ih rest

section
variable {output aux anchor : Text} {functions front back : List Text}

theorem insertedLines {stubs : List Text} (whole : ∀ l ∈ stubs, Terminated l ∧ '\r' ∉ l)
    (at' : Anchored (lines (universalNewlines aux)) front back anchor) (line : Terminated anchor) :
    lines (universalNewlines (front ++ anchor::(stubs ++ back)).flatten) = front ++ anchor::(stubs ++ back) := by
  have shape := linesShape (universalNewlines aux)
  rw [at'.split] at shape
  have clean : ∀ l ∈ front ++ anchor::back, '\r' ∉ l := fun l mem => lineNoReturn (at'.split ▸ mem)
  have tail : LineList back := lineListTail (a := front ++ [anchor]) (by simpa using shape)
  have all : LineList (front ++ anchor::(stubs ++ back)) := by
    refine lineListAppend (fun l mem => ?_) (.cons line (lineListAppend (fun l mem => (whole l mem).1) tail))
    have early : LineList ((front ++ anchor::back).dropLast ++ [(front ++ anchor::back).getLast (by simp)]) := by
      rw [List.dropLast_concat_getLast]
      exact shape
    exact lineListInit early l (by simp [List.dropLast_append_of_ne_nil,mem])
  have noReturn : '\r' ∉ (front ++ anchor::(stubs ++ back)).flatten := by
    intro mem
    obtain ⟨l,listed,inside⟩ := List.mem_flatten.mp mem
    simp only [List.mem_append,List.mem_cons] at listed clean
    rcases listed with early | rfl | stub | late
    · exact clean l (.inl early) inside
    · exact clean l (.inr (.inl rfl)) inside
    · exact (whole l stub).2 inside
    · exact clean l (.inr (.inr late)) inside
  rw [noReturnUnchanged noReturn,linesExact all]

theorem linesKept (symbols : ∀ f ∈ functions, SymbolName f)
    (at' : Anchored (lines (universalNewlines aux)) front back anchor) (line : Terminated anchor) (m : Nat) :
    lines (universalNewlines (front ++ anchor::(blocks functions m ++ back)).flatten) =
      front ++ anchor::(blocks functions m ++ back) :=
  insertedLines (blocksTerminated symbols) at' line

/- By induction on the runs: one more block behind the anchor line each time. -/
theorem rerunBlocks (read : readFunctions (extractUndefinedRefs output) = functions)
    (symbols : ∀ f ∈ functions, SymbolName f)
    (at' : Anchored (lines (universalNewlines aux)) front back anchor) (line : Terminated anchor) (m : Nat) :
    rerun output (m+1) aux = (front ++ anchor::(blocks functions (m+1) ++ back)).flatten := by
  induction m with
  | zero =>
    have once := runAllPyLines read at'
    rw [rerun,rerun,once,blocksSucc]
    simp [blocks]
  | succ m ih =>
    have next : Anchored (lines (universalNewlines (rerun output (m+1) aux))) front
        (blocks functions (m+1) ++ back) anchor := by
      refine ⟨?_,at'.first,at'.anchor⟩
      rw [ih]
      exact linesKept symbols at' line (m+1)
    rw [rerun,runAllPyLines read next,blocksSucc functions (m+1),List.append_assoc]

theorem rerunLines (read : readFunctions (extractUndefinedRefs output) = functions)
    (symbols : ∀ f ∈ functions, SymbolName f)
    (at' : Anchored (lines (universalNewlines aux)) front back anchor) (line : Terminated anchor) (m : Nat) :
    lines (universalNewlines (rerun output (m+1) aux)) = front ++ anchor::(blocks functions (m+1) ++ back) := by
  rw [rerunBlocks read symbols at' line m]
  exact linesKept symbols at' line (m+1)

end

theorem stubLineInjective : Function.Injective stubLine := by
  intro f g same
  rw [stubLine,stubLine] at same
  exact List.append_cancel_left (List.append_inj_left' same rfl)

theorem blocksCount {functions : List Text} (distinct : functions.Nodup) {f : Text} (mem : f ∈ functions)
    (m : Nat) : (blocks functions m).count (stubLine f) = m := by
  have once : (functions.map stubLine).count (stubLine f) = 1 :=
    List.count_eq_one_of_mem ((List.nodup_map_iff stubLineInjective).mpr distinct) (List.mem_map_of_mem mem)
  induction m with
  | zero => rfl
  | succ m ih => rw [blocksSucc,List.count_append,once,ih,Nat.add_comm]

theorem blocksLength (functions : List Text) (m : Nat) :
    (blocks functions m).flatten.length = m * (functions.map stubLine).flatten.length := by
  induction m with
  | zero => simp [blocks]
  | succ m ih =>
    rw [blocksSucc,List.flatten_append,List.length_append,ih,Nat.succ_mul,Nat.add_comm]

theorem freshAnchor {aux : Text} (fresh : FreshAux aux) : ∃ front anchor back,
    Anchored (lines (universalNewlines aux)) front back anchor ∧ Terminated anchor := by
  obtain ⟨l,mem,here,line⟩ := fresh.anchored
  obtain ⟨front,anchor,back,at'⟩ := anchoredOfMember mem here
  refine ⟨front,anchor,back,at',?_⟩
  have shape := linesShape (universalNewlines aux)
  rw [at'.split] at mem shape
  rcases List.eq_nil_or_concat back with rfl | ⟨init,last,rfl⟩
  · rcases List.mem_append.mp mem with early | own
    · exact absurd here (at'.first l early)
    · rwa [← List.mem_singleton.mp own]
  · rw [List.concat_eq_append,← List.cons_append,← List.append_assoc] at shape
    exact lineListInit shape anchor (by simp)

theorem reportedSymbols {o : LinkerOutput} {fs : List Text} (functions : o.names.toFinset.sort (· ≤ ·) = fs) :
    (∀ f, f ∈ fs ↔ f ∈ o.names) ∧ (∀ f ∈ fs, SymbolName f) ∧ fs.Nodup := by
  have members : ∀ f, f ∈ fs ↔ f ∈ o.names := by
    intro f
    rw [← functions,Finset.mem_sort,List.mem_toFinset]
  refine ⟨members,fun f mem => ?_,?_⟩
  · obtain ⟨k,listed,rfl⟩ := List.mem_map.mp ((members f).mp mem)
    exact o.symbols k listed
  · rw [← functions]
    exact Finset.sort_nodup _ _

theorem stubCounted {front back functions : List Text} {anchor f : Text} (distinct : functions.Nodup)
    (mem : f ∈ functions) (absent : ∀ l ∈ front ++ anchor::back, l ≠ stubLine f) (m : Nat) :
    (front ++ anchor::(blocks functions m ++ back)).count (stubLine f) = m := by
  simp only [List.mem_append,List.mem_cons] at absent
  have outside : ∀ ls : List Text, (∀ l ∈ ls, l ≠ stubLine f) → ls.count (stubLine f) = 0 :=
    fun ls away => List.count_eq_zero.mpr (fun mem => away _ mem rfl)
  rw [List.count_append,List.count_cons,List.count_append,blocksCount distinct mem,
    outside front (fun l mem => absent l (.inl mem)),outside back (fun l mem => absent l (.inr (.inr mem)))]
  simp [absent anchor (.inr (.inl rfl))]

theorem stubsLength {functions : List Text} (some : functions ≠ []) :
    0 < (functions.map stubLine).flatten.length := by
  obtain ⟨f,mem⟩ := List.exists_mem_of_ne_nil _ some
  have stub := List.mem_map_of_mem (f := stubLine) mem
  have part := (List.sublist_flatten_of_mem stub).length_le
  have whole : 0 < (stubLine f).length := by
    rw [stubLine,List.length_append]
    exact Nat.succ_pos _
  omega

theorem blocksSame {front back functions : List Text} {anchor : Text} {m n : Nat} :
    (front ++ anchor::(blocks functions m ++ back)).flatten =
      (front ++ anchor::(blocks functions n ++ back)).flatten ↔ m = n ∨ functions = [] := by
  constructor
  · intro same
    have lengths := congrArg List.length same
    simp only [List.flatten_append,List.flatten_cons,List.length_append,blocksLength] at lengths
    by_cases none : functions = []
    · exact .inr none
    · have equal : m * (functions.map stubLine).flatten.length = n * (functions.map stubLine).flatten.length := by
        omega
      exact .inl (Nat.eq_of_mul_eq_mul_right (stubsLength none) equal)
  · intro either
    rcases either with rfl | rfl
    · rfl
    · simp [blocks]

theorem stubsAccumulate {output aux : Text} {o : LinkerOutput} (read : universalNewlines output = o.text)
    (fresh : FreshAux aux) (m : Nat) (ran : 1 ≤ m) :
    (∀ f ∈ o.names, (lines (universalNewlines (rerun output m aux))).count (stubLine f) = m) ∧
      (rerun output m aux = rerun output 1 aux ↔ m = 1 ∨ o.names = []) := by
  obtain ⟨front,anchor,back,at',line⟩ := freshAnchor fresh
  obtain ⟨m,rfl⟩ := Nat.exists_eq_add_of_le' ran
  have names := readBack read
  generalize functions : o.names.toFinset.sort (· ≤ ·) = fs at names
  obtain ⟨members,symbols,distinct⟩ := reportedSymbols functions
  constructor
  · intro f reported
    have absent : ∀ l ∈ front ++ anchor::back, l ≠ stubLine f := by
      intro l mem same
      refine fresh.stubFree l (at'.split ▸ mem) ?_
      rw [same,stubLine,List.append_assoc]
      exact List.prefix_append _ _
    rw [rerunLines names symbols at' line m]
    exact stubCounted distinct ((members f).mpr reported) absent (m+1)
  · have empty : fs = [] ↔ o.names = [] := by
      rw [List.eq_nil_iff_forall_not_mem,List.eq_nil_iff_forall_not_mem]
      exact forall_congr' (fun f => not_congr (members f))
    rw [rerunBlocks names symbols at' line m,rerunBlocks names symbols at' line 0,blocksSame,empty]

def sampleAux : Text := "ENVIRO.NEW\nENVIRO.LIBRARY_STUBS:\nENVIRO.END\n".toList

theorem sampleFresh : FreshAux sampleAux :=
  ⟨⟨"ENVIRO.LIBRARY_STUBS:\n".toList,by decide,by decide,"ENVIRO.LIBRARY_STUBS:".toList,by decide,rfl⟩,
    by decide⟩

theorem sampleAccumulates : (∀ f ∈ sampleOutput.names,
    (lines (universalNewlines (rerun sampleOutput.text 3 sampleAux))).count (stubLine f) = 3) ∧
      (rerun sampleOutput.text 3 sampleAux = rerun sampleOutput.text 1 sampleAux ↔
        3 = 1 ∨ sampleOutput.names = []) :=
  stubsAccumulate (by decide +kernel) sampleFresh 3 (by decide)

def singleOutput : LinkerOutput where
  before := "hal.c:12: ".toList
  messages := [("vfree".toList,"\n".toList)]
  symbols := by
    intro m mem
    rw [List.mem_singleton.mp mem]
    exact ⟨by decide,eachOf (by decide),by decide,by decide⟩
  beforeFree := by decide +kernel
  afterFree := by decide +kernel

/- The second run writes the stub a second time. An anchor line without a line break takes
the first stub onto itself. -/
theorem secondRunDoubles : ¬ Rerunnable singleOutput.text sampleAux ["vfree".toList] 2 ∧
    ¬ Rerunnable singleOutput.text "ENVIRO.LIBRARY_STUBS:".toList ["vfree".toList] 1 := by
  have names : readFunctions (extractUndefinedRefs singleOutput.text) = ["vfree".toList] := by
    rw [readBack (o := singleOutput) (by decide +kernel)]
    exact Finset.sort_singleton _ _
  have ran : ∀ aux, runAllPy singleOutput.text aux = (insertPosition (lines (universalNewlines aux))).elim aux
      (fun position => (insertAll ["vfree".toList] position (lines (universalNewlines aux))).flatten) := by
    intro aux
    rw [runAllPy,insertFunctionsAfterLibraryStubs,names]
    cases insertPosition (lines (universalNewlines aux)) with
    | none => rfl
    | some position => rfl
  constructor
  · intro rerunnable
    have once := rerunnable.1 _ List.mem_cons_self
    rw [rerun,rerun,rerun,ran,ran] at once
    revert once
    decide
  · intro rerunnable
    have once := rerunnable.1 _ List.mem_cons_self
    rw [rerun,rerun,ran] at once
    revert once
    decide

end KernelTestTools.StubTool
