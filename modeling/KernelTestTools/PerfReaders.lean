import KernelTestTools.RingMemory

/-! The perf ring-buffer test programs: one sample loop over the mapped data area and one
payload decoder per program. Addresses are offsets from the start of the data area; what
lies behind it is whatever the process has mapped there. Little-endian machines. -/
namespace KernelTestTools.PerfReaders
open RingMemory

inductive Stop where
  | fault
  | unfinished
  deriving DecidableEq, Repr

structure Access where
  skip : Nat
  width : Nat
  value : Nat
  deriving DecidableEq, Repr

def load (memory : Memory) (event skip width : Nat) : Except Stop Access :=
  match bytesAt memory (event+skip) width with
  | some bytes => .ok ⟨skip,width,word bytes⟩
  | none => .error .fault

def loadAll (memory : Memory) (event : Nat) : List (Nat × Nat) → Except Stop (List Access)
  | [] => .ok []
  | (skip,width)::rest => do
    let a ← load memory event skip width
    let tail ← loadAll memory event rest
    .ok (a::tail)

def counterRange : Nat := 2^64
def perfRecordSample : Nat := 9
def headerSize : Nat := 8
def stackSize : Nat := 1024

def mmapSize (pageSize : Nat) : Nat := pageSize * (8+1) % counterRange

/- mmap_size - page_size, in size_t. -/
def dataSize (pageSize : Nat) : Nat := (mmapSize pageSize + counterRange - pageSize) % counterRange

def ctestPerfEventMmap (memory : Memory) (_fuel event : Nat) : Except Stop (List Access) := do
  let ip ← load memory event headerSize 8
  .ok [ip]

def ctestPerfEventOverflow (memory : Memory) (_fuel event : Nat) : Except Stop (List Access) := do
  let ip ← load memory event headerSize 8
  .ok [ip]

def ctestPerfSamplePhysAddr (memory : Memory) (_fuel event : Nat) : Except Stop (List Access) := do
  let physAddr ← load memory event headerSize 8
  .ok [physAddr]

/- for (uint64_t i = 1; i <= callchain_size; i++), with the wrap of i. -/
def callchainLoop (memory : Memory) (event callchainSize : Nat) : Nat → Nat → Except Stop (List Access)
  | 0,_ => .error .unfinished
  | fuel+1,i =>
    if i ≤ callchainSize then do
      let a ← load memory event (headerSize + 8*i) 8
      let rest ← callchainLoop memory event callchainSize fuel ((i+1) % counterRange)
      .ok (a::rest)
    else .ok []

def ctestPerfSampleCallchain (memory : Memory) (fuel event : Nat) : Except Stop (List Access) := do
  let callchainSize ← load memory event headerSize 8
  let chain ← callchainLoop memory event callchainSize.value fuel 1
  .ok (callchainSize::chain)

def ctestPerfSampleStackUser (memory : Memory) (_fuel event : Nat) : Except Stop (List Access) :=
  loadAll memory event ((List.range (min 16 stackSize)).map (fun i => (headerSize+i,1)))

inductive Program where
  | eventMmap
  | eventOverflow
  | sampleCallchain
  | samplePhysAddr
  | sampleStackUser
  deriving DecidableEq, Repr

def decode : Program → Memory → Nat → Nat → Except Stop (List Access)
  | .eventMmap => ctestPerfEventMmap
  | .eventOverflow => ctestPerfEventOverflow
  | .sampleCallchain => ctestPerfSampleCallchain
  | .samplePhysAddr => ctestPerfSamplePhysAddr
  | .sampleStackUser => ctestPerfSampleStackUser

structure Visit where
  offset : Nat
  kind : Nat
  size : Nat
  reads : List Access
  deriving DecidableEq, Repr

/- The body of if (event->type == PERF_RECORD_SAMPLE). -/
def onEvent (program : Program) (memory : Memory) (fuel event kind : Nat) : Except Stop (List Access) :=
  if kind = perfRecordSample then decode program memory fuel event else .ok []

def sampleLoop (program : Program) (memory : Memory) (size dataHead : Nat) :
    Nat → Nat → Except Stop (Nat × List Visit)
  | 0,_ => .error .unfinished
  | fuel+1,dataTail =>
    if dataHead ≠ dataTail then do
      let kind ← load memory (dataTail % size) 0 4
      let reads ← onEvent program memory fuel (dataTail % size) kind.value
      let length ← load memory (dataTail % size) 6 2
      let rest ← sampleLoop program memory size dataHead fuel ((dataTail + length.value) % counterRange)
      .ok (rest.1,⟨dataTail % size,kind.value,length.value,reads⟩::rest.2)
    else .ok (dataTail,[])

def footprint (first : Nat) : Program → List (Nat × Nat)
  | .sampleCallchain => (headerSize,8)::(List.range' 1 first).map (fun i => (headerSize + 8*i,8))
  | .sampleStackUser => (List.range 16).map (fun i => (headerSize+i,1))
  | _ => [(headerSize,8)]

def needed (first : Nat) : Program → Nat
  | .sampleCallchain => 16 + 8*first
  | .sampleStackUser => 24
  | _ => 16

def Mapped (memory : Memory) (start n : Nat) : Prop := ∀ i < n, (memory (start+i)).isSome

def firstWord (memory : Memory) (event : Nat) : Nat :=
  match bytesAt memory (event+headerSize) 8 with
  | some bytes => word bytes
  | none => 0

/- Every word the program would load is mapped, and the count of a call chain is not the
one value at which its loop variable wraps. -/
def Accessible (program : Program) (memory : Memory) (event : Nat) : Prop :=
  (program = .sampleCallchain → firstWord memory event + 1 ≠ counterRange) ∧
  ∀ p ∈ footprint (firstWord memory event) program, Mapped memory (event+p.1) p.2

theorem loadOk {memory event skip width a} :
    load memory event skip width = .ok a ↔
      ∃ bytes, bytesAt memory (event+skip) width = some bytes ∧ a = ⟨skip,width,word bytes⟩ := by
  unfold load
  cases bytesAt memory (event+skip) width with
  | none => simp
  | some bytes => simp [eq_comm]

theorem loadMapped {memory event skip width} :
    (∃ a, load memory event skip width = .ok a) ↔ Mapped memory (event+skip) width := by
  rw [Mapped,← bytesAtMapped]
  constructor
  · intro loaded
    obtain ⟨a,read⟩ := loaded
    obtain ⟨bytes,found,_⟩ := loadOk.mp read
    exact ⟨bytes,found⟩
  · intro mapped
    obtain ⟨bytes,found⟩ := mapped
    exact ⟨_,loadOk.mpr ⟨bytes,found,rfl⟩⟩

theorem loadAllMapped {memory event words} :
    (∃ reads, loadAll memory event words = .ok reads) ↔
      ∀ p ∈ words, Mapped memory (event+p.1) p.2 := by
  induction words with
  | nil => simp [loadAll]
  | cons p rest ih =>
    obtain ⟨skip,width⟩ := p
    rw [List.forall_mem_cons,← ih,← loadMapped]
    constructor
    · intro loaded
      obtain ⟨reads,read⟩ := loaded
      simp only [loadAll,bind,Except.bind] at read
      split at read <;> try contradiction
      rename_i a here
      split at read <;> try contradiction
      rename_i tail later
      exact ⟨⟨a,here⟩,tail,later⟩
    · intro mapped
      obtain ⟨⟨a,here⟩,tail,later⟩ := mapped
      exact ⟨a::tail,by simp [loadAll,here,later,bind,Except.bind]⟩

theorem loadAllCons {memory event skip width rest reads} :
    loadAll memory event ((skip,width)::rest) = .ok reads ↔
      ∃ a tail, load memory event skip width = .ok a ∧ loadAll memory event rest = .ok tail ∧
        reads = a::tail := by
  simp only [loadAll,bind,Except.bind]
  cases load memory event skip width with
  | error e => simp
  | ok a =>
    cases loadAll memory event rest with
    | error e => simp
    | ok tail => simp [eq_comm]

def chainWords (i callchainSize : Nat) : List (Nat × Nat) :=
  (List.range' i (callchainSize + 1 - i)).map (fun i => (headerSize + 8*i,8))

theorem chainWordsStep {i callchainSize : Nat} (more : i ≤ callchainSize) :
    chainWords i callchainSize = (headerSize + 8*i,8)::chainWords (i+1) callchainSize := by
  have count : callchainSize + 1 - i = (callchainSize + 1 - (i+1)) + 1 := by omega
  rw [chainWords,count,List.range'_succ,List.map_cons,chainWords]

theorem chainWordsDone {i callchainSize : Nat} (done : callchainSize < i) :
    chainWords i callchainSize = [] := by
  have count : callchainSize + 1 - i = 0 := by omega
  simp [chainWords,count]

/- Induction on the fuel: a count of 2^64-1 keeps the loop variable at or below the count
for ever, any other count ends the loop before the variable wraps. -/
theorem callchainFinished {memory event callchainSize fuel i reads}
    (small : i < counterRange)
    (done : callchainLoop memory event callchainSize fuel i = .ok reads) :
    callchainSize + 1 ≠ counterRange ∧
      (i ≤ callchainSize + 1 → callchainSize < counterRange →
        loadAll memory event (chainWords i callchainSize) = .ok reads) := by
  induction fuel generalizing i reads with
  | zero => simp [callchainLoop] at done
  | succ fuel ih =>
    simp only [callchainLoop] at done
    split at done
    · rename_i more
      simp only [bind,Except.bind] at done
      split at done <;> try contradiction
      rename_i a here
      split at done <;> try contradiction
      rename_i rest later
      cases done
      have positive : 0 < counterRange := by simp [counterRange]
      obtain ⟨bounded,tail⟩ := ih (Nat.mod_lt _ positive) later
      refine ⟨bounded,fun _ width => ?_⟩
      have next : (i+1) % counterRange = i+1 := Nat.mod_eq_of_lt (by omega)
      rw [next] at tail
      rw [chainWordsStep more,loadAllCons]
      exact ⟨a,rest,here,tail (by omega) width,rfl⟩
    · rename_i stop
      cases done
      refine ⟨by omega,fun _ _ => ?_⟩
      rw [chainWordsDone (by omega)]
      rfl

theorem callchainEnough {memory event callchainSize fuel i}
    (bounded : callchainSize + 1 < counterRange) (start : i ≤ callchainSize + 1)
    (enough : callchainSize + 1 - i < fuel) :
    callchainLoop memory event callchainSize fuel i =
      loadAll memory event (chainWords i callchainSize) := by
  induction fuel generalizing i with
  | zero => omega
  | succ fuel ih =>
    simp only [callchainLoop]
    split
    · rename_i more
      have next : (i+1) % counterRange = i+1 := Nat.mod_eq_of_lt (by omega)
      rw [next,ih (by omega) (by omega),chainWordsStep more,loadAll]
    · rw [chainWordsDone (by omega)]
      rfl

theorem footprintChain (first : Nat) :
    footprint first .sampleCallchain = (headerSize,8)::chainWords 1 first := by
  simp [footprint,chainWords]

theorem firstWordLoaded {memory event a} (read : load memory event headerSize 8 = .ok a) :
    a.value = firstWord memory event ∧ firstWord memory event < counterRange := by
  obtain ⟨bytes,found,rfl⟩ := loadOk.mp read
  have bound := wordBound bytes
  rw [bytesAtLength found] at bound
  have range : (256:Nat)^8 = counterRange := by simp [counterRange]
  rw [range] at bound
  simp [firstWord,found,bound]

theorem singleLoad {memory event reads} :
    (do let a ← load memory event headerSize 8; (.ok [a] : Except Stop (List Access))) = .ok reads ↔
      loadAll memory event [(headerSize,8)] = .ok reads := by
  rfl

theorem decodeFinished {program memory fuel event reads}
    (done : decode program memory fuel event = .ok reads) :
    Accessible program memory event ∧
      loadAll memory event (footprint (firstWord memory event) program) = .ok reads := by
  have plain : ∀ {words}, (program = .sampleCallchain → False) →
      footprint (firstWord memory event) program = words →
      loadAll memory event words = .ok reads →
      Accessible program memory event ∧
        loadAll memory event (footprint (firstWord memory event) program) = .ok reads := by
    intro words other same read
    rw [Accessible,same]
    exact ⟨⟨fun h => (other h).elim,loadAllMapped.mp ⟨reads,read⟩⟩,read⟩
  cases program with
  | eventMmap => exact plain (by simp) rfl (singleLoad.mp done)
  | eventOverflow => exact plain (by simp) rfl (singleLoad.mp done)
  | samplePhysAddr => exact plain (by simp) rfl (singleLoad.mp done)
  | sampleStackUser => exact plain (by simp) rfl done
  | sampleCallchain =>
    simp only [decode,ctestPerfSampleCallchain,bind,Except.bind] at done
    split at done <;> try contradiction
    rename_i count here
    split at done <;> try contradiction
    rename_i chain later
    cases done
    obtain ⟨same,width⟩ := firstWordLoaded here
    rw [same] at later
    obtain ⟨bounded,loads⟩ := callchainFinished (by simp [counterRange]) later
    have read : loadAll memory event (footprint (firstWord memory event) .sampleCallchain) =
        .ok (count::chain) := by
      rw [footprintChain,loadAllCons]
      exact ⟨count,chain,here,loads (by omega) width,rfl⟩
    exact ⟨⟨fun _ => bounded,loadAllMapped.mp ⟨_,read⟩⟩,read⟩

theorem decodeEnough {program memory event} (accessible : Accessible program memory event) :
    ∃ enough, ∀ fuel, enough ≤ fuel → ∃ reads, decode program memory fuel event = .ok reads := by
  obtain ⟨bounded,mapped⟩ := accessible
  obtain ⟨reads,read⟩ := loadAllMapped.mpr mapped
  cases program with
  | eventMmap => exact ⟨0,fun _ _ => ⟨reads,singleLoad.mpr read⟩⟩
  | eventOverflow => exact ⟨0,fun _ _ => ⟨reads,singleLoad.mpr read⟩⟩
  | samplePhysAddr => exact ⟨0,fun _ _ => ⟨reads,singleLoad.mpr read⟩⟩
  | sampleStackUser => exact ⟨0,fun _ _ => ⟨reads,read⟩⟩
  | sampleCallchain =>
    rw [footprintChain,loadAllCons] at read
    obtain ⟨count,chain,here,later,rfl⟩ := read
    obtain ⟨same,width⟩ := firstWordLoaded here
    have small : firstWord memory event + 1 < counterRange := by have := bounded rfl; omega
    refine ⟨firstWord memory event + 1,fun fuel enough => ⟨count::chain,?_⟩⟩
    have loop := @callchainEnough memory event _ fuel 1 small (by omega) (by omega)
    simp [decode,ctestPerfSampleCallchain,here,same,loop,later,bind,Except.bind]

end KernelTestTools.PerfReaders
