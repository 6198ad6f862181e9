import KernelTestTools.PerfReaders

/-! What the kernel writes for the sample_type of each reader program, and what the
program prints of it. A record is stored at consecutive addresses; what lies behind it is
whatever the process has mapped there. -/
namespace KernelTestTools.PerfReaders
open RingMemory

inductive SampleType where
  | regsUser
  | regsIntr
  | stackUser
  | callchain
  | physAddr
  | codePageSize
  deriving DecidableEq, Repr

structure Regs where
  abi : UInt64
  registers : Nat → UInt64

/- dyn_size may only be left out behind an empty stack. -/
structure Stack where
  bytes : List UInt8
  dynSize : Option UInt64
  behind : dynSize = none → bytes = []

def Fields : SampleType → Type
  | .regsUser => Regs
  | .regsIntr => Regs
  | .stackUser => Stack
  | .callchain => List UInt64
  | .physAddr => UInt64
  | .codePageSize => UInt64

def perfRegArm64X0 : Nat := 0
def perfRegArm64X1 : Nat := 1

/- sample_regs_user of the one program, sample_regs_intr of the other. -/
def sampleRegs : Nat := (1 <<< perfRegArm64X0) ||| (1 <<< perfRegArm64X1)

def u64 (value : UInt64) : List UInt8 := little value.toNat 8

def encodeRegs (mask : Nat) (r : Regs) : List UInt8 :=
  u64 r.abi ++ if r.abi = 0 then [] else
    ((List.range 64).filter (fun i => mask.testBit i)).flatMap (fun i => u64 (r.registers i))

def encodeStack (s : Stack) : List UInt8 :=
  little s.bytes.length 8 ++ s.bytes ++ match s.dynSize with
    | none => []
    | some size => u64 size

def encodeCallchain (ips : List UInt64) : List UInt8 := little ips.length 8 ++ ips.flatMap u64

def encode : (t : SampleType) → Fields t → List UInt8
  | .regsUser,r => encodeRegs sampleRegs r
  | .regsIntr,r => encodeRegs sampleRegs r
  | .stackUser,s => encodeStack s
  | .callchain,ips => encodeCallchain ips
  | .physAddr,address => u64 address
  | .codePageSize,size => u64 size

def encodedRegs (r : Regs) : List Nat :=
  if r.abi = 0 then []
  else [(r.registers perfRegArm64X0).toNat,(r.registers perfRegArm64X1).toNat]

def encoded : (t : SampleType) → Fields t → List Nat
  | .regsUser,r => encodedRegs r
  | .regsIntr,r => encodedRegs r
  | .stackUser,s => (s.bytes.take 16).map UInt8.toNat
  | .callchain,ips => ips.length::ips.map UInt64.toNat
  | .physAddr,address => [address.toNat]
  | .codePageSize,size => [size.toNat]

/- regs[PERF_REG_ARM64_X0] and regs[PERF_REG_ARM64_X1]. -/
def readRegs (memory : Memory) (event : Nat) : Except Stop (List Access) :=
  loadAll memory event [(headerSize + 8*perfRegArm64X0,8),(headerSize + 8*perfRegArm64X1,8)]

def ctestPerfEventSampleRegs (memory : Memory) (_fuel event : Nat) : Except Stop (List Access) :=
  readRegs memory event

def ctestPerfEventSampleRegsIntr (memory : Memory) (_fuel event : Nat) : Except Stop (List Access) :=
  readRegs memory event

def ctestPerfSampleDataPgsize (memory : Memory) (_fuel event : Nat) : Except Stop (List Access) := do
  let pageSizeSampled ← load memory event headerSize 8
  .ok [pageSizeSampled]

inductive Reader where
  | sampleRegs
  | sampleRegsIntr
  | sampleStackUser
  | sampleCallchain
  | samplePhysAddr
  | sampleDataPgsize
  deriving DecidableEq, Repr

def Reader.sampleType : Reader → SampleType
  | .sampleRegs => .regsUser
  | .sampleRegsIntr => .regsIntr
  | .sampleStackUser => .stackUser
  | .sampleCallchain => .callchain
  | .samplePhysAddr => .physAddr
  | .sampleDataPgsize => .codePageSize

def Reader.decode : Reader → Memory → Nat → Nat → Except Stop (List Access)
  | .sampleRegs => ctestPerfEventSampleRegs
  | .sampleRegsIntr => ctestPerfEventSampleRegsIntr
  | .sampleStackUser => ctestPerfSampleStackUser
  | .sampleCallchain => ctestPerfSampleCallchain
  | .samplePhysAddr => ctestPerfSamplePhysAddr
  | .sampleDataPgsize => ctestPerfSampleDataPgsize

/- if (event->type == PERF_RECORD_SAMPLE); every load of a decoder is printed. -/
def Reader.visit (reader : Reader) (memory : Memory) (fuel event : Nat) : Except Stop (List Access) := do
  let kind ← load memory event 0 4
  if kind.value = perfRecordSample then reader.decode memory fuel event else .ok []

structure Sample (reader : Reader) where
  misc : UInt16
  fields : Fields reader.sampleType
  fits : headerSize + (encode reader.sampleType fields).length < 2^16

section
variable {reader : Reader} (r : Sample reader)

def Sample.payload : List UInt8 := encode reader.sampleType r.fields

def Sample.header : List UInt8 :=
  little perfRecordSample 4 ++ little r.misc.toNat 2 ++ little (headerSize + r.payload.length) 2

def Sample.bytes : List UInt8 := r.header ++ r.payload

theorem headerLength : r.header.length = headerSize := by simp [Sample.header,headerSize]

theorem bytesLength : r.bytes.length = headerSize + r.payload.length := by
  rw [Sample.bytes,List.length_append,headerLength]

theorem payloadBehind : r.bytes.drop headerSize = r.payload := by
  rw [Sample.bytes,← headerLength r,List.drop_left]

theorem payloadAt (skip width : Nat) :
    (r.bytes.drop (headerSize+skip)).take width = (r.payload.drop skip).take width := by
  rw [← List.drop_drop,payloadBehind]

theorem storedLoad {memory event bytes} (stored : Stored memory event bytes) {skip width : Nat}
    (inside : skip + width ≤ bytes.length) :
    load memory event skip width = .ok ⟨skip,width,word ((bytes.drop skip).take width)⟩ :=
  loadOk.mpr ⟨_,storedRead stored inside,rfl⟩

theorem storedLoads {memory event bytes} (stored : Stored memory event bytes) {words : List (Nat × Nat)}
    (inside : ∀ p ∈ words, p.1 + p.2 ≤ bytes.length) :
    loadAll memory event words =
      .ok (words.map (fun p => ⟨p.1,p.2,word ((bytes.drop p.1).take p.2)⟩)) := by
  induction words with
  | nil => rfl
  | cons p words ih =>
    obtain ⟨skip,width⟩ := p
    rw [loadAllCons]
    exact ⟨_,_,storedLoad stored (inside _ List.mem_cons_self),
      ih (fun p mem => inside p (List.mem_cons_of_mem _ mem)),rfl⟩

theorem loadedWords {memory event words reads} (read : loadAll memory event words = .ok reads) :
    reads.map (fun a => (a.skip,a.width)) = words := by
  induction words generalizing reads with
  | nil =>
    cases read
    rfl
  | cons p words ih =>
    obtain ⟨skip,width⟩ := p
    obtain ⟨a,tail,here,later,rfl⟩ := loadAllCons.mp read
    obtain ⟨bytes,_,rfl⟩ := loadOk.mp here
    rw [List.map_cons,ih later]

structure Shows (reads : List Access) : Prop where
  printed : reads.map Access.value = encoded reader.sampleType r.fields
  inside : ∀ a ∈ reads, a.skip + a.width ≤ r.bytes.length

def DecodesRight (memory : Memory) (event : Nat) : Prop :=
  ∃ enough, ∀ fuel, enough ≤ fuel → ∃ reads, reader.visit memory fuel event = .ok reads ∧ Shows r reads

variable {r} {memory : Memory} {event : Nat} (stored : Stored memory event r.bytes)
include stored

theorem visitSample (fuel : Nat) : reader.visit memory fuel event = reader.decode memory fuel event := by
  have length := bytesLength r
  unfold headerSize at length
  have kind : load memory event 0 4 = .ok ⟨0,4,perfRecordSample⟩ := by
    rw [storedLoad stored (by omega)]
    have front : (r.bytes.drop 0).take 4 = little perfRecordSample 4 := by
      have size : (little perfRecordSample 4).length = 4 := littleLength _ _
      rw [List.drop_zero,Sample.bytes,Sample.header,List.append_assoc,List.append_assoc,
        List.take_append_of_le_length (by omega),List.take_of_length_le (by omega)]
    rw [front,wordLittle (by decide)]
  simp [Reader.visit,kind,bind,Except.bind]

theorem wordsRight {words : List (Nat × Nat)}
    (loads : ∃ enough, ∀ fuel, enough ≤ fuel →
      reader.decode memory fuel event = loadAll memory event words) :
    DecodesRight r memory event ↔ (∀ p ∈ words, p.1 + p.2 ≤ r.bytes.length) ∧
      words.map (fun p => word ((r.bytes.drop p.1).take p.2)) = encoded reader.sampleType r.fields := by
  obtain ⟨enough,loads⟩ := loads
  constructor
  · intro right
    obtain ⟨bound,right⟩ := right
    obtain ⟨reads,read,shows⟩ := right (max enough bound) (Nat.le_max_right _ _)
    rw [visitSample stored,loads _ (Nat.le_max_left _ _)] at read
    have inside : ∀ p ∈ words, p.1 + p.2 ≤ r.bytes.length := by
      intro p mem
      rw [← loadedWords read] at mem
      obtain ⟨a,listed,rfl⟩ := List.mem_map.mp mem
      exact shows.inside a listed
    refine ⟨inside,?_⟩
    rw [storedLoads stored inside] at read
    have printed := shows.printed
    rw [← Except.ok.inj read,List.map_map] at printed
    exact printed
  · intro both
    obtain ⟨inside,printed⟩ := both
    refine ⟨enough,fun fuel late =>
      ⟨words.map (fun p => ⟨p.1,p.2,word ((r.bytes.drop p.1).take p.2)⟩),?_,?_,?_⟩⟩
    · rw [visitSample stored,loads fuel late,storedLoads stored inside]
    · rw [List.map_map]
      exact printed
    · intro a mem
      obtain ⟨p,listed,rfl⟩ := List.mem_map.mp mem
      exact inside p listed

theorem payloadRight {words : List (Nat × Nat)}
    (loads : ∃ enough, ∀ fuel, enough ≤ fuel → reader.decode memory fuel event =
      loadAll memory event (words.map (fun p => (headerSize + p.1,p.2)))) :
    DecodesRight r memory event ↔ (∀ p ∈ words, p.1 + p.2 ≤ r.payload.length) ∧
      words.map (fun p => word ((r.payload.drop p.1).take p.2)) = encoded reader.sampleType r.fields := by
  rw [wordsRight stored loads,List.map_map]
  refine and_congr ?_ ?_
  · rw [List.forall_mem_map]
    refine forall₂_congr (fun p _ => ?_)
    have length := bytesLength r
    omega
  · simp only [Function.comp_def,payloadAt]

end

@[simp] theorem u64Length (value : UInt64) : (u64 value).length = 8 := littleLength _ _

theorem wordU64 (value : UInt64) : word (u64 value) = value.toNat := wordLittle value.toNat_lt

theorem takeFront {front : List UInt8} {n : Nat} (length : front.length = n) (rest : List UInt8) :
    (front ++ rest).take n = front ∧ (front ++ rest).drop n = rest := by
  rw [← length]
  exact ⟨List.take_left,List.drop_left⟩

/- The registers are the ABI word twice, so that reading one word early does no harm. -/
def RegsShifted (r : Regs) : Prop :=
  r.abi ≠ 0 ∧ r.registers perfRegArm64X0 = r.abi ∧ r.registers perfRegArm64X1 = r.abi

theorem sampledRegisters : (List.range 64).filter (fun i => sampleRegs.testBit i) =
    [perfRegArm64X0,perfRegArm64X1] := by decide

theorem regsRead (r : Regs) :
    (∀ p ∈ [(8*perfRegArm64X0,8),(8*perfRegArm64X1,8)], p.1 + p.2 ≤ (encodeRegs sampleRegs r).length) ∧
      [(8*perfRegArm64X0,8),(8*perfRegArm64X1,8)].map
        (fun p => word (((encodeRegs sampleRegs r).drop p.1).take p.2)) = encodedRegs r ↔
    RegsShifted r := by
  rw [encodeRegs,sampledRegisters]
  by_cases none : r.abi = 0
  · simp [none,RegsShifted,perfRegArm64X0,perfRegArm64X1]
  · obtain ⟨first,rest⟩ := takeFront (u64Length r.abi)
      (u64 (r.registers perfRegArm64X0) ++ u64 (r.registers perfRegArm64X1))
    have second := (takeFront (u64Length (r.registers perfRegArm64X0))
      (u64 (r.registers perfRegArm64X1))).1
    have values : [(8*perfRegArm64X0,8),(8*perfRegArm64X1,8)].map (fun p =>
        word (((u64 r.abi ++ (u64 (r.registers perfRegArm64X0) ++
          u64 (r.registers perfRegArm64X1))).drop p.1).take p.2)) =
        [r.abi.toNat,(r.registers perfRegArm64X0).toNat] := by
      have zero : 8*perfRegArm64X0 = 0 := rfl
      have eight : 8*perfRegArm64X1 = 8 := rfl
      rw [List.map_cons,List.map_cons,List.map_nil,zero,eight,List.drop_zero,first,rest,second,
        wordU64,wordU64]
    rw [if_neg none]
    simp only [List.flatMap_cons,List.flatMap_nil,List.append_nil,values,encodedRegs,if_neg none]
    have inside : ∀ p ∈ [(8*perfRegArm64X0,8),(8*perfRegArm64X1,8)], p.1 + p.2 ≤
        (u64 r.abi ++ (u64 (r.registers perfRegArm64X0) ++ u64 (r.registers perfRegArm64X1))).length := by
      simp [perfRegArm64X0,perfRegArm64X1]
    rw [and_iff_right inside,List.cons.injEq,List.cons.injEq,UInt64.toNat_inj,UInt64.toNat_inj]
    constructor
    · intro same
      exact ⟨none,same.1.symm,same.2.1.symm.trans same.1.symm⟩
    · intro shifted
      obtain ⟨_,left,right⟩ := shifted
      exact ⟨left.symm,left.trans right.symm,rfl⟩

/- The first sixteen stack bytes are the size of the stack twice. -/
def StackShifted (s : Stack) : Prop :=
  s.bytes.take 16 = little s.bytes.length 8 ++ little s.bytes.length 8

theorem singleBytes {bytes : List UInt8} {n : Nat} (inside : n ≤ bytes.length) :
    (List.range n).map (fun i => word ((bytes.drop i).take 1)) = (bytes.take n).map UInt8.toNat := by
  apply List.ext_getElem (by simp [inside])
  intro i left right
  have small : i < bytes.length := by
    rw [List.length_map,List.length_range] at left
    omega
  rw [List.getElem_map,List.getElem_map,List.getElem_take]
  simp only [List.getElem_range]
  rw [List.drop_eq_getElem_cons small,List.take_succ_cons,List.take_zero]
  simp [word]

theorem bytesInjective {xs ys : List UInt8} : xs.map UInt8.toNat = ys.map UInt8.toNat ↔ xs = ys :=
  List.map_inj_right (fun _ _ same => UInt8.toNat_inj.mp same)

theorem stackRead (s : Stack) :
    (∀ p ∈ (List.range 16).map (fun i => (i,1)), p.1 + p.2 ≤ (encodeStack s).length) ∧
      ((List.range 16).map (fun i => (i,1))).map
        (fun p => word (((encodeStack s).drop p.1).take p.2)) = (s.bytes.take 16).map UInt8.toNat ↔
    StackShifted s := by
  have shape : ∃ tail, encodeStack s = little s.bytes.length 8 ++ (s.bytes ++ tail) :=
    ⟨_,List.append_assoc _ _ _⟩
  obtain ⟨tail,shape⟩ := shape
  have size : (little s.bytes.length 8).length = 8 := littleLength _ _
  -- a short stack shows fewer bytes than the program prints
  by_cases short : s.bytes.length < 16
  · have other : ¬ StackShifted s := by
      intro shifted
      have lengths := congrArg List.length shifted
      simp at lengths
      omega
    refine iff_of_false (fun both => ?_) other
    have lengths := congrArg List.length both.2
    simp at lengths
    omega
  · have whole : (encodeStack s).take 16 = little s.bytes.length 8 ++ s.bytes.take 8 := by
      rw [shape,List.take_append,List.take_append,size,List.take_of_length_le (by omega)]
      simp only [Nat.reduceSub]
      have none : 8 - s.bytes.length = 0 := by omega
      rw [none,List.take_zero,List.append_nil]
    have long : 16 ≤ (encodeStack s).length := by
      rw [shape]
      simp
      omega
    have inside : ∀ p ∈ (List.range 16).map (fun i => (i,1)), p.1 + p.2 ≤ (encodeStack s).length := by
      intro p mem
      obtain ⟨i,small,rfl⟩ := List.mem_map.mp mem
      rw [List.mem_range] at small
      omega
    rw [and_iff_right inside,List.map_map,Function.comp_def,singleBytes long,whole,bytesInjective]
    have halves : s.bytes.take 16 = s.bytes.take 8 ++ (s.bytes.drop 8).take 8 :=
      @List.take_add _ s.bytes 8 8
    have half : (s.bytes.take 8).length = 8 := by
      rw [List.length_take]
      omega
    rw [StackShifted,halves]
    constructor
    · intro same
      obtain ⟨left,right⟩ := List.append_inj same (by omega)
      rw [← right,← left]
    · intro shifted
      obtain ⟨left,right⟩ := List.append_inj shifted (by omega)
      rw [left,right]

theorem chainBytes (ips : List UInt64) :
    (List.range ips.length).map (fun j => word (((ips.flatMap u64).drop (8*j)).take 8)) =
      ips.map UInt64.toNat := by
  induction ips with
  | nil => rfl
  | cons ip ips ih =>
    obtain ⟨first,rest⟩ := takeFront (u64Length ip) (ips.flatMap u64)
    have next : ∀ j, ((ip::ips).flatMap u64).drop (8*(j+1)) = (ips.flatMap u64).drop (8*j) := by
      intro j
      rw [List.flatMap_cons,Nat.mul_add,Nat.add_comm,← List.drop_drop,Nat.mul_one,rest]
    rw [List.length_cons,List.range_succ_eq_map,List.map_cons,List.map_map,Function.comp_def]
    simp only [next,ih,Nat.succ_eq_add_one]
    rw [Nat.mul_zero,List.drop_zero,List.flatMap_cons,first,wordU64,List.map_cons]

theorem chainLength (ips : List UInt64) : (encodeCallchain ips).length = 8 + 8*ips.length := by
  have chain : (ips.flatMap u64).length = 8*ips.length := by
    induction ips with
    | nil => rfl
    | cons ip ips ih =>
      rw [List.flatMap_cons,List.length_append,u64Length,ih,List.length_cons]
      omega
  rw [encodeCallchain,List.length_append,littleLength,chain]

theorem callchainRead {ips : List UInt64} (small : ips.length < 256^8) :
    (∀ p ∈ (0,8)::(List.range' 1 ips.length).map (fun i => (8*i,8)),
        p.1 + p.2 ≤ (encodeCallchain ips).length) ∧
      ((0,8)::(List.range' 1 ips.length).map (fun i => (8*i,8))).map
        (fun p => word (((encodeCallchain ips).drop p.1).take p.2)) =
        ips.length::ips.map UInt64.toNat := by
  have size : (little ips.length 8).length = 8 := littleLength _ _
  obtain ⟨first,rest⟩ := takeFront size (ips.flatMap u64)
  constructor
  · intro p mem
    rw [chainLength]
    rcases List.mem_cons.mp mem with rfl | later
    · simp
    · obtain ⟨i,listed,rfl⟩ := List.mem_map.mp later
      rw [List.mem_range'_1] at listed
      simp only
      omega
  · have next : ∀ j, (encodeCallchain ips).drop (8*(1+j)) = (ips.flatMap u64).drop (8*j) := by
      intro j
      rw [encodeCallchain,Nat.mul_add,Nat.mul_one,← List.drop_drop,rest]
    rw [List.map_cons,List.map_map,List.range'_eq_map_range,List.map_map,Function.comp_def]
    simp only [Function.comp_def,next,chainBytes]
    rw [List.drop_zero,encodeCallchain,first,wordLittle small]

theorem valueRead (value : UInt64) :
    (∀ p ∈ [(0,8)], p.1 + p.2 ≤ (u64 value).length) ∧
      [(0,8)].map (fun p => word (((u64 value).drop p.1).take p.2)) = [value.toNat] := by
  constructor
  · simp
  · rw [List.map_cons,List.map_nil,List.drop_zero,List.take_of_length_le (by simp),wordU64]

def payloadWords : (t : SampleType) → Fields t → List (Nat × Nat)
  | .regsUser,_ => [(8*perfRegArm64X0,8),(8*perfRegArm64X1,8)]
  | .regsIntr,_ => [(8*perfRegArm64X0,8),(8*perfRegArm64X1,8)]
  | .stackUser,_ => (List.range 16).map (fun i => (i,1))
  | .callchain,ips => (0,8)::(List.range' 1 ips.length).map (fun i => (8*i,8))
  | .physAddr,_ => [(0,8)]
  | .codePageSize,_ => [(0,8)]

def Undistorted : (t : SampleType) → Fields t → Prop
  | .regsUser,r => RegsShifted r
  | .regsIntr,r => RegsShifted r
  | .stackUser,s => StackShifted s
  | .callchain,_ => True
  | .physAddr,_ => True
  | .codePageSize,_ => True

theorem payloadRead (t : SampleType) (fields : Fields t) (fits : headerSize + (encode t fields).length < 2^16) :
    (∀ p ∈ payloadWords t fields, p.1 + p.2 ≤ (encode t fields).length) ∧
      (payloadWords t fields).map (fun p => word (((encode t fields).drop p.1).take p.2)) =
        encoded t fields ↔
    Undistorted t fields := by
  cases t with
  | regsUser => exact regsRead fields
  | regsIntr => exact regsRead fields
  | stackUser => exact stackRead fields
  | callchain =>
    have length := chainLength fields
    change headerSize + (encodeCallchain fields).length < 2^16 at fits
    exact iff_of_true (callchainRead (by omega)) trivial
  | physAddr => exact iff_of_true (valueRead fields) trivial
  | codePageSize => exact iff_of_true (valueRead fields) trivial

section
variable {memory : Memory} {event : Nat}

theorem callchainLoads {bytes : List UInt8} {ips : List UInt64} (stored : Stored memory event bytes)
    (payload : bytes.drop headerSize = encodeCallchain ips)
    (fits : headerSize + (encodeCallchain ips).length < 2^16) :
    ∃ enough, ∀ fuel, enough ≤ fuel → ctestPerfSampleCallchain memory fuel event =
      loadAll memory event (((0,8)::(List.range' 1 ips.length).map (fun i => (8*i,8))).map
        (fun p => (headerSize + p.1,p.2))) := by
  have length := chainLength ips
  have whole := congrArg List.length payload
  rw [List.length_drop] at whole
  have size : (little ips.length 8).length = 8 := littleLength _ _
  have first := (takeFront size (ips.flatMap u64)).1
  have count : load memory event headerSize 8 = .ok ⟨headerSize,8,ips.length⟩ := by
    rw [storedLoad stored (by omega),payload,encodeCallchain,first,wordLittle (by omega)]
  refine ⟨ips.length + 1,fun fuel late => ?_⟩
  have small : ips.length + 1 < counterRange := by unfold counterRange; omega
  have loop := @callchainEnough memory event ips.length fuel 1 small (by omega) (by omega)
  have words : chainWords 1 ips.length = ((List.range' 1 ips.length).map
      (fun i => (8*i,8))).map (fun p => (headerSize + p.1,p.2)) := by
    simp [chainWords,Function.comp_def]
  rw [List.map_cons,← words,loadAll,Nat.add_zero,count,ctestPerfSampleCallchain,count]
  simp only [bind,Except.bind,loop]

theorem decodeWords {reader : Reader} {r : Sample reader} (stored : Stored memory event r.bytes) :
    ∃ enough, ∀ fuel, enough ≤ fuel → reader.decode memory fuel event =
      loadAll memory event ((payloadWords reader.sampleType r.fields).map
        (fun p => (headerSize + p.1,p.2))) := by
  cases reader with
  | sampleCallchain => exact callchainLoads stored (payloadBehind r) r.fits
  | sampleRegs => exact ⟨0,fun _ _ => rfl⟩
  | sampleRegsIntr => exact ⟨0,fun _ _ => rfl⟩
  | sampleStackUser => exact ⟨0,fun _ _ => rfl⟩
  | samplePhysAddr => exact ⟨0,fun _ _ => rfl⟩
  | sampleDataPgsize => exact ⟨0,fun _ _ => rfl⟩

theorem decodesExactly {reader : Reader} {r : Sample reader} (stored : Stored memory event r.bytes) :
    DecodesRight r memory event ↔ Undistorted reader.sampleType r.fields :=
  (payloadRight stored (decodeWords stored)).trans (payloadRead reader.sampleType r.fields r.fits)

end

def memoryOf (bytes : List UInt8) : Memory := fun address => bytes[address]?

theorem memoryHolds (bytes : List UInt8) : Stored (memoryOf bytes) 0 bytes := by
  intro j _
  rw [Nat.zero_add]
  rfl

def sampleRegisters : Sample .sampleRegs where
  misc := 0
  fields := ⟨2,fun i => if i = perfRegArm64X0 then 7 else 9⟩
  fits := by decide

theorem abiShownAsRegister : ¬ DecodesRight sampleRegisters (memoryOf sampleRegisters.bytes) 0 := by
  intro right
  obtain ⟨enough,right⟩ := right
  obtain ⟨reads,read,shows⟩ := right enough (Nat.le_refl _)
  have shown : Reader.sampleRegs.visit (memoryOf sampleRegisters.bytes) enough 0 =
      .ok [⟨8,8,2⟩,⟨16,8,7⟩] := by
    rw [visitSample (memoryHolds _)]
    rfl
  rw [shown] at read
  cases read
  exact absurd shows.printed (by decide)

def sampleChain : Sample .sampleCallchain where
  misc := 0
  fields := ([4096,8192] : List UInt64)
  fits := by decide

theorem sampleDecodes : DecodesRight sampleChain (memoryOf sampleChain.bytes) 0 :=
  (decodesExactly (memoryHolds _)).mpr trivial

end KernelTestTools.PerfReaders
