import KernelTestTools.PerfReaders
import KernelTestTools.StepRuns

/-! The AUX branch of ctest_perf_aux_sample.c. The counters aux_head and aux_tail run freely
over 64 bits while the AUX area is circular; the program uses them as offsets as they are. -/
namespace KernelTestTools.AuxReader
open RingMemory PerfReaders StepRuns

abbrev Counter := BitVec 64

def auxSize (pageSize : Nat) : Nat := pageSize * 4 % counterRange

structure Record where
  kind : Nat
  auxHead : Counter
  area : Memory

/- for (size_t i = 0; i < 16 && aux_tail + i < aux_head; i++): the offsets into aux_data. -/
def auxLoop (auxTail auxHead : Counter) : Nat → Nat → List Nat
  | 0,_ => []
  | left+1,i =>
    if auxTail + BitVec.ofNat 64 i < auxHead then
      (auxTail + BitVec.ofNat 64 i).toNat::auxLoop auxTail auxHead left (i+1)
    else []

def auxOffsets (auxTail auxHead : Counter) : List Nat := auxLoop auxTail auxHead 16 0

def printed (auxTail : Counter) (r : Record) : List (Option UInt8) := (auxOffsets auxTail r.auxHead).map r.area

def visitRecord (auxTail : Counter) (r : Record) : Counter :=
  if r.kind = perfRecordSample then r.auxHead else auxTail

def unreadCount (auxTail auxHead : Counter) : Nat := min 16 (auxHead - auxTail).toNat

def firstUnread (size : Nat) (auxTail : Counter) (r : Record) : List (Option UInt8) :=
  (List.range (unreadCount auxTail r.auxHead)).map
    (fun k => r.area ((auxTail + BitVec.ofNat 64 k).toNat % size))

structure PrintsUnread (size : Nat) (auxTail : Counter) (r : Record) : Prop where
  inside : ∀ offset ∈ auxOffsets auxTail r.auxHead, offset < size
  bytes : printed auxTail r = firstUnread size auxTail r

def SampleRight (size : Nat) (auxTail : Counter) (r : Record) : Prop :=
  r.kind = perfRecordSample → PrintsUnread size auxTail r

def Paced (size : Nat) (auxTail : Counter) (r : Record) : Prop := (r.auxHead - auxTail).toNat ≤ size

/- What is to be printed lies below the end of the area with no wrap of either kind. -/
def BelowEnd (size : Nat) (auxTail : Counter) (r : Record) : Prop :=
  r.kind = perfRecordSample → r.auxHead = auxTail ∨
    auxTail < r.auxHead ∧ auxTail.toNat + unreadCount auxTail r.auxHead ≤ size

section
variable {auxTail auxHead : Counter}

theorem auxLoopForward {i : Nat} (behind : auxTail.toNat + i ≤ auxHead.toNat) (left : Nat) :
    auxLoop auxTail auxHead left i =
      List.range' (auxTail.toNat + i) (min left (auxHead.toNat - (auxTail.toNat + i))) := by
  have bound := auxHead.isLt
  induction left generalizing i with
  | zero =>
    rw [Nat.zero_min]
    rfl
  | succ left ih =>
    have sum : (auxTail + BitVec.ofNat 64 i).toNat = auxTail.toNat + i := by
      rw [BitVec.toNat_add,BitVec.toNat_ofNat]
      omega
    simp only [auxLoop,BitVec.lt_def,sum]
    split
    · rename_i more
      have count : min (left+1) (auxHead.toNat - (auxTail.toNat + i)) =
          min left (auxHead.toNat - (auxTail.toNat + (i+1))) + 1 := by omega
      rw [ih (by omega),count,List.range'_succ]
      rfl
    · rename_i reached
      have none : min (left+1) (auxHead.toNat - (auxTail.toNat + i)) = 0 := by omega
      rw [none]
      rfl

theorem forwardDistance (behind : auxTail ≤ auxHead) :
    (auxHead - auxTail).toNat = auxHead.toNat - auxTail.toNat := by
  rw [BitVec.le_def] at behind
  rw [BitVec.toNat_sub]
  omega

theorem auxOffsetsForward (behind : auxTail ≤ auxHead) :
    auxOffsets auxTail auxHead = List.range' auxTail.toNat (unreadCount auxTail auxHead) := by
  have near : auxTail.toNat + 0 ≤ auxHead.toNat := behind
  rw [auxOffsets,auxLoopForward near,unreadCount,forwardDistance behind]
  rfl

theorem auxOffsetsWrapped (wrapped : auxHead < auxTail) : auxOffsets auxTail auxHead = [] := by
  have start : auxTail + BitVec.ofNat 64 0 = auxTail := BitVec.add_zero auxTail
  unfold auxOffsets auxLoop
  rw [start,if_neg]
  rw [BitVec.lt_def] at wrapped ⊢
  omega

end

theorem unreadForward {size : Nat} {auxTail : Counter} {r : Record} (behind : auxTail ≤ r.auxHead)
    (below : auxTail.toNat + unreadCount auxTail r.auxHead ≤ size) : PrintsUnread size auxTail r := by
  have offsets := auxOffsetsForward behind
  refine ⟨?_,?_⟩
  · intro offset mem
    rw [offsets,List.mem_range'_1] at mem
    omega
  · have head := r.auxHead.isLt
    have distance := forwardDistance behind
    rw [BitVec.le_def] at behind
    rw [printed,offsets,firstUnread,List.range'_eq_map_range,List.map_map]
    refine List.map_congr_left (fun k mem => ?_)
    rw [List.mem_range] at mem
    have near : k < r.auxHead.toNat - auxTail.toNat := by
      unfold unreadCount at mem
      omega
    have sum : (auxTail + BitVec.ofNat 64 k).toNat = auxTail.toNat + k := by
      rw [BitVec.toNat_add,BitVec.toNat_ofNat]
      omega
    have inside : auxTail.toNat + k < size := by omega
    rw [sum,Nat.mod_eq_of_lt inside]
    rfl

theorem unreadDrained {size : Nat} {auxTail : Counter} {r : Record} (same : r.auxHead = auxTail) :
    PrintsUnread size auxTail r := by
  have none : unreadCount auxTail r.auxHead = 0 := by
    rw [same,unreadCount,BitVec.sub_self]
    rfl
  have offsets : auxOffsets auxTail r.auxHead = [] := by
    rw [auxOffsetsForward (same ▸ BitVec.le_refl _),none]
    rfl
  refine ⟨?_,?_⟩
  · rw [offsets]
    simp
  · rw [printed,offsets,firstUnread,none]
    rfl

theorem wrappedSilent {size : Nat} {auxTail : Counter} {r : Record} (wrapped : r.auxHead < auxTail) :
    ¬ PrintsUnread size auxTail r := by
  intro right
  have none : printed auxTail r = [] := by
    rw [printed,auxOffsetsWrapped wrapped]
    rfl
  have count := congrArg List.length right.bytes
  rw [none,firstUnread,List.length_map,List.length_range,unreadCount,List.length_nil] at count
  have zero : (r.auxHead - auxTail).toNat = 0 := by omega
  rw [BitVec.toNat_sub] at zero
  rw [BitVec.lt_def] at wrapped
  have bound := auxTail.isLt
  omega

theorem insideBelow {size : Nat} {auxTail : Counter} {r : Record} (ahead : auxTail < r.auxHead)
    (right : PrintsUnread size auxTail r) : auxTail.toNat + unreadCount auxTail r.auxHead ≤ size := by
  have behind : auxTail ≤ r.auxHead := BitVec.le_of_lt ahead
  have distance := forwardDistance behind
  have last := right.inside (auxTail.toNat + (unreadCount auxTail r.auxHead - 1))
  rw [auxOffsetsForward behind,List.mem_range'_1] at last
  have some : 0 < unreadCount auxTail r.auxHead := by
    rw [BitVec.lt_def] at ahead
    unfold unreadCount
    omega
  have inside := last (by omega)
  omega

theorem sampleRightIff (size : Nat) (auxTail : Counter) (r : Record) :
    SampleRight size auxTail r ↔ BelowEnd size auxTail r := by
  refine forall_congr' (fun _ => ?_)
  constructor
  · intro right
    by_cases same : r.auxHead = auxTail
    · exact .inl same
    have ahead : auxTail < r.auxHead := by
      have forward : ¬ r.auxHead < auxTail := fun wrapped => wrappedSilent wrapped right
      have apart : r.auxHead.toNat ≠ auxTail.toNat := fun h => same (BitVec.eq_of_toNat_eq h)
      rw [BitVec.lt_def] at forward ⊢
      omega
    exact .inr ⟨ahead,insideBelow ahead right⟩
  · intro below
    rcases below with same | ⟨ahead,fits⟩
    · exact unreadDrained same
    · exact unreadForward (BitVec.le_of_lt ahead) fits

theorem auxReadsExactly (pageSize : Nat) (auxTail : Counter) (records : List Record) :
    EachStep visitRecord (SampleRight (auxSize pageSize)) auxTail records ↔
      EachStep visitRecord (BelowEnd (auxSize pageSize)) auxTail records :=
  eachStepIff (sampleRightIff (auxSize pageSize)) auxTail records

def sampleAt (auxHead : Counter) : Record := ⟨perfRecordSample,auxHead,fun offset => if offset < 16384 then some 0 else none⟩

/- The second sample behind a full area: its bytes lie at the front again, but are looked
for behind the end. -/
theorem secondSampleOutside : EachStep visitRecord (Paced (auxSize 4096)) 0 [sampleAt 16384,sampleAt 16400] ∧
    ¬ EachStep visitRecord (SampleRight (auxSize 4096)) 0 [sampleAt 16384,sampleAt 16400] := by
  constructor
  · rw [eachStepCons,eachStepCons]
    exact ⟨by unfold Paced; decide,by unfold Paced; decide,eachStepNil⟩
  · intro right
    rw [eachStepCons,eachStepCons] at right
    have outside := (right.2.1 rfl).inside 16384 (by decide)
    revert outside
    decide

end KernelTestTools.AuxReader
