import Mathlib.Data.List.Forall2
import Mathlib.Data.List.GetD
import KernelTestTools.PerfReaders

/-! Runs of the sample loop over any filled part of the ring. The counters are 64 bits wide
and the loop stops on equality, so a run is followed record by record with the position of
each record as an unbounded number. -/
namespace KernelTestTools.PerfReaders
open RingMemory

structure Ring where
  pageSize : Nat
  power : ∃ k, 12 ≤ k ∧ pageSize = 2^k
  mappable : pageSize * (8+1) < counterRange
  memory : Memory
  mapped : Mapped memory 0 (8*pageSize)

def Ring.size (ring : Ring) : Nat := 8*ring.pageSize

structure Record where
  bytes : List UInt8
  aligned : 8 ∣ bytes.length
  header : headerSize ≤ bytes.length
  own : word ((bytes.drop 6).take 2) = bytes.length

def Record.length (r : Record) : Nat := r.bytes.length
def Record.kind (r : Record) : Nat := word ((r.bytes.drop 0).take 4)
def Record.first (r : Record) : Nat := word ((r.bytes.drop headerSize).take 8)

structure Filled (ring : Ring) (dataTail dataHead : Nat) (records : List Record) : Prop where
  tail : dataTail < counterRange
  head : dataHead < counterRange
  aligned : 8 ∣ dataTail
  distance : (dataHead + counterRange - dataTail) % counterRange = (records.flatMap Record.bytes).length
  capacity : (records.flatMap Record.bytes).length ≤ ring.size
  holds : Holds ring.memory ring.size dataTail (records.flatMap Record.bytes)

def run (program : Program) (ring : Ring) (dataHead fuel dataTail : Nat) :
    Except Stop (Nat × List Visit) :=
  sampleLoop program ring.memory (dataSize ring.pageSize) dataHead fuel dataTail

theorem ringSize (ring : Ring) : dataSize ring.pageSize = ring.size := by
  have fits := ring.mappable
  have small : mmapSize ring.pageSize = ring.pageSize * (8+1) := Nat.mod_eq_of_lt fits
  have shift : ring.pageSize * (8+1) + counterRange - ring.pageSize =
      ring.size + counterRange := by rw [Ring.size]; omega
  rw [dataSize,small,shift,Nat.add_mod_right,Nat.mod_eq_of_lt (by rw [Ring.size]; omega)]

theorem ringFacts (ring : Ring) :
    8 ∣ ring.size ∧ 0 < ring.size ∧ ring.size < counterRange ∧ ring.size ∣ counterRange := by
  obtain ⟨k,_,page⟩ := ring.power
  have fits := ring.mappable
  have size : ring.size = 2^(k+3) := by rw [Ring.size,page,Nat.pow_add]; omega
  have positive : 0 < ring.size := by rw [size]; exact Nat.two_pow_pos _
  have small : ring.size < counterRange := by rw [Ring.size]; omega
  refine ⟨⟨ring.pageSize,rfl⟩,positive,small,?_⟩
  rw [size] at small ⊢
  exact Nat.pow_dvd_pow 2 (Nat.le_of_lt ((Nat.pow_lt_pow_iff_right (by decide)).mp small))

structure Visited (program : Program) (ring : Ring) (position : Nat) (r : Record) (v : Visit) : Prop where
  offset : v.offset = position % ring.size
  kind : v.kind = r.kind
  size : v.size = r.length
  sample : r.kind = perfRecordSample → Accessible program ring.memory (position % ring.size) ∧
    loadAll ring.memory (position % ring.size)
      (footprint (firstWord ring.memory (position % ring.size)) program) = .ok v.reads
  other : r.kind ≠ perfRecordSample → v.reads = []

theorem headerLoads {ring : Ring} {position : Nat} {r : Record} (aligned : 8 ∣ position)
    (holds : Holds ring.memory ring.size position r.bytes) :
    load ring.memory (position % ring.size) 0 4 = .ok ⟨0,4,r.kind⟩ ∧
      load ring.memory (position % ring.size) 6 2 = .ok ⟨6,2,r.length⟩ := by
  obtain ⟨unit,positive,_,_⟩ := ringFacts ring
  have room := alignedRoom unit aligned positive
  have header := r.header
  unfold headerSize at header
  have kind := @holdsStraight _ _ _ _ holds 0 4 (by omega) (by omega)
  have length := @holdsStraight _ _ _ _ holds 6 2 (by omega) (by omega)
  exact ⟨loadOk.mpr ⟨_,kind,rfl⟩,loadOk.mpr ⟨_,length,by rw [r.own]; rfl⟩⟩

/- Where the counters stand while a nonempty rest is still ahead. -/
theorem notYet {position dataHead rest : Nat} (some : 0 < rest) (small : rest < counterRange)
    (head : dataHead = (position + rest) % counterRange) : dataHead ≠ position % counterRange := by
  intro same
  have zero : rest % counterRange = 0 := by
    have equal : (position + rest) % counterRange = (position + 0) % counterRange := by
      rw [← head,same,Nat.add_zero]
    exact Nat.ModEq.add_left_cancel' position equal
  rw [Nat.mod_eq_of_lt small] at zero
  omega

theorem recordPositive (r : Record) : 0 < r.length := by
  have header := r.header
  unfold headerSize at header
  unfold Record.length
  omega

theorem loopStep {program : Program} {ring : Ring} {position dataHead fuel : Nat} {r : Record}
    (aligned : 8 ∣ position) (holds : Holds ring.memory ring.size position r.bytes)
    (more : dataHead ≠ position % counterRange) :
    run program ring dataHead (fuel+1) (position % counterRange) = (do
      let reads ← onEvent program ring.memory fuel (position % ring.size) r.kind
      let rest ← run program ring dataHead fuel ((position + r.length) % counterRange)
      .ok (rest.1,⟨position % ring.size,r.kind,r.length,reads⟩::rest.2)) := by
  obtain ⟨kind,length⟩ := headerLoads aligned holds
  obtain ⟨_,_,_,divides⟩ := ringFacts ring
  have offset := @counterOffset ring.size counterRange position divides
  simp only [run,ringSize]
  rw [sampleLoop,if_pos more,offset,kind,length]
  simp only [bind,Except.bind,Nat.mod_add_mod]

theorem onEventFinished {program : Program} {ring : Ring} {position fuel : Nat} {r : Record} {reads}
    (done : onEvent program ring.memory fuel (position % ring.size) r.kind = .ok reads) :
    Visited program ring position r ⟨position % ring.size,r.kind,r.length,reads⟩ := by
  unfold onEvent at done
  split at done
  · rename_i sample
    exact ⟨rfl,rfl,rfl,fun _ => decodeFinished done,fun other => (other sample).elim⟩
  · rename_i other
    cases done
    exact ⟨rfl,rfl,rfl,fun sample => (other sample).elim,fun _ => rfl⟩

structure Stretch (ring : Ring) (position dataHead : Nat) (records : List Record) : Prop where
  aligned : 8 ∣ position
  head : dataHead = (position + (records.flatMap Record.bytes).length) % counterRange
  small : (records.flatMap Record.bytes).length < counterRange
  holds : Holds ring.memory ring.size position (records.flatMap Record.bytes)

theorem stretchStart {ring dataTail dataHead records} (filled : Filled ring dataTail dataHead records) :
    Stretch ring dataTail dataHead records := by
  have tail := filled.tail
  have head := filled.head
  have distance := filled.distance
  refine ⟨filled.aligned,?_,?_,filled.holds⟩
  · rw [← distance,Nat.add_mod_mod]
    have whole : dataTail + (dataHead + counterRange - dataTail) = dataHead + counterRange := by omega
    rw [whole,Nat.add_mod_right,Nat.mod_eq_of_lt head]
  · rw [← distance]
    exact Nat.mod_lt _ (by simp [counterRange])

theorem stretchStep {ring position dataHead r rest}
    (stretch : Stretch ring position dataHead (r::rest)) :
    Holds ring.memory ring.size position r.bytes ∧ dataHead ≠ position % counterRange ∧
      Stretch ring (position + r.length) dataHead rest := by
  have holds := stretch.holds
  have small := stretch.small
  have head := stretch.head
  have positive := recordPositive r
  rw [List.flatMap_cons] at holds small head
  rw [List.length_append] at small head
  obtain ⟨here,later⟩ := holdsAppend holds
  unfold Record.length at positive
  refine ⟨here,notYet (by omega) small head,Nat.dvd_add stretch.aligned r.aligned,?_,by omega,later⟩
  rw [head,Record.length,Nat.add_assoc]

theorem runFinished {program ring position dataHead fuel records dataTail visits}
    (stretch : Stretch ring position dataHead records)
    (done : run program ring dataHead fuel (position % counterRange) = .ok (dataTail,visits)) :
    dataTail = dataHead ∧
      List.Forall₂ (fun p v => Visited program ring p.1 p.2 v)
        (place Record.length position records) visits := by
  induction records generalizing position fuel visits with
  | nil =>
    have same : dataHead = position % counterRange := by simpa using stretch.head
    cases fuel with
    | zero => simp [run,sampleLoop] at done
    | succ fuel =>
      simp only [run,sampleLoop,ne_eq,same,not_true_eq_false,if_false] at done
      cases done
      exact ⟨same.symm,.nil⟩
  | cons r rest ih =>
    obtain ⟨here,more,later⟩ := stretchStep stretch
    cases fuel with
    | zero => simp [run,sampleLoop] at done
    | succ fuel =>
      rw [loopStep stretch.aligned here more] at done
      simp only [bind,Except.bind] at done
      split at done <;> try contradiction
      rename_i reads payload
      split at done <;> try contradiction
      rename_i out tail
      obtain ⟨outTail,outVisits⟩ := out
      cases done
      obtain ⟨settled,visited⟩ := ih later tail
      exact ⟨settled,.cons (onEventFinished payload) visited⟩

theorem runEnough {program ring position dataHead records}
    (stretch : Stretch ring position dataHead records)
    (accessible : ∀ p ∈ place Record.length position records, p.2.kind = perfRecordSample →
      Accessible program ring.memory (p.1 % ring.size)) :
    ∃ enough, ∀ fuel, enough ≤ fuel →
      ∃ out, run program ring dataHead fuel (position % counterRange) = .ok out := by
  induction records generalizing position with
  | nil =>
    have same : dataHead = position % counterRange := by simpa using stretch.head
    refine ⟨1,fun fuel enough => ?_⟩
    obtain ⟨more,rfl⟩ := Nat.exists_eq_add_of_le enough
    rw [Nat.add_comm]
    exact ⟨_,by simp [run,sampleLoop,same]; rfl⟩
  | cons r rest ih =>
    obtain ⟨here,more,later⟩ := stretchStep stretch
    obtain ⟨tailFuel,tail⟩ := ih later (fun p mem => accessible p (List.mem_cons_of_mem _ mem))
    have payload : ∃ enough, ∀ fuel, enough ≤ fuel →
        ∃ reads, onEvent program ring.memory fuel (position % ring.size) r.kind = .ok reads := by
      by_cases sample : r.kind = perfRecordSample
      · obtain ⟨enough,decoded⟩ := decodeEnough (accessible _ List.mem_cons_self sample)
        exact ⟨enough,fun fuel le => by simpa [onEvent,sample] using decoded fuel le⟩
      · exact ⟨0,fun fuel _ => ⟨[],by simp [onEvent,sample]⟩⟩
    obtain ⟨payloadFuel,payload⟩ := payload
    refine ⟨max tailFuel payloadFuel + 1,fun fuel enough => ?_⟩
    obtain ⟨extra,rfl⟩ := Nat.exists_eq_add_of_le enough
    obtain ⟨reads,hr⟩ := payload (max tailFuel payloadFuel + extra) (by omega)
    obtain ⟨out,ho⟩ := tail (max tailFuel payloadFuel + extra) (by omega)
    rw [show max tailFuel payloadFuel + 1 + extra = max tailFuel payloadFuel + extra + 1 by omega,
      loopStep stretch.aligned here more,hr]
    simp only [bind,Except.bind,ho]
    exact ⟨_,rfl⟩

theorem placeAligned {records : List Record} {start : Nat} (aligned : 8 ∣ start)
    {p} (mem : p ∈ place Record.length start records) : 8 ∣ p.1 := by
  induction records generalizing start with
  | nil => simp [place] at mem
  | cons r rest ih =>
    rcases List.mem_cons.mp mem with rfl | later
    · exact aligned
    · exact ih (Nat.dvd_add aligned r.aligned) later

/- The loop ends with data_tail at data_head after visiting the first byte of every
record, in order, each header inside the data area. -/
def Traverses (program : Program) (ring : Ring) (dataTail dataHead : Nat) (records : List Record) :
    Prop :=
  ∃ enough, ∀ fuel, enough ≤ fuel → ∃ visits,
    run program ring dataHead fuel dataTail = .ok (dataHead,visits) ∧
    visits.map (fun v => (v.offset,v.kind,v.size)) =
      (place Record.length dataTail records).map (fun p => (p.1 % ring.size,p.2.kind,p.2.length)) ∧
    ∀ v ∈ visits, v.offset + headerSize ≤ ring.size

theorem visitedHeaders {program ring visits} {places : List (Nat × Record)}
    (visited : List.Forall₂ (fun p v => Visited program ring p.1 p.2 v) places visits) :
    visits.map (fun v => (v.offset,v.kind,v.size)) =
      places.map (fun p => (p.1 % ring.size,p.2.kind,p.2.length)) := by
  induction visited with
  | nil => rfl
  | cons here _ ih => simp [here.offset,here.kind,here.size,ih]

theorem visitedPlace {program ring visits} {places : List (Nat × Record)}
    (visited : List.Forall₂ (fun p v => Visited program ring p.1 p.2 v) places visits) :
    (∀ p ∈ places, ∃ v ∈ visits, Visited program ring p.1 p.2 v) ∧
      ∀ v ∈ visits, ∃ p ∈ places, Visited program ring p.1 p.2 v := by
  induction visited with
  | nil => simp
  | @cons p v places visits here later ih =>
    obtain ⟨left,right⟩ := ih
    constructor
    · intro q mem
      rcases List.mem_cons.mp mem with rfl | inside
      · exact ⟨v,List.mem_cons_self,here⟩
      · obtain ⟨w,hw,same⟩ := left q inside
        exact ⟨w,List.mem_cons_of_mem _ hw,same⟩
    · intro w mem
      rcases List.mem_cons.mp mem with rfl | inside
      · exact ⟨p,List.mem_cons_self,here⟩
      · obtain ⟨q,hq,same⟩ := right w inside
        exact ⟨q,List.mem_cons_of_mem _ hq,same⟩

theorem filledRun {program ring dataTail dataHead records fuel out}
    (filled : Filled ring dataTail dataHead records)
    (done : run program ring dataHead fuel dataTail = .ok out) :
    out.1 = dataHead ∧ List.Forall₂ (fun p v => Visited program ring p.1 p.2 v)
      (place Record.length dataTail records) out.2 := by
  obtain ⟨tail,visits⟩ := out
  refine @runFinished program ring dataTail dataHead fuel records tail visits (stretchStart filled) ?_
  rw [Nat.mod_eq_of_lt filled.tail]
  exact done

theorem filledEnough {program ring dataTail dataHead records}
    (filled : Filled ring dataTail dataHead records)
    (accessible : ∀ p ∈ place Record.length dataTail records, p.2.kind = perfRecordSample →
      Accessible program ring.memory (p.1 % ring.size)) :
    ∃ enough, ∀ fuel, enough ≤ fuel → ∃ out, run program ring dataHead fuel dataTail = .ok out := by
  have whole := runEnough (stretchStart filled) accessible
  rwa [Nat.mod_eq_of_lt filled.tail] at whole

theorem sampleLoopTraverses {program : Program} {ring : Ring} {dataTail dataHead : Nat}
    {records : List Record} (filled : Filled ring dataTail dataHead records) :
    Traverses program ring dataTail dataHead records ↔
      ∀ p ∈ place Record.length dataTail records, p.2.kind = perfRecordSample →
        Accessible program ring.memory (p.1 % ring.size) := by
  constructor
  · intro traverses p mem sample
    obtain ⟨enough,finished⟩ := traverses
    obtain ⟨visits,done,_⟩ := finished enough (Nat.le_refl _)
    obtain ⟨v,_,visit⟩ := (visitedPlace (filledRun filled done).2).1 p mem
    exact (visit.sample sample).1
  · intro accessible
    obtain ⟨enough,finished⟩ := filledEnough filled accessible
    refine ⟨enough,fun fuel le => ?_⟩
    obtain ⟨⟨tail,visits⟩,done⟩ := finished fuel le
    obtain ⟨rfl,visited⟩ := filledRun filled done
    refine ⟨visits,done,visitedHeaders visited,fun v mem => ?_⟩
    obtain ⟨p,hp,visit⟩ := (visitedPlace visited).2 v mem
    obtain ⟨unit,positive,_,_⟩ := ringFacts ring
    rw [visit.offset]
    exact alignedRoom unit (placeAligned filled.aligned hp) positive

/- A sample with the instruction pointer 0x1234, stored from some offset of a ring of
eight 4096-byte pages; behind is what the process finds after the ring. -/
def ipSample : Record where
  bytes := [9,0,0,0,0,0,16,0,0x34,0x12,0,0,0,0,0,0]
  aligned := by decide
  header := by decide
  own := by decide

theorem areaMapped (byte : Nat → UInt8) (behind : Option UInt8) :
    Mapped (fun i => if i < 32768 then some (byte i) else behind) 0 (8*4096) := by
  intro i small
  have inside : 0 + i < 32768 := by omega
  simp only [inside,if_true,Option.isSome_some]

def ringWith (bytes : List UInt8) (offset : Nat) (behind : Option UInt8) : Ring where
  pageSize := 4096
  power := ⟨12,by decide,rfl⟩
  mappable := by decide
  memory := fun i => if i < 32768 then some (bytes.getD ((i + (32768 - offset)) % 32768) 0) else behind
  mapped := areaMapped _ behind

def ringAt (offset : Nat) (behind : Option UInt8) : Ring := ringWith ipSample.bytes offset behind

theorem ringHolds {bytes : List UInt8} {start : Nat} (fits : bytes.length ≤ 32768) (behind : Option UInt8) :
    Holds (ringWith bytes (start % 32768) behind).memory 32768 start bytes := by
  intro j small
  have inside : (start + j) % 32768 < 32768 := Nat.mod_lt _ (by decide)
  have back : ((start + j) % 32768 + (32768 - start % 32768)) % 32768 = j := by omega
  simp only [ringWith,inside,if_true,back]
  rw [List.getElem?_eq_getElem small,List.getD_eq_getElem _ _ small]

theorem wrappedSampleFilled (behind : Option UInt8) :
    Filled (ringAt 32760 behind) 32760 32776 [ipSample] :=
  ⟨by decide,by decide,by decide,by decide,show 16 ≤ 32768 by decide,
    @ringHolds ipSample.bytes 32760 (by decide) behind⟩

/- PERF_RECORD_LOST, between two samples, goes over the end of the ring. -/
def lostRecord : Record where
  bytes := [2,0,0,0,0,0,24,0,7,0,0,0,0,0,0,0,3,0,0,0,0,0,0,0]
  aligned := by decide
  header := by decide
  own := by decide

def laterSample : Record where
  bytes := [9,0,0,0,0,0,16,0,0x78,0x56,0,0,0,0,0,0]
  aligned := by decide
  header := by decide
  own := by decide

def mixedRecords : List Record := [ipSample,lostRecord,laterSample]

def mixedRing : Ring := ringWith (mixedRecords.flatMap Record.bytes) 32736 none

theorem mixedFilled : Filled mixedRing (counterRange - 32) 24 mixedRecords :=
  ⟨by decide,by decide,by decide,by decide,show 56 ≤ 32768 by decide,
    @ringHolds (mixedRecords.flatMap Record.bytes) (counterRange - 32) (by decide) none⟩

theorem mixedSamples {p : Nat × Record} (mem : p ∈ place Record.length (counterRange - 32) mixedRecords)
    (sample : p.2.kind = perfRecordSample) : p = (counterRange - 32,ipSample) ∨ p = (counterRange + 8,laterSample) := by
  simp only [mixedRecords,place,List.mem_cons,List.not_mem_nil,or_false] at mem
  rcases mem with rfl | rfl | rfl
  · exact .inl rfl
  · exact absurd sample (by decide)
  · exact .inr rfl

theorem mixedTraversed : Traverses .eventMmap mixedRing (counterRange - 32) 24 mixedRecords := by
  refine (sampleLoopTraverses mixedFilled).mpr (fun p mem sample => ⟨by simp,fun q word => ?_⟩)
  rw [List.mem_singleton.mp word]
  intro i small
  have inside : p.1 % mixedRing.size + headerSize + i < 8*4096 := by
    rcases mixedSamples mem sample with rfl | rfl
    · have start : (counterRange - 32) % mixedRing.size = 32736 := by decide
      simp only [start,headerSize]
      omega
    · have start : (counterRange + 8) % mixedRing.size = 8 := by decide
      simp only [start,headerSize]
      omega
  have mapped := mixedRing.mapped _ inside
  rwa [Nat.zero_add] at mapped

/- The header is the last eight bytes of the ring; the word behind it is not mapped. -/
theorem wrappedSampleFaults :
    Filled (ringAt 32760 none) 32760 32776 [ipSample] ∧
      ¬ Traverses .eventMmap (ringAt 32760 none) 32760 32776 [ipSample] := by
  refine ⟨wrappedSampleFilled none,?_⟩
  intro traverses
  obtain ⟨enough,finished⟩ := traverses
  obtain ⟨visits,done,_⟩ := finished enough (Nat.le_refl _)
  obtain ⟨v,_,visit⟩ := (visitedPlace (filledRun (wrappedSampleFilled none) done).2).1
    (32760,ipSample) List.mem_cons_self
  have word := (visit.sample (by decide)).1.2 (headerSize,8) List.mem_cons_self 0 (by decide)
  exact absurd word (by decide)

theorem placeRecords (start : Nat) (records : List Record) :
    (place Record.length start records).map Prod.snd = records := by
  induction records generalizing start with
  | nil => rfl
  | cons r rest ih => simp [place,ih]

theorem neededFootprint (first bound : Nat) (program : Program) :
    (∀ q ∈ footprint first program, q.1 + q.2 ≤ bound) ↔ needed first program ≤ bound := by
  cases program with
  | eventMmap => simp [footprint,needed,headerSize]
  | eventOverflow => simp [footprint,needed,headerSize]
  | samplePhysAddr => simp [footprint,needed,headerSize]
  | sampleStackUser =>
    simp only [footprint,needed,headerSize,List.mem_map,List.mem_range]
    constructor
    · intro all
      exact all (23,1) ⟨15,by decide,rfl⟩
    · intro le q mem
      obtain ⟨i,small,rfl⟩ := mem
      simp only
      omega
  | sampleCallchain =>
    simp only [footprint,needed,headerSize,List.mem_cons,List.mem_map,List.mem_range'_1]
    constructor
    · intro all
      by_cases empty : first = 0
      · have count := all (8,8) (.inl rfl)
        simp only at count
        omega
      · have last := all (8+8*first,8) (.inr ⟨first,by omega,rfl⟩)
        simp only at last
        omega
    · intro le q mem
      rcases mem with rfl | ⟨i,range,rfl⟩ <;> simp only <;> omega

theorem loadAllShape {memory event words reads} (read : loadAll memory event words = .ok reads) :
    reads.map (fun a => (a.skip,a.width)) = words ∧
      ∀ a ∈ reads, load memory event a.skip a.width = .ok a := by
  induction words generalizing reads with
  | nil => simp [loadAll] at read; subst reads; simp
  | cons q rest ih =>
    obtain ⟨a,tail,here,later,rfl⟩ := loadAllCons.mp read
    obtain ⟨shape,loads⟩ := ih later
    obtain ⟨bytes,_,same⟩ := loadOk.mp here
    have parts : a.skip = q.1 ∧ a.width = q.2 := by rw [same]; exact ⟨rfl,rfl⟩
    refine ⟨by rw [List.map_cons,shape,parts.1,parts.2],?_⟩
    intro x mem
    rcases List.mem_cons.mp mem with rfl | inside
    · rw [parts.1,parts.2]; exact here
    · exact loads x inside

/- Only a call chain has a footprint that depends on its first payload word. -/
theorem footprintFirst {program : Program} {first other : Nat}
    (same : program = .sampleCallchain → first = other) :
    footprint first program = footprint other program := by
  cases program with
  | sampleCallchain => rw [same rfl]
  | _ => rfl

def ReadsRecord (ring : Ring) (r : Record) (v : Visit) : Prop :=
  ∀ a ∈ v.reads, a.skip + a.width ≤ r.length ∧ v.offset + (a.skip + a.width) ≤ ring.size ∧
    a.value = word ((r.bytes.drop a.skip).take a.width)

def Decodes (program : Program) (ring : Ring) (dataTail dataHead : Nat) (records : List Record) :
    Prop :=
  ∃ enough, ∀ fuel, enough ≤ fuel → ∃ visits,
    run program ring dataHead fuel dataTail = .ok (dataHead,visits) ∧
    List.Forall₂ (ReadsRecord ring) records visits

def Contiguous (program : Program) (ring : Ring) (position : Nat) (r : Record) : Prop :=
  needed r.first program ≤ r.length ∧ position % ring.size + needed r.first program ≤ ring.size

theorem recordWidth (r : Record) : r.length < 65536 := by
  have bound := wordBound ((r.bytes.drop 6).take 2)
  have short : ((r.bytes.drop 6).take 2).length ≤ 2 := by simp
  have power := Nat.pow_le_pow_right (show 0 < 256 by decide) short
  rw [r.own] at bound
  exact Nat.lt_of_lt_of_le bound power

theorem neededFirst (first : Nat) (program : Program) : 16 ≤ needed first program := by
  cases program <;> simp [needed]

theorem contiguousLoads {program ring position r}
    (holds : Holds ring.memory ring.size position r.bytes) (inside : Contiguous program ring position r)
    {skip width : Nat} (within : skip + width ≤ needed r.first program) :
    bytesAt ring.memory (position % ring.size + skip) width = some ((r.bytes.drop skip).take width) := by
  obtain ⟨short,room⟩ := inside
  unfold Record.length at short
  exact holdsStraight holds (by omega) (by omega)

theorem contiguousFirst {program ring position r}
    (holds : Holds ring.memory ring.size position r.bytes)
    (inside : Contiguous program ring position r) :
    firstWord ring.memory (position % ring.size) = r.first := by
  have enough := neededFirst r.first program
  have read := @contiguousLoads program ring position r holds inside headerSize 8
    (by unfold headerSize; omega)
  simp [firstWord,read,Record.first]

theorem contiguousAccessible {program ring position r}
    (holds : Holds ring.memory ring.size position r.bytes)
    (inside : Contiguous program ring position r) :
    Accessible program ring.memory (position % ring.size) := by
  have first := contiguousFirst holds inside
  have width := recordWidth r
  rw [Accessible,first]
  constructor
  · intro chain
    subst chain
    have short := inside.1
    simp only [needed] at short
    unfold counterRange
    omega
  · intro q mem
    have within := (neededFootprint r.first _ program).mpr (Nat.le_refl _) q mem
    exact bytesAtMapped.mp ⟨_,contiguousLoads holds inside within⟩

theorem contiguousReads {program ring position r v}
    (holds : Holds ring.memory ring.size position r.bytes)
    (inside : Contiguous program ring position r)
    (visit : Visited program ring position r v) (sample : r.kind = perfRecordSample) :
    ReadsRecord ring r v := by
  obtain ⟨_,read⟩ := visit.sample sample
  rw [contiguousFirst holds inside] at read
  obtain ⟨shape,loads⟩ := loadAllShape read
  intro a mem
  have word' : (a.skip,a.width) ∈ footprint r.first program := by
    rw [← shape]
    exact List.mem_map.mpr ⟨a,mem,rfl⟩
  have within := (neededFootprint r.first _ program).mpr (Nat.le_refl _) _ word'
  obtain ⟨short,room⟩ := inside
  rw [visit.offset]
  refine ⟨by simp only at within; omega,by simp only at within; omega,?_⟩
  obtain ⟨bytes,found,same⟩ := loadOk.mp (loads a mem)
  have slice := contiguousLoads holds ⟨short,room⟩ within
  have value : a.value = word bytes := by rw [same]
  rw [value,Option.some.inj (found.symm.trans slice)]

theorem readsContiguous {program ring position r v}
    (visit : Visited program ring position r v) (sample : r.kind = perfRecordSample)
    (reads : ReadsRecord ring r v) : Contiguous program ring position r := by
  obtain ⟨_,read⟩ := visit.sample sample
  obtain ⟨shape,loads⟩ := loadAllShape read
  have first : program = .sampleCallchain →
      firstWord ring.memory (position % ring.size) = r.first := by
    intro chain
    subst chain
    rw [footprintChain] at read
    obtain ⟨count,chain,here,_,split⟩ := loadAllCons.mp read
    have member : count ∈ v.reads := by rw [split]; exact List.mem_cons_self
    obtain ⟨_,_,logical⟩ := reads count member
    obtain ⟨bytes,_,same⟩ := loadOk.mp here
    rw [← (firstWordLoaded here).1,logical,same]
    rfl
  have bounds : ∀ q ∈ footprint r.first program,
      q.1 + q.2 ≤ r.length ∧ q.1 + q.2 ≤ ring.size - position % ring.size ∧
        position % ring.size ≤ ring.size := by
    intro q mem
    rw [← footprintFirst first,← shape] at mem
    obtain ⟨a,ha,rfl⟩ := List.mem_map.mp mem
    obtain ⟨short,room,_⟩ := reads a ha
    rw [visit.offset] at room
    exact ⟨short,by omega,by omega⟩
  have short := (neededFootprint r.first r.length program).mp (fun q mem => (bounds q mem).1)
  have room := (neededFootprint r.first _ program).mp (fun q mem => (bounds q mem).2.1)
  have enough := neededFirst r.first program
  exact ⟨short,by omega⟩

theorem visitedReads {program ring visits} {places : List (Nat × Record)}
    (visited : List.Forall₂ (fun p v => Visited program ring p.1 p.2 v) places visits)
    (holds : ∀ p ∈ places, Holds ring.memory ring.size p.1 p.2.bytes) :
    List.Forall₂ (fun p v => ReadsRecord ring p.2 v) places visits ↔
      ∀ p ∈ places, p.2.kind = perfRecordSample → Contiguous program ring p.1 p.2 := by
  induction visited with
  | nil => simp
  | @cons p v places visits here later ih =>
    have rest := ih (fun q mem => holds q (List.mem_cons_of_mem _ mem))
    rw [List.forall₂_cons,rest,List.forall_mem_cons]
    refine and_congr_left (fun _ => ?_)
    constructor
    · intro reads sample
      exact readsContiguous here sample reads
    · intro contiguous
      by_cases sample : p.2.kind = perfRecordSample
      · exact contiguousReads (holds p List.mem_cons_self) (contiguous sample) here sample
      · intro a mem
        rw [here.other sample] at mem
        contradiction

theorem payloadDecoded {program : Program} {ring : Ring} {dataTail dataHead : Nat}
    {records : List Record} (filled : Filled ring dataTail dataHead records) :
    Decodes program ring dataTail dataHead records ↔
      ∀ p ∈ place Record.length dataTail records, p.2.kind = perfRecordSample →
        Contiguous program ring p.1 p.2 := by
  have holds : ∀ p ∈ place Record.length dataTail records,
      Holds ring.memory ring.size p.1 p.2.bytes := fun p mem => placeHolds filled.holds mem
  have records' := placeRecords dataTail records
  constructor
  · intro decodes
    obtain ⟨enough,finished⟩ := decodes
    obtain ⟨visits,done,reads⟩ := finished enough (Nat.le_refl _)
    rw [← records',List.forall₂_map_left_iff] at reads
    exact (visitedReads (filledRun filled done).2 holds).mp reads
  · intro contiguous
    obtain ⟨enough,finished⟩ := filledEnough filled
      (fun p mem sample => contiguousAccessible (holds p mem) (contiguous p mem sample))
    refine ⟨enough,fun fuel le => ?_⟩
    obtain ⟨⟨tail,visits⟩,done⟩ := finished fuel le
    obtain ⟨rfl,visited⟩ := filledRun filled done
    refine ⟨visits,done,?_⟩
    rw [← records',List.forall₂_map_left_iff]
    exact (visitedReads visited holds).mpr contiguous

theorem mixedDecoded : Decodes .eventMmap mixedRing (counterRange - 32) 24 mixedRecords := by
  refine (payloadDecoded mixedFilled).mpr (fun p mem sample => ?_)
  rcases mixedSamples mem sample with rfl | rfl
  · exact ⟨by decide,by decide⟩
  · exact ⟨by decide,by decide⟩

/- Here the memory behind the ring is readable, so the run ends, but the word it prints
is not the one the kernel wrote at the start of the ring. -/
theorem wrappedSampleMisread :
    Filled (ringAt 32760 (some 0)) 32760 32776 [ipSample] ∧
      ¬ Decodes .eventMmap (ringAt 32760 (some 0)) 32760 32776 [ipSample] := by
  have filled := wrappedSampleFilled (some 0)
  refine ⟨filled,?_⟩
  intro decodes
  obtain ⟨enough,finished⟩ := decodes
  obtain ⟨visits,done,reads⟩ := finished enough (Nat.le_refl _)
  rw [← placeRecords 32760 [ipSample],List.forall₂_map_left_iff] at reads
  have inside := (visitedReads (filledRun filled done).2
    (fun p mem => placeHolds filled.holds mem)).mp reads (32760,ipSample) List.mem_cons_self
    (by decide)
  exact absurd inside.2 (by decide)

end KernelTestTools.PerfReaders
