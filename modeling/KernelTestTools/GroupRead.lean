import Mathlib.Data.Fintype.Basic
import Mathlib.Data.List.OfFn
import Mathlib.Logic.Function.Basic
import Mathlib.Tactic.FinCases

/-! The group read of ctest_perf_event_pending.c and ctest_perf_event_min_heap.c: ids that
ioctl stores into an array of int, and the loops that look an entry's id up in it. Of the
memory around the array only the next int is modelled, where a write of eight bytes ends. -/
namespace KernelTestTools.GroupRead

def totalEvents : Nat := 5

abbrev Ids := Fin totalEvents → BitVec 64

structure Entry where
  value : BitVec 64
  id : BitVec 64
  deriving DecidableEq, Repr

/- The array id, and pe_val with none where nothing has been assigned. -/
abbrev Slots := Nat → BitVec 32
abbrev Counts := Nat → Option (BitVec 64)

/- PERF_EVENT_IOC_ID copies the 64 bits of an id to &id[i]. -/
def ioctlId (slots : Slots) (i : Nat) (id : BitVec 64) : Slots :=
  Function.update (Function.update slots i (id.setWidth 32)) (i+1) ((id >>> 32).setWidth 32)

def openEvents (ids : Ids) (before : Slots) : Slots :=
  (List.finRange totalEvents).foldl (fun slots i => ioctlId slots i.val (ids i)) before

/- An int in a comparison with a uint64_t. -/
def widened (slot : BitVec 32) : BitVec 64 := slot.signExtend 64

def matchEntry (slots : Slots) (i : Nat) (e : Entry) (peVal : Counts) : Counts :=
  (List.range totalEvents).foldl
    (fun peVal j => if e.id = widened (slots j) then Function.update peVal i (some e.value) else peVal) peVal

/- for (i = 0; i < counter_results.nr; i++) over the entries read. -/
def matchLoops (slots : Slots) : Nat → List Entry → Counts → Counts
  | _,[],peVal => peVal
  | i,e::rest,peVal => matchLoops slots (i+1) rest (matchEntry slots i e peVal)

def groupRead (before : Slots) (ids : Ids) (entries : List Entry) : Counts :=
  matchLoops (openEvents ids before) 0 entries (fun _ => none)

structure GroupResult (ids : Ids) (entries : List Entry) : Prop where
  distinct : Function.Injective ids
  listed : (entries.map Entry.id).Perm (List.ofFn ids)

def OwnCounts (ids : Ids) (entries : List Entry) (peVal : Counts) : Prop :=
  ∀ j : Fin totalEvents, ∀ e ∈ entries, e.id = ids j → peVal j = some e.value

def FitsInt (id : BitVec 64) : Prop := -0x80000000 ≤ id.toInt ∧ id.toInt < 0x80000000

def CountsInPlace (ids : Ids) (entries : List Entry) : Prop :=
  ∀ j : Fin totalEvents, ∀ e ∈ entries, e.id = ids j → (entries[j.val]?).map Entry.value = some e.value

theorem slotOfEvent (ids : Ids) (before : Slots) (j : Fin totalEvents) :
    openEvents ids before j = (ids j).setWidth 32 := by
  fin_cases j <;> rfl

theorem widenedFits (slot : BitVec 32) : FitsInt (widened slot) := by
  have exact' : (slot.signExtend 64).toInt = slot.toInt := BitVec.toInt_signExtend_of_le (by decide)
  have above := @BitVec.le_toInt 32 slot
  have below := @BitVec.toInt_lt 32 slot
  rw [FitsInt,widened,exact']
  omega

theorem keptIfFits (id : BitVec 64) : widened (id.setWidth 32) = id ↔ FitsInt id := by
  constructor
  · intro same
    rw [← same]
    exact widenedFits _
  · intro fits
    apply BitVec.eq_of_toInt_eq
    have exact' : ((id.setWidth 32).signExtend 64).toInt = (id.setWidth 32).toInt :=
      BitVec.toInt_signExtend_of_le (by decide)
    rw [widened,exact',BitVec.toInt_setWidth,Int.bmod]
    unfold FitsInt at fits
    rw [BitVec.toInt_eq_toNat_cond] at fits ⊢
    split <;> split <;> omega

def hit (slots : Slots) (e : Entry) : Bool := (List.range totalEvents).any (fun j => e.id = widened (slots j))

theorem matchEntrySpec (slots : Slots) (i : Nat) (e : Entry) (peVal : Counts) :
    matchEntry slots i e peVal = if hit slots e then Function.update peVal i (some e.value) else peVal := by
  unfold matchEntry hit
  induction List.range totalEvents generalizing peVal with
  | nil => rfl
  | cons j js ih =>
    rw [List.foldl_cons,ih,List.any_cons]
    by_cases here : e.id = widened (slots j)
    · rw [if_pos here,decide_eq_true here,Function.update_idem,ite_self]
      rfl
    · rw [if_neg here,decide_eq_false here]
      rfl

section
variable {slots : Slots} {ids : Ids} {before : Slots} {entries : List Entry} {e : Entry}

theorem loopsBehind {start k : Nat} (earlier : k < start) (peVal : Counts) :
    matchLoops slots start entries peVal k = peVal k := by
  induction entries generalizing start peVal with
  | nil => rfl
  | cons e rest ih =>
    have other : k ≠ start := by omega
    rw [matchLoops,ih (by omega),matchEntrySpec]
    split
    · exact Function.update_of_ne other _ _
    · rfl

/- The outer index runs over positions, so what an entry brings goes to its position. -/
theorem loopsAt {n : Nat} (place : entries[n]? = some e) (start : Nat) (peVal : Counts) :
    matchLoops slots start entries peVal (start+n) = if hit slots e then some e.value else peVal (start+n) := by
  induction entries generalizing start n peVal with
  | nil => cases place
  | cons first rest ih =>
    rw [matchLoops,matchEntrySpec]
    cases n with
    | zero =>
      cases place
      rw [loopsBehind (by omega)]
      split
      · exact Function.update_self _ _ _
      · rfl
    | succ n =>
      rw [List.getElem?_cons_succ] at place
      have next : start + (n+1) = start+1+n := by omega
      have other : start+1+n ≠ start := by omega
      rw [next,ih place]
      split
      · rfl
      · split
        · exact Function.update_of_ne other _ _
        · rfl

theorem eventOfEntry (result : GroupResult ids entries) (mem : e ∈ entries) : ∃ j, e.id = ids j := by
  have listed := result.listed.subset (List.mem_map_of_mem mem)
  obtain ⟨j,same⟩ := List.mem_ofFn.mp listed
  exact ⟨j,same.symm⟩

theorem entryOfEvent (result : GroupResult ids entries) (j : Fin totalEvents) : ∃ e ∈ entries, e.id = ids j :=
  List.mem_map.mp (result.listed.symm.subset (List.mem_ofFn.mpr ⟨j,rfl⟩))

theorem entryAt (result : GroupResult ids entries) (j : Fin totalEvents) : ∃ e ∈ entries, entries[j.val]? = some e := by
  have count := result.listed.length_eq
  rw [List.length_map,List.length_ofFn] at count
  have inside : j.val < entries.length := count.symm ▸ j.isLt
  exact ⟨entries[j.val],List.getElem_mem inside,List.getElem?_eq_getElem inside⟩

theorem hitIffFits (result : GroupResult ids entries) (mem : e ∈ entries) :
    hit (openEvents ids before) e = true ↔ FitsInt e.id := by
  rw [hit,List.any_eq_true]
  constructor
  · intro found
    obtain ⟨j,_,same⟩ := found
    rw [of_decide_eq_true same]
    exact widenedFits _
  · intro fits
    obtain ⟨j,own⟩ := eventOfEntry result mem
    refine ⟨j.val,List.mem_range.mpr j.isLt,decide_eq_true ?_⟩
    rw [slotOfEvent,← own]
    exact ((keptIfFits e.id).mpr fits).symm

theorem countAt {j : Fin totalEvents} (place : entries[j.val]? = some e) :
    groupRead before ids entries j = if hit (openEvents ids before) e then some e.value else none := by
  have written := @loopsAt (openEvents ids before) entries e j.val place 0 (fun _ => none)
  rw [Nat.zero_add] at written
  exact written

end

theorem groupReadExactly (ids : Ids) (before : Slots) (entries : List Entry) (result : GroupResult ids entries) :
    OwnCounts ids entries (groupRead before ids entries) ↔
      (∀ j, FitsInt (ids j)) ∧ CountsInPlace ids entries := by
  constructor
  · intro own
    have here : ∀ j : Fin totalEvents, ∀ k ∈ entries, entries[j.val]? = some k →
        FitsInt k.id ∧ ∀ e ∈ entries, e.id = ids j → k.value = e.value := by
      intro j k listed place
      obtain ⟨e,mem,named⟩ := entryOfEvent result j
      have count := own j e mem named
      rw [countAt place] at count
      split at count
      · rename_i found
        refine ⟨(hitIffFits result listed).mp found,fun d inside same => ?_⟩
        have other := own j d inside same
        rw [countAt place,if_pos found] at other
        exact Option.some.inj other
      · cases count
    constructor
    · intro j
      obtain ⟨e,mem,named⟩ := entryOfEvent result j
      obtain ⟨n,inside,same⟩ := List.getElem_of_mem mem
      have count := result.listed.length_eq
      rw [List.length_map,List.length_ofFn] at count
      have fits := (here ⟨n,count ▸ inside⟩ e mem (by rw [← same]; exact List.getElem?_eq_getElem inside)).1
      rwa [named] at fits
    · intro j e mem named
      obtain ⟨k,listed,place⟩ := entryAt result j
      rw [place,Option.map_some,(here j k listed place).2 e mem named]
  · intro both j e mem named
    obtain ⟨fits,placed⟩ := both
    obtain ⟨k,listed,place⟩ := entryAt result j
    have value := placed j e mem named
    rw [place,Option.map_some] at value
    obtain ⟨i,own⟩ := eventOfEntry result listed
    have found : hit (openEvents ids before) k = true := (hitIffFits result listed).mpr (own ▸ fits i)
    rw [countAt place,if_pos found,value]

def sampleIds : Ids := fun j => BitVec.ofNat 64 (j.val+1)

def inOrder : List Entry := [⟨10,1⟩,⟨20,2⟩,⟨30,3⟩,⟨40,4⟩,⟨50,5⟩]

theorem sampleInjective : Function.Injective sampleIds := by decide

theorem sampleGroupRead : OwnCounts sampleIds inOrder (groupRead (fun _ => 0) sampleIds inOrder) ↔
    (∀ j, FitsInt (sampleIds j)) ∧ CountsInPlace sampleIds inOrder :=
  groupReadExactly sampleIds (fun _ => 0) inOrder ⟨sampleInjective,by decide⟩

def firstTwoSwapped : List Entry := [⟨20,2⟩,⟨10,1⟩,⟨30,3⟩,⟨40,4⟩,⟨50,5⟩]

theorem swappedCounts : GroupResult sampleIds firstTwoSwapped ∧
    ¬ OwnCounts sampleIds firstTwoSwapped (groupRead (fun _ => 0) sampleIds firstTwoSwapped) := by
  refine ⟨⟨sampleInjective,by decide⟩,fun own => ?_⟩
  have first := own ⟨0,by decide⟩ ⟨10,1⟩ (by decide) rfl
  revert first
  decide

end KernelTestTools.GroupRead
