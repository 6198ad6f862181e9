import Mathlib.Data.List.Basic
import Mathlib.Data.Nat.ModEq

/-! A byte memory in which an address may be unmapped, little-endian words, and a circular
area addressed by free-running counters of a fixed width. -/
namespace KernelTestTools.RingMemory

abbrev Memory := Nat → Option UInt8

def bytesAt (memory : Memory) (start : Nat) : Nat → Option (List UInt8)
  | 0 => some []
  | n+1 => do
    let front ← bytesAt memory start n
    let byte ← memory (start+n)
    some (front ++ [byte])

def word : List UInt8 → Nat
  | [] => 0
  | b::bs => b.toNat + 256 * word bs

theorem wordBound (bs : List UInt8) : word bs < 256 ^ bs.length := by
  induction bs with
  | nil => simp [word]
  | cons b bs ih =>
    have byte := b.toNat_lt
    simp only [word,List.length_cons,Nat.pow_succ]
    omega

def little (value : Nat) : Nat → List UInt8
  | 0 => []
  | width+1 => UInt8.ofNat value :: little (value / 256) width

@[simp] theorem littleLength (value width : Nat) : (little value width).length = width := by
  induction width generalizing value with
  | zero => rfl
  | succ width ih => simp [little,ih]

theorem wordLittle {value width : Nat} (small : value < 256 ^ width) : word (little value width) = value := by
  induction width generalizing value with
  | zero =>
    have none : value = 0 := by simpa using small
    simp [little,word,none]
  | succ width ih =>
    have rest : value / 256 < 256 ^ width := by
      rw [Nat.pow_succ] at small
      omega
    have byte : (UInt8.ofNat value).toNat = value % 256 := UInt8.toNat_ofNat'
    rw [little,word,ih rest,byte]
    omega

theorem bytesAtLength {memory start n bs} (read : bytesAt memory start n = some bs) :
    bs.length = n := by
  induction n generalizing bs with
  | zero => simp [bytesAt] at read; simp [← read]
  | succ n ih =>
    simp only [bytesAt,bind,Option.bind_eq_some_iff] at read
    obtain ⟨front,hf,byte,_,last⟩ := read
    cases Option.some.inj last
    simp [ih hf]

theorem bytesAtMapped {memory : Memory} {start n : Nat} :
    (∃ bs, bytesAt memory start n = some bs) ↔ ∀ i < n, (memory (start+i)).isSome := by
  induction n with
  | zero => simp [bytesAt]
  | succ n ih =>
    constructor
    · intro loaded i small
      obtain ⟨bs,read⟩ := loaded
      simp only [bytesAt,bind,Option.bind_eq_some_iff] at read
      obtain ⟨front,hf,byte,hb,_⟩ := read
      rcases Nat.lt_succ_iff_lt_or_eq.mp small with before | rfl
      · exact ih.mp ⟨front,hf⟩ i before
      · simp [hb]
    · intro mapped
      obtain ⟨front,hf⟩ := ih.mpr (fun i small => mapped i (Nat.lt_succ_of_lt small))
      obtain ⟨byte,hb⟩ := Option.isSome_iff_exists.mp (mapped n (Nat.lt_succ_self n))
      exact ⟨front ++ [byte],by simp [bytesAt,hf,hb]⟩

theorem bytesAtSlice {memory : Memory} {start skip n : Nat} {bytes : List UInt8}
    (agrees : ∀ i < n, memory (start+i) = bytes[skip+i]?) (inside : skip + n ≤ bytes.length) :
    bytesAt memory start n = some ((bytes.drop skip).take n) := by
  induction n with
  | zero => simp [bytesAt]
  | succ n ih =>
    have front := ih (fun i small => agrees i (Nat.lt_succ_of_lt small)) (by omega)
    have byte : memory (start+n) = some bytes[skip+n] := by
      rw [agrees n (Nat.lt_succ_self n),List.getElem?_eq_getElem]
    simp only [bytesAt,front,byte,bind,Option.bind]
    rw [List.take_succ_eq_append_getElem (by simp; omega)]
    simp

def Stored (memory : Memory) (start : Nat) (bytes : List UInt8) : Prop :=
  ∀ j < bytes.length, memory (start+j) = bytes[j]?

theorem storedRead {memory start bytes} (stored : Stored memory start bytes) {skip n : Nat}
    (inside : skip + n ≤ bytes.length) :
    bytesAt memory (start+skip) n = some ((bytes.drop skip).take n) := by
  refine bytesAtSlice (fun i small => ?_) inside
  rw [Nat.add_assoc,stored (skip+i) (by omega)]

/- The counter value at which each item of a sequence starts. -/
def place {α : Type} (length : α → Nat) (start : Nat) : List α → List (Nat × α)
  | [] => []
  | r::rest => (start,r)::place length (start + length r) rest

/- The bytes between two counters, read modulo the size of the area. -/
def Holds (memory : Memory) (size start : Nat) (bytes : List UInt8) : Prop :=
  ∀ j < bytes.length, memory ((start+j) % size) = bytes[j]?

theorem holdsAppend {memory size start xs ys} (holds : Holds memory size start (xs ++ ys)) :
    Holds memory size start xs ∧ Holds memory size (start+xs.length) ys := by
  constructor
  · intro j small
    rw [holds j (by simp; omega),List.getElem?_append_left small]
  · intro j small
    have whole := holds (xs.length+j) (by simp; omega)
    rw [List.getElem?_append_right (by omega)] at whole
    simpa [Nat.add_assoc] using whole

theorem placeHolds {α : Type} {bytes : α → List UInt8} {memory size start} {records : List α}
    (holds : Holds memory size start (records.flatMap bytes)) {position r}
    (mem : (position,r) ∈ place (fun r => (bytes r).length) start records) :
    Holds memory size position (bytes r) := by
  induction records generalizing start with
  | nil => simp [place] at mem
  | cons head rest ih =>
    obtain ⟨here,later⟩ := holdsAppend (by simpa using holds)
    rcases List.mem_cons.mp mem with same | inside
    · cases same; exact here
    · exact ih later inside

theorem straightAddress {size start k : Nat} (before : start % size + k < size) :
    (start+k) % size = start % size + k := by
  rw [Nat.add_mod,Nat.mod_eq_of_lt (b := size) (a := k) (by omega),Nat.mod_eq_of_lt before]

theorem holdsStraight {memory size start bytes} (holds : Holds memory size start bytes)
    {skip n : Nat} (inside : skip + n ≤ bytes.length) (before : start % size + skip + n ≤ size) :
    bytesAt memory (start % size + skip) n = some ((bytes.drop skip).take n) := by
  refine bytesAtSlice (fun i small => ?_) inside
  rw [← holds (skip+i) (by omega),straightAddress (by omega),Nat.add_assoc]

theorem alignedRoom {unit size start : Nat} (sizeAligned : unit ∣ size) (startAligned : unit ∣ start)
    (some : 0 < size) : start % size + unit ≤ size := by
  have offset : unit ∣ start % size := (Nat.dvd_mod_iff sizeAligned).mpr startAligned
  have small := Nat.mod_lt start some
  obtain ⟨a,ha⟩ := offset
  obtain ⟨b,hb⟩ := sizeAligned
  rw [ha,hb] at small ⊢
  have step : a + 1 ≤ b := Nat.lt_of_mul_lt_mul_left small
  calc unit*a + unit = unit*(a+1) := (Nat.mul_succ unit a).symm
    _ ≤ unit*b := Nat.mul_le_mul_left unit step

theorem counterOffset {size width start : Nat} (divides : size ∣ width) :
    start % width % size = start % size := Nat.mod_mod_of_dvd start divides

end KernelTestTools.RingMemory
