import Mathlib.Logic.Basic

/-! The open files of a process under their numbers: open takes the lowest free number, a child
has the files of its parent, and exec drops those that are marked for it. -/
namespace KernelTestTools.Descriptors

structure Descriptor (F : Type) where
  file : F
  closeOnExec : Bool

abbrev Table (F : Type) := List (Option (Descriptor F))

section
variable {F : Type}

def entry (t : Table F) (n : Nat) : Option (Descriptor F) := (t[n]?).join

def fileAt (t : Table F) (n : Nat) : Option F := (entry t n).map (·.file)

def free (t : Table F) : Nat := t.findIdx (·.isNone)

def opened (t : Table F) (d : Descriptor F) : Table F :=
  if free t < t.length then t.set (free t) (some d) else t ++ [some d]

def closed (t : Table F) (n : Nat) : Table F := t.set n none

def exec (t : Table F) : Table F := t.map (fun d => d.filter (fun d => !d.closeOnExec))

variable {t : Table F} {d e : Descriptor F} {n m : Nat}

theorem freeEmpty (t : Table F) : entry t (free t) = none := by
  unfold entry
  rcases Nat.lt_or_ge (free t) t.length with inside | outside
  · have empty : (t[free t]).isNone = true := List.findIdx_getElem (w := inside)
    rw [List.getElem?_eq_getElem inside,Option.isNone_iff_eq_none.mp empty]
    rfl
  · rw [List.getElem?_eq_none outside]
    rfl

theorem openedNew (t : Table F) (d : Descriptor F) : entry (opened t d) (free t) = some d := by
  unfold opened entry
  split
  · rename_i inside
    rw [List.getElem?_set_self inside]
    rfl
  · rename_i outside
    have last : free t = t.length := Nat.le_antisymm List.findIdx_le_length (Nat.le_of_not_lt outside)
    rw [last,List.getElem?_append_right (Nat.le_refl _),Nat.sub_self]
    rfl

theorem openedKept (used : entry t n = some e) : entry (opened t d) n = some e := by
  have other : free t ≠ n := by
    intro same
    rw [← same,freeEmpty] at used
    cases used
  have inside : n < t.length := by
    refine Nat.lt_of_not_le (fun outside => ?_)
    rw [entry,List.getElem?_eq_none outside] at used
    cases used
  unfold opened
  split
  · rw [entry,List.getElem?_set_ne other]
    exact used
  · rw [entry,List.getElem?_append_left inside]
    exact used

theorem closedOther (other : m ≠ n) : entry (closed t m) n = entry t n := by
  rw [entry,closed,List.getElem?_set_ne other,entry]

theorem execKept (used : entry t n = some e) (inherited : e.closeOnExec = false) : entry (exec t) n = some e := by
  have here : t[n]? = some (some e) := Option.join_eq_some_iff.mp used
  rw [entry,exec,List.getElem?_map,here]
  simp [inherited]

end

end KernelTestTools.Descriptors
