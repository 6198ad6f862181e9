import KernelTestTools.TextFile
import Mathlib.Algebra.Group.Nat.Defs

/-! Texts as a shell and its filters handle them: words between blanks, the first field of a
line, lines joined by a command substitution, and numbers in hexadecimal digits. -/
namespace KernelTestTools.ShellText
open TextFile

def blank (c : Char) : Bool := c == ' ' || c == '\t' || c == '\n'

def Word (w : Text) : Prop := w ≠ [] ∧ ∀ c ∈ w, blank c = false

theorem blankFree {w : Text} (plain : w.all (fun c => !blank c) = true) : ∀ c ∈ w, blank c = false := by
  simpa using plain

theorem blankFreeAll {ws : List Text} (plain : ws.all (fun w => w.all (fun c => !blank c)) = true) :
    ∀ w ∈ ws, ∀ c ∈ w, blank c = false := by
  simpa using plain

theorem blankAbsent {w : Text} {c : Char} (space : blank c = true) (plain : ∀ d ∈ w, blank d = false) : c ∉ w := by
  intro mem
  rw [plain c mem] at space
  cases space

/- An unquoted expansion. -/
def splitWords (s : Text) : List Text := (s.splitOnP blank).filter (· ≠ [])

/- awk '{print $1}' -/
def firstField (line : Text) : Text := (line.dropWhile blank).takeWhile (fun c => !blank c)

/- "$(...)" of some lines. -/
def joinedLines (ls : List Text) : Text := ['\n'].intercalate ls

theorem joinedOne (l : Text) : joinedLines [l] = l := by simp [joinedLines]

theorem joinedCons (l k : Text) (ls : List Text) : joinedLines (l::k::ls) = l ++ '\n' :: joinedLines (k::ls) := by
  rw [joinedLines,joinedLines,List.intercalate_cons_cons]
  simp

section
variable {w : Text} {c : Char}

theorem splitWordsCons (word : Word w) (space : blank c = true) (rest : Text) :
    splitWords (w ++ c::rest) = w::splitWords rest := by
  rw [splitWords,List.splitOnP_append_cons_of_forall_mem word.2 c space,List.filter_cons_of_pos (by simpa using word.1)]
  rfl

theorem splitWordsOne (word : Word w) : splitWords w = [w] := by
  rw [splitWords,List.splitOnP_eq_singleton word.2,List.filter_cons_of_pos (by simpa using word.1)]
  rfl

theorem firstFieldWord (word : Word w) (space : blank c = true) (rest : Text) : firstField (w ++ c::rest) = w := by
  obtain ⟨nonempty,whole⟩ := word
  obtain ⟨d,w,rfl⟩ := List.exists_cons_of_ne_nil nonempty
  have first : blank d = false := whole d List.mem_cons_self
  rw [firstField,List.cons_append,List.dropWhile_cons_of_neg (by simp [first]),← List.cons_append,
    List.takeWhile_append_of_pos (by simpa using whole)]
  simp [space]

theorem wordAppend {front : Text} (plain : ∀ d ∈ front, blank d = false) (word : Word w) : Word (front ++ w) := by
  refine ⟨List.append_ne_nil_of_right_ne_nil _ word.1,fun d mem => ?_⟩
  rcases List.mem_append.mp mem with early | late
  · exact plain d early
  · exact word.2 d late

theorem splitWordsJoined {front : Text} {words : List Text} (plain : ∀ d ∈ front, blank d = false)
    (word : Word w) (all : ∀ v ∈ words, Word v) :
    splitWords (front ++ joinedLines (w::words)) = (front ++ w)::words := by
  induction words generalizing w front with
  | nil =>
    rw [joinedOne,splitWordsOne (wordAppend plain word)]
  | cons v words ih =>
    have rest := @ih v [] (by simp) (all v List.mem_cons_self) (fun x mem => all x (List.mem_cons_of_mem _ mem))
    rw [List.nil_append,List.nil_append] at rest
    rw [joinedCons,← List.append_assoc,splitWordsCons (wordAppend plain word) (by decide),rest]

end

/- "${s##*c}" -/
def behindLast (c : Char) (s : Text) : Text := s.rtakeWhile (· != c)

theorem behindLastSplit {c : Char} {tail : Text} (free : c ∉ tail) (front : Text) :
    behindLast c (front ++ c::tail) = tail := by
  have all : ∀ d ∈ tail.reverse, (d != c) = true := by
    intro d mem
    rw [bne_iff_ne]
    rintro rfl
    exact free (List.mem_reverse.mp mem)
  rw [behindLast,List.rtakeWhile,List.reverse_append,List.reverse_cons,List.append_assoc,List.singleton_append,
    List.takeWhile_append_of_pos all,List.takeWhile_cons_of_neg (by simp),List.append_nil,List.reverse_reverse]

theorem behindLastWhole {c : Char} {s : Text} (free : c ∉ s) : behindLast c s = s := by
  rw [behindLast,List.rtakeWhile_eq_self_iff]
  intro d mem
  rw [bne_iff_ne]
  rintro rfl
  exact free mem

section
variable {A : Type}

/- Lists side by side with a separator between them and at both ends: " ${list[@]} " -/
def padded (a : A) (ls : List (List A)) : List A := a :: ([a].intercalate ls ++ [a])

variable {a : A} {x : List A}

theorem paddedOne (a : A) (x : List A) : padded a [x] = a :: (x ++ [a]) := by simp [padded]

theorem paddedCons (a : A) (l k : List A) (ls : List (List A)) :
    padded a (l::k::ls) = a :: (l ++ padded a (k::ls)) := by
  rw [padded,padded,List.intercalate_cons_cons]
  simp

theorem infixBehind {l rest : List A} (free : a ∉ l) : a::x <:+: l ++ rest ↔ a::x <:+: rest := by
  induction l with
  | nil => rfl
  | cons b l ih =>
    have apart : ¬a::x <+: b::(l ++ rest) := by
      intro start
      obtain ⟨same,_⟩ := List.cons_prefix_cons.mp start
      exact free (by simp [same])
    rw [List.cons_append,List.infix_cons_iff,ih (fun mem => free (List.mem_cons_of_mem b mem)),or_iff_right apart]

theorem prefixSeparated {l rest : List A} (own : a ∉ x) (free : a ∉ l) :
    x ++ [a] <+: l ++ a::rest ↔ x = l := by
  induction x generalizing l with
  | nil =>
    cases l with
    | nil => simp
    | cons b l =>
      have apart : a ≠ b := fun same => free (by simp [same])
      simp [apart]
  | cons c x ih =>
    cases l with
    | nil =>
      have apart : c ≠ a := fun same => own (by simp [same])
      simp [apart]
    | cons b l =>
      have later := @ih l (fun mem => own (List.mem_cons_of_mem c mem)) (fun mem => free (List.mem_cons_of_mem b mem))
      rw [List.cons_append,List.cons_append,List.cons_prefix_cons,later,List.cons.injEq]

theorem paddedMember {ls : List (List A)} (some : x ≠ []) (own : a ∉ x) (free : ∀ l ∈ ls, a ∉ l) :
    padded a [x] <:+: padded a ls ↔ x ∈ ls := by
  rw [paddedOne]
  induction ls with
  | nil =>
    obtain ⟨c,x,rfl⟩ := List.exists_cons_of_ne_nil some
    have apart : c ≠ a := fun same => own (by simp [same])
    simp [padded,List.infix_cons_iff,apart]
  | cons l ls ih =>
    have here := free l List.mem_cons_self
    cases ls with
    | nil =>
      have last : ¬a::(x ++ [a]) <:+: [a] := by simp [List.infix_cons_iff]
      rw [paddedOne,List.infix_cons_iff,List.cons_prefix_cons,prefixSeparated own here,infixBehind here]
      simp [last]
    | cons k ls =>
      have rest := ih (fun m mem => free m (List.mem_cons_of_mem l mem))
      have front : padded a (k::ls) = a::([a].intercalate (k::ls) ++ [a]) := rfl
      rw [paddedCons,List.infix_cons_iff,List.cons_prefix_cons,infixBehind here,rest,front,prefixSeparated own here]
      simp

end

def hexText : Nat → Nat → Text
  | 0,_ => []
  | width+1,n => hexText width (n/16) ++ [Nat.digitChar (n%16)]

def hexDigit (c : Char) : Bool :=
  (0x30 ≤ c.toNat && c.toNat ≤ 0x39) || (0x41 ≤ c.toNat && c.toNat ≤ 0x46) || (0x61 ≤ c.toNat && c.toNat ≤ 0x66)

def hexDigitValue (c : Char) : Nat :=
  if c.toNat ≤ 0x39 then c.toNat - 0x30 else if c.toNat ≤ 0x46 then c.toNat - 0x37 else c.toNat - 0x57

def hexValue (s : Text) : Nat := s.foldl (fun v c => 16*v + hexDigitValue c) 0

theorem digitCharHex {d : Nat} (small : d < 16) :
    hexDigit (Nat.digitChar d) = true ∧ hexDigitValue (Nat.digitChar d) = d := by
  have all : ∀ d < 16, hexDigit (Nat.digitChar d) = true ∧ hexDigitValue (Nat.digitChar d) = d := by decide
  exact all d small

theorem hexTextLength (width n : Nat) : (hexText width n).length = width := by
  induction width generalizing n with
  | zero => rfl
  | succ width ih => rw [hexText,List.length_append,ih,List.length_singleton]

theorem hexTextDigits {width n : Nat} : ∀ c ∈ hexText width n, hexDigit c = true := by
  induction width generalizing n with
  | zero => simp [hexText]
  | succ width ih =>
    intro c mem
    rw [hexText,List.mem_append,List.mem_singleton] at mem
    rcases mem with early | rfl
    · exact ih c early
    · exact (digitCharHex (Nat.mod_lt n (by decide))).1

theorem hexValueText {width n : Nat} (small : n < 16^width) : hexValue (hexText width n) = n := by
  induction width generalizing n with
  | zero =>
    have zero : n = 0 := by simpa using small
    rw [zero]
    rfl
  | succ width ih =>
    have rest : n/16 < 16^width := by
      rw [Nat.pow_succ] at small
      omega
    have front := ih rest
    unfold hexValue at front ⊢
    rw [hexText,List.foldl_append,front,List.foldl_cons,List.foldl_nil,
      (digitCharHex (Nat.mod_lt n (by decide))).2]
    omega

theorem hexDigitNotBlank {c : Char} (digit : hexDigit c = true) : blank c = false := by
  cases space : blank c with
  | false => rfl
  | true =>
    have which : c = ' ' ∨ c = '\t' ∨ c = '\n' := by simpa [blank,or_assoc] using space
    rcases which with rfl | rfl | rfl <;> exact absurd digit (by decide)

theorem hexWord {width : Nat} (some : 0 < width) (n : Nat) : Word (hexText width n) := by
  refine ⟨fun empty => ?_,fun c mem => hexDigitNotBlank (hexTextDigits c mem)⟩
  have length := hexTextLength width n
  rw [empty,List.length_nil] at length
  omega

end KernelTestTools.ShellText
