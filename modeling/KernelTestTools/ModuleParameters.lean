import KernelTestTools.ShellText
import Mathlib.Logic.Function.Basic

/-! The arguments of insmod as the kernel reads them: words of the form name=value, each read
by the type of the parameter it names, and words that name no parameter passed over. Quoted
values do not occur here. -/
namespace KernelTestTools.ModuleParameters
open TextFile ShellText

def digitBelow (base : Nat) (c : Char) : Bool := hexDigit c && decide (hexDigitValue c < base)

def digitsValue (base : Nat) (s : Text) : Nat := s.foldl (fun v c => base*v + hexDigitValue c) 0

def prefixLetter (c : Char) : Bool := c == 'x' || c == 'X'

/- The base that a number without a given one is written in. -/
def autoBase : Text → Nat
  | '0'::x::d::_ => if prefixLetter x && hexDigit d then 16 else 8
  | '0'::_ => 8
  | _ => 10

def afterPrefix : Text → Text
  | '0'::x::s => if prefixLetter x then s else '0'::x::s
  | s => s

def afterSign : Text → Text
  | '+'::s => s
  | s => s

/- A number and no more than a line break behind it. -/
def kstrtoul (base : Nat) (s : Text) : Option (BitVec 64) :=
  let s := afterSign s
  let base := if base = 0 then autoBase s else base
  let s := if base = 16 then afterPrefix s else s
  let digits := s.takeWhile (digitBelow base)
  let rest := s.dropWhile (digitBelow base)
  let value := digitsValue base digits
  if digits ≠ [] ∧ value < 2^64 ∧ (rest = [] ∨ rest = ['\n']) then some (BitVec.ofNat 64 value) else none

/- With a sign of its own, and within 32 bits. -/
def kstrtoint (s : Text) : Option Int :=
  match s with
  | '-'::t =>
    if t.head? = some '+' then none
    else (kstrtoul 0 t).bind (fun n => if n.toNat ≤ 2^31 then some (-(n.toNat : Int)) else none)
  | t => (kstrtoul 0 t).bind (fun n => if n.toNat < 2^31 then some (n.toNat : Int) else none)

/- module_param(name, ulong, ..), module_param(name, int, ..) and module_param_string(name,
buffer, size, ..) -/
inductive Kind where
  | ulong
  | int
  | string (size : Nat)
  deriving DecidableEq, Repr

structure Parameter where
  name : Text
  kind : Kind
  deriving DecidableEq, Repr

inductive Setting where
  | number (n : BitVec 64)
  | int (n : Int)
  | text (s : Text)
  deriving DecidableEq, Repr

def Kind.start : Kind → Setting
  | .ulong => .number 0
  | .int => .int (-1)
  | .string _ => .text []

def Kind.set : Kind → Text → Option Setting
  | .ulong,value => (kstrtoul 0 value).map .number
  | .int,value => (kstrtoint value).map .int
  | .string size,value => if value.length < size then some (.text value) else none

abbrev Settings := Text → Setting

def argumentName (word : Text) : Text := word.takeWhile (· != '=')

def parseWord (parameters : List Parameter) (s : Settings) (word : Text) : Option Settings :=
  match parameters.find? (fun p => p.name == argumentName word) with
  | none => some s
  | some p =>
    if '=' ∈ word then (p.kind.set (word.drop (p.name.length+1))).map (Function.update s p.name) else none

def initial (parameters : List Parameter) : Settings := fun name =>
  ((parameters.find? (fun p => p.name == name)).map (·.kind.start)).getD (.number 0)

def insmod (parameters : List Parameter) (arguments : List Text) : Option Settings :=
  (splitWords ([' '].intercalate arguments)).foldlM (parseWord parameters) (initial parameters)

section
variable {s : Text}

theorem digitBelowHex {c : Char} (digit : hexDigit c = true) : digitBelow 16 c = true := by
  have small : hexDigitValue c < 16 := by
    unfold hexDigit at digit
    unfold hexDigitValue
    simp only [Bool.or_eq_true,Bool.and_eq_true,decide_eq_true_eq] at digit
    split
    · omega
    · split <;> omega
  simp [digitBelow,digit,small]

theorem takenHex (digits : ∀ c ∈ s, hexDigit c = true) :
    s.takeWhile (digitBelow 16) = s ∧ s.dropWhile (digitBelow 16) = [] := by
  have all : ∀ c ∈ s, digitBelow 16 c = true := fun c mem => digitBelowHex (digits c mem)
  exact ⟨List.takeWhile_eq_self_iff.mpr all,List.dropWhile_eq_nil_iff.mpr all⟩

theorem digitsHex (s : Text) : digitsValue 16 s = hexValue s := rfl

theorem kstrtoulPrefixed (some' : s ≠ []) (digits : ∀ c ∈ s, hexDigit c = true) (small : hexValue s < 2^64) :
    kstrtoul 0 ('0':: 'x'::s) = some (BitVec.ofNat 64 (hexValue s)) := by
  obtain ⟨d,t,rfl⟩ := List.exists_cons_of_ne_nil some'
  have base : autoBase ('0':: 'x'::d::t) = 16 := by
    rw [autoBase,digits d List.mem_cons_self]
    rfl
  have behind : afterPrefix ('0':: 'x'::d::t) = d::t := rfl
  obtain ⟨taken,dropped⟩ := takenHex digits
  have sign : afterSign ('0':: 'x'::d::t) = '0':: 'x'::d::t := rfl
  simpa [kstrtoul,sign,base,behind,taken,dropped,digitsHex] using small

theorem leadingDigit {n : Nat} (positive : 0 < n) : ∃ d t, Nat.toDigits 10 n = d::t ∧ d ≠ '0' := by
  induction n using Nat.strongRecOn with
  | ind n ih =>
    rcases Nat.lt_or_ge n 10 with small | large
    · have each : ∀ k < 10, 0 < k → Nat.digitChar k ≠ '0' := by decide
      exact ⟨_,[],Nat.toDigits_of_lt_base small,each n small positive⟩
    · obtain ⟨d,t,front,other⟩ := ih (n/10) (by omega) (by omega)
      rw [Nat.toDigits_of_base_le (by decide) large,front]
      exact ⟨d,_,rfl,other⟩

theorem digitDecimal {c : Char} (digit : c.isDigit = true) : digitBelow 10 c = true ∧ hexDigitValue c = c.toNat - '0'.toNat := by
  have range : 48 ≤ c.toNat ∧ c.toNat ≤ 57 := by
    simpa [Char.isDigit,UInt32.le_iff_toNat_le] using digit
  have value : hexDigitValue c = c.toNat - '0'.toNat := if_pos range.2
  have small : c.toNat - 48 < 10 := by omega
  rw [digitBelow,value]
  simpa [hexDigit,range] using small

theorem decimalValue {s : Text} (digits : ∀ c ∈ s, c.isDigit = true) (start : Nat) :
    s.foldl (fun v c => 10*v + hexDigitValue c) start = Nat.ofDigitChars 10 s start := by
  induction s generalizing start with
  | nil => rfl
  | cons c s ih =>
    rw [List.foldl_cons,Nat.ofDigitChars_cons,(digitDecimal (digits c List.mem_cons_self)).2,
      ih (fun d mem => digits d (List.mem_cons_of_mem c mem))]

theorem kstrtoulDecimal {n : Nat} (small : n < 2^64) : kstrtoul 0 (Nat.toDigits 10 n) = some (BitVec.ofNat 64 n) := by
  rcases Nat.eq_zero_or_pos n with rfl | positive
  · rfl
  · obtain ⟨d,t,front,other⟩ := leadingDigit positive
    have digits : ∀ c ∈ Nat.toDigits 10 n, c.isDigit = true :=
      fun c mem => Nat.isDigit_of_mem_toDigits (by decide) (by decide) mem
    have value : digitsValue 10 (Nat.toDigits 10 n) = n := (decimalValue digits 0).trans Nat.ofDigitChars_ten_toDigits
    rw [front] at digits value ⊢
    have all : ∀ c ∈ d::t, digitBelow 10 c = true := fun c mem => (digitDecimal (digits c mem)).1
    have taken : (d::t).takeWhile (digitBelow 10) = d::t := List.takeWhile_eq_self_iff.mpr all
    have dropped : (d::t).dropWhile (digitBelow 10) = [] := List.dropWhile_eq_nil_iff.mpr all
    have sign : afterSign (d::t) = d::t := by
      unfold afterSign
      split
      · rename_i s same
        exact absurd (digits '+' (same ▸ List.mem_cons_self)) (by decide)
      · rfl
    have base : autoBase (d::t) = 10 := by
      unfold autoBase
      split
      · rename_i same
        exact absurd (List.cons.inj same).1 other
      · rename_i same
        exact absurd (List.cons.inj same).1 other
      · rfl
    have plain : (if 10 = 16 then afterPrefix (d::t) else d::t) = d::t := if_neg (by decide)
    unfold kstrtoul
    dsimp only
    rw [sign,if_pos rfl,base,plain,taken,dropped,value]
    simpa using small

theorem kstrtointDecimal {n : Nat} (small : n < 2^31) : kstrtoint (Nat.toDigits 10 n) = some (n : Int) := by
  have read := @kstrtoulDecimal n (Nat.lt_trans small (by decide))
  unfold kstrtoint
  split
  · rename_i t same
    have digit := @Nat.isDigit_of_mem_toDigits 10 n '-' (by decide) (by decide) (same ▸ List.mem_cons_self)
    exact absurd digit (by decide)
  · rw [read,Option.bind_some,BitVec.toNat_ofNat,Nat.mod_eq_of_lt (Nat.lt_trans small (by decide)),if_pos small]

theorem kstrtoulPlain (some' : s ≠ []) (digits : ∀ c ∈ s, hexDigit c = true) (small : hexValue s < 2^64) :
    kstrtoul 16 s = some (BitVec.ofNat 64 (hexValue s)) := by
  obtain ⟨taken,dropped⟩ := takenHex digits
  have sign : afterSign s = s := by
    unfold afterSign
    split
    · exact absurd (digits '+' List.mem_cons_self) (by decide)
    · rfl
  have behind : afterPrefix s = s := by
    unfold afterPrefix
    split
    · rename_i x t
      have letter : prefixLetter x = false := by
        have digit := digits x (by simp)
        cases here : prefixLetter x with
        | false => rfl
        | true =>
          have which : x = 'x' ∨ x = 'X' := by simpa [prefixLetter] using here
          rcases which with rfl | rfl <;> exact absurd digit (by decide)
      rw [letter]
      rfl
    · rfl
  simpa [kstrtoul,sign,behind,taken,dropped,digitsHex,some'] using small

end

section
variable {parameters : List Parameter} {name value word : Text} {kind : Kind}

theorem argumentNameOf (plain : '=' ∉ name) (value : Text) : argumentName (name ++ '='::value) = name := by
  have whole : ∀ c ∈ name, (c != '=') = true := by
    intro c mem
    have other : c ≠ '=' := fun same => plain (same ▸ mem)
    simpa using other
  rw [argumentName,List.takeWhile_append_of_pos whole]
  simp

theorem parseKnown (known : parameters.find? (fun p => p.name == name) = some ⟨name,kind⟩) (plain : '=' ∉ name)
    {setting : Setting} (read : kind.set value = some setting) (s : Settings) :
    parseWord parameters s (name ++ '='::value) = some (Function.update s name setting) := by
  have behind : (name ++ '='::value).drop (name.length+1) = value := by
    rw [← List.drop_drop,List.drop_left]
    rfl
  rw [parseWord,argumentNameOf plain value,known]
  simp [behind,read]

theorem parseForeign (foreign : ∀ p ∈ parameters, p.name ≠ argumentName word) (s : Settings) :
    parseWord parameters s word = some s := by
  have none : parameters.find? (fun p => p.name == argumentName word) = none := by
    rw [List.find?_eq_none]
    intro p mem
    simpa using foreign p mem
  rw [parseWord,none]

theorem foreignAll {words : List Text} (foreign : ∀ w ∈ words, ∀ p ∈ parameters, p.name ≠ argumentName w)
    (s : Settings) : words.foldlM (parseWord parameters) s = some s := by
  induction words with
  | nil => rfl
  | cons w words ih =>
    rw [List.foldlM_cons,parseForeign (foreign w List.mem_cons_self)]
    exact ih (fun k mem => foreign k (List.mem_cons_of_mem w mem))

end

section
variable {A : Type} {parameters : List Parameter} {items : List A} {key : A → Text} {setting : A → Setting}
  {words : A → List Text}

theorem assignedAll (sets : ∀ a ∈ items, ∀ s, (words a).foldlM (parseWord parameters) s =
      some (Function.update s (key a) (setting a))) (distinct : (items.map key).Nodup) (s : Settings) :
    ∃ t, (items.flatMap words).foldlM (parseWord parameters) s = some t ∧
      (∀ a ∈ items, t (key a) = setting a) ∧ ∀ name, name ∉ items.map key → t name = s name := by
  induction items generalizing s with
  | nil => exact ⟨s,rfl,by simp,fun _ _ => rfl⟩
  | cons a items ih =>
    rw [List.map_cons,List.nodup_cons] at distinct
    obtain ⟨t,run,each,others⟩ := ih (fun b mem => sets b (List.mem_cons_of_mem a mem)) distinct.2
      (Function.update s (key a) (setting a))
    refine ⟨t,?_,fun b mem => ?_,fun name absent => ?_⟩
    · rw [List.flatMap_cons,List.foldlM_append,sets a List.mem_cons_self]
      exact run
    · rcases List.mem_cons.mp mem with rfl | later
      · rw [others _ distinct.1,Function.update_self]
      · exact each b later
    · rw [List.map_cons,List.mem_cons,not_or] at absent
      rw [others name absent.2,Function.update_of_ne absent.1]

end

end KernelTestTools.ModuleParameters
