import Mathlib.Data.List.Basic
import Mathlib.Data.List.DropRight
import Mathlib.Data.List.Infix

/-! Text files as a scripting language reads them: universal line breaks, lines that
keep their terminator, trimming, and fields between separators. Characters are code
points; no encoding is modelled here. -/
namespace KernelTestTools.TextFile

abbrev Text := List Char

def spaces : List Nat :=
  [0x9,0xa,0xb,0xc,0xd,0x1c,0x1d,0x1e,0x1f,0x20,0x85,0xa0,0x1680,0x2000,0x2001,0x2002,0x2003,
    0x2004,0x2005,0x2006,0x2007,0x2008,0x2009,0x200a,0x2028,0x2029,0x202f,0x205f,0x3000]

def isSpace (c : Char) : Bool := spaces.contains c.toNat

/- The digit zero of every script that has decimal digits. -/
def zeros : List Nat :=
  [0x30,0x660,0x6f0,0x7c0,0x966,0x9e6,0xa66,0xae6,0xb66,0xbe6,0xc66,0xce6,0xd66,0xde6,0xe50,0xed0,
    0xf20,0x1040,0x1090,0x17e0,0x1810,0x1946,0x19d0,0x1a80,0x1a90,0x1b50,0x1bb0,0x1c40,0x1c50,
    0xa620,0xa8d0,0xa900,0xa9d0,0xa9f0,0xaa50,0xabf0,0xff10,0x104a0,0x10d30,0x11066,0x110f0,
    0x11136,0x111d0,0x112f0,0x11450,0x114d0,0x11650,0x116c0,0x11730,0x118e0,0x11950,0x11c50,
    0x11d50,0x11da0,0x16a60,0x16ac0,0x16b50,0x1d7ce,0x1d7d8,0x1d7e2,0x1d7ec,0x1d7f6,0x1e140,
    0x1e2f0,0x1e950,0x1fbf0]

def isDigit (c : Char) : Bool := zeros.any (fun z => z ≤ c.toNat && c.toNat < z + 10)

def asciiDigit (c : Char) : Bool := 0x30 ≤ c.toNat && c.toNat < 0x3a

theorem charBetween {c : Char} {low count : Nat} (above : low ≤ c.toNat) (below : c.toNat < low + count) :
    ∃ i : Fin count, c = Char.ofNat (low+i) := by
  refine ⟨⟨c.toNat-low,by omega⟩,?_⟩
  have whole : low + (c.toNat-low) = c.toNat := by omega
  rw [whole,Char.ofNat_toNat]

theorem asciiIsDigit {c} (digit : asciiDigit c = true) : isDigit c = true := by
  simp only [asciiDigit,Bool.and_eq_true,decide_eq_true_eq] at digit
  refine List.any_eq_true.mpr ⟨0x30,by decide,?_⟩
  simp only [Bool.and_eq_true,decide_eq_true_eq]
  omega

theorem eachOf {p : Char → Prop} [DecidablePred p] {s : Text}
    (all : s.all (fun c => decide (p c)) = true) : ∀ c ∈ s, p c :=
  fun c mem => of_decide_eq_true (List.all_eq_true.mp all c mem)

theorem eachOption {p : Char → Prop} [DecidablePred p] {o : Option Char}
    (all : o.all (fun c => decide (p c)) = true) : ∀ c ∈ o, p c := by
  intro c mem
  rw [Option.mem_def] at mem
  rw [mem] at all
  exact of_decide_eq_true all

def universalNewlines : Text → Text
  | [] => []
  | '\r' :: '\n' :: rest => '\n' :: universalNewlines rest
  | c::rest => (if c = '\r' then '\n' else c) :: universalNewlines rest

theorem noReturnUnchanged {s : Text} (clean : '\r' ∉ s) : universalNewlines s = s := by
  induction s using universalNewlines.induct with
  | case1 => rfl
  | case2 rest ih => simp at clean
  | case3 c rest other ih =>
    have head : c ≠ '\r' := fun same => clean (by simp [same])
    have tail : '\r' ∉ rest := fun mem => clean (List.mem_cons_of_mem _ mem)
    rw [universalNewlines,if_neg head,ih tail]
    exact other

theorem universalNoReturn (s : Text) : '\r' ∉ universalNewlines s := by
  induction s using universalNewlines.induct with
  | case1 => simp [universalNewlines]
  | case2 rest ih => simpa [universalNewlines] using ih
  | case3 c rest other ih =>
    rw [universalNewlines]
    · by_cases same : c = '\r'
      · simpa [same] using ih
      · simpa [same,Ne.symm same] using ih
    · exact other

theorem universalAppend (a : Text) {c : Char} (other : c ≠ '\n') (s : Text) :
    universalNewlines (a ++ c::s) = universalNewlines a ++ universalNewlines (c::s) := by
  induction a using universalNewlines.induct with
  | case1 => rfl
  | case2 rest ih => simpa [universalNewlines] using ih
  | case3 d rest apart ih =>
    rw [List.cons_append,universalNewlines,universalNewlines]
    · rw [ih,List.cons_append]
    · exact apart
    · intro t front
      cases rest with
      | nil => exact fun same => other (List.cons.inj same).1
      | cons e rest => exact fun same => apart rest front (by rw [(List.cons.inj same).1])

theorem plainPrefix {p : Text} (plain : '\n' ∉ p ∧ '\r' ∉ p) (s : Text) :
    p <+: universalNewlines s ↔ p <+: s := by
  induction p generalizing s with
  | nil => simp
  | cons d p ih =>
    have line : d ≠ '\n' := fun same => plain.1 (by simp [same])
    have feed : d ≠ '\r' := fun same => plain.2 (by simp [same])
    have rest := ih ⟨fun mem => plain.1 (List.mem_cons_of_mem _ mem),
      fun mem => plain.2 (List.mem_cons_of_mem _ mem)⟩
    induction s using universalNewlines.induct with
    | case1 => rfl
    | case2 s _ => simp [universalNewlines,line,feed]
    | case3 c s other _ =>
      rw [universalNewlines]
      · by_cases same : c = '\r'
        · simp [same,line,feed]
        · rw [if_neg same,List.cons_prefix_cons,List.cons_prefix_cons,rest]
      · exact other

theorem plainInfix {p : Text} (plain : '\n' ∉ p ∧ '\r' ∉ p) (s : Text) :
    p <:+: universalNewlines s ↔ p <:+: s := by
  have front := plainPrefix plain
  induction s using universalNewlines.induct with
  | case1 => rfl
  | case2 s ih =>
    have tail : p <:+: universalNewlines s ↔ p <:+: s := ih
    have whole := front ('\r' :: '\n' :: s)
    rw [universalNewlines] at whole ⊢
    have inner : p <+: '\n'::s → p <+: '\n'::universalNewlines s := by
      intro starts
      cases p with
      | nil => simp
      | cons d p =>
        have same := (List.cons_prefix_cons.mp starts).1
        exact absurd (by simp [same]) plain.1
    rw [List.infix_cons_iff,List.infix_cons_iff,List.infix_cons_iff,tail,whole]
    constructor
    · intro either
      rcases either with here | later
      · exact .inl here
      · exact .inr (.inr later)
    · intro either
      rcases either with here | next | later
      · exact .inl here
      · exact .inl (whole.mp (inner next))
      · exact .inr later
  | case3 c s other ih =>
    have tail : p <:+: universalNewlines s ↔ p <:+: s := ih
    have whole := front (c::s)
    rw [universalNewlines] at whole ⊢
    · rw [List.infix_cons_iff,List.infix_cons_iff,tail,whole]
    · exact other
    · exact other

def lines : Text → List Text
  | [] => []
  | c::rest =>
    if c = '\n' then [c]::lines rest
    else match lines rest with
      | [] => [[c]]
      | l::ls => (c::l)::ls

@[simp] theorem linesNil : lines [] = [] := rfl

def Terminated (l : Text) : Prop := ∃ body, '\n' ∉ body ∧ l = body ++ ['\n']

/- The line lists of texts: only the last line may lack its line break. -/
inductive LineList : List Text → Prop where
  | nil : LineList []
  | last {l} (whole : '\n' ∉ l) (nonempty : l ≠ []) : LineList [l]
  | cons {l ls} (line : Terminated l) (rest : LineList ls) : LineList (l::ls)

theorem linesShape (s : Text) : LineList (lines s) := by
  induction s with
  | nil => exact .nil
  | cons c rest ih =>
    simp only [lines]
    split
    · rename_i same
      exact .cons ⟨[],by simp,by simp [same]⟩ ih
    · rename_i other
      have head : '\n' ≠ c := fun same => other same.symm
      split
      · exact .last (by simp [head]) (by simp)
      · rename_i l ls split
        rw [split] at ih
        cases ih with
        | last whole nonempty => exact .last (by simp [head,whole]) (by simp)
        | cons line rest =>
          obtain ⟨body,whole,rfl⟩ := line
          exact .cons ⟨c::body,by simp [head,whole],rfl⟩ rest

@[simp] theorem linesJoin (s : Text) : (lines s).flatten = s := by
  induction s with
  | nil => rfl
  | cons c rest ih =>
    simp only [lines]
    split
    · simp [ih]
    · split <;> rename_i split <;> rw [split] at ih <;> simpa using ih

theorem lineSubset {s l : Text} (mem : l ∈ lines s) : l ⊆ s := by
  intro c inside
  have whole := List.mem_flatten.mpr ⟨l,mem,inside⟩
  rwa [linesJoin] at whole

theorem lineNoReturn {s l : Text} (mem : l ∈ lines (universalNewlines s)) : '\r' ∉ l :=
  fun inside => universalNoReturn s (lineSubset mem inside)

theorem linesAppendBreak {l : Text} (whole : '\n' ∉ l) (s : Text) :
    lines (l ++ '\n'::s) = (l ++ ['\n'])::lines s := by
  induction l with
  | nil => simp [lines]
  | cons c l ih =>
    have head : c ≠ '\n' := fun same => whole (by simp [same])
    have tail : '\n' ∉ l := fun mem => whole (List.mem_cons_of_mem _ mem)
    simp [lines,head,ih tail]

theorem linesSingle {l : Text} (whole : '\n' ∉ l) (nonempty : l ≠ []) : lines l = [l] := by
  induction l with
  | nil => contradiction
  | cons c l ih =>
    have head : c ≠ '\n' := fun same => whole (by simp [same])
    have tail : '\n' ∉ l := fun mem => whole (List.mem_cons_of_mem _ mem)
    cases l with
    | nil => simp [lines,head]
    | cons d l => rw [lines,if_neg head,ih tail (by simp)]

theorem linesCons {l : Text} (line : Terminated l) (s : Text) : lines (l ++ s) = l::lines s := by
  obtain ⟨body,whole,rfl⟩ := line
  simpa using linesAppendBreak whole s

theorem linesLast (u : Text) {w : Text} (line : Terminated w) :
    ∃ init z, lines (u ++ w) = init ++ [z ++ w] := by
  induction u with
  | nil =>
    have single := linesCons line []
    rw [List.append_nil] at single
    exact ⟨[],[],by rw [List.nil_append,single]; rfl⟩
  | cons c u ih =>
    obtain ⟨init,z,split⟩ := ih
    simp only [List.cons_append,lines,split]
    split
    · exact ⟨[c]::init,z,rfl⟩
    · cases init with
      | nil => exact ⟨[],c::z,rfl⟩
      | cons l init => exact ⟨(c::l)::init,z,rfl⟩

theorem linesFlatten {ls : List Text} (all : ∀ l ∈ ls, Terminated l) (s : Text) :
    lines (ls.flatten ++ s) = ls ++ lines s := by
  induction ls with
  | nil => rfl
  | cons l ls ih =>
    have rest := ih (fun x mem => all x (List.mem_cons_of_mem _ mem))
    rw [List.flatten_cons,List.append_assoc,linesCons (all l List.mem_cons_self),rest,
      List.cons_append]

theorem linesExact {ls : List Text} (shape : LineList ls) : lines ls.flatten = ls := by
  induction shape with
  | nil => rfl
  | last whole nonempty => simpa using linesSingle whole nonempty
  | cons line rest ih => rw [List.flatten_cons,linesCons line,ih]

theorem lineListInit {ls : List Text} {l : Text} (shape : LineList (ls ++ [l])) :
    ∀ k ∈ ls, Terminated k := by
  induction ls with
  | nil => simp
  | cons k ks ih =>
    intro x mem
    generalize same : (k::ks) ++ [l] = all at shape
    cases shape with
    | nil => simp at same
    | last whole nonempty => simp at same
    | cons line rest =>
      obtain ⟨rfl,rfl⟩ := List.cons.inj same
      rcases List.mem_cons.mp mem with rfl | later
      · exact line
      · exact ih rest x later

theorem lineListMember {ls : List Text} (shape : LineList ls) {l} (mem : l ∈ ls) :
    Terminated l ∨ ('\n' ∉ l ∧ l ≠ []) := by
  induction shape with
  | nil => simp at mem
  | last whole nonempty =>
    rw [List.mem_singleton.mp mem]
    exact .inr ⟨whole,nonempty⟩
  | cons line rest ih =>
    rcases List.mem_cons.mp mem with rfl | later
    · exact .inl line
    · exact ih later

theorem linesTerminated {s : Text} (ends : ['\n'] <:+ s) : ∀ l ∈ lines s, Terminated l := by
  obtain ⟨t,rfl⟩ := ends
  have shape := linesShape (t ++ ['\n'])
  rcases List.eq_nil_or_concat (lines (t ++ ['\n'])) with none | ⟨init,last,split⟩
  · simp [none]
  · rw [List.concat_eq_append] at split
    have joined := linesJoin (t ++ ['\n'])
    rw [split] at shape joined ⊢
    have before := lineListInit shape
    intro l mem
    rcases List.mem_append.mp mem with early | late
    · exact before l early
    · rw [List.mem_singleton.mp late]
      have member : last ∈ init ++ [last] := by simp
      rcases lineListMember shape member with line | ⟨whole,nonempty⟩
      · exact line
      · exfalso
        obtain ⟨body,c,rfl⟩ := (List.eq_nil_or_concat last).resolve_left nonempty
        simp only [List.concat_eq_append,List.flatten_append,List.flatten_singleton,
          ← List.append_assoc] at joined
        have final := List.append_inj_right' joined rfl
        exact whole (by simp [List.cons.inj final])

def lineText (l : Text) : Text := l.rdropWhile (· == '\n')

def lineTexts (s : Text) : List Text := (lines (universalNewlines s)).map lineText

theorem lineTextWhole {l : Text} (whole : '\n' ∉ l) : lineText l = l := by
  rw [lineText,List.rdropWhile_eq_self_iff]
  intro nonempty last
  exact whole (eq_of_beq last ▸ List.getLast_mem nonempty)

theorem lineTextBreak {l : Text} (whole : '\n' ∉ l) : lineText (l ++ ['\n']) = l := by
  rw [lineText,List.rdropWhile_concat_pos _ _ _ (by decide)]
  exact lineTextWhole whole

def lstrip (s : Text) : Text := s.dropWhile isSpace
def rstrip (s : Text) : Text := s.rdropWhile isSpace
def strip (s : Text) : Text := rstrip (lstrip s)

def fields (separator : Char) (s : Text) : List Text := s.splitOn separator

theorem fieldsHead (separator : Char) (s : Text) :
    (fields separator s).headD [] = s.takeWhile (· != separator) := by
  induction s with
  | nil => rfl
  | cons c rest ih =>
    simp only [fields,List.splitOn] at ih ⊢
    rw [List.splitOnP_cons_eq_if_modifyHead,List.takeWhile_cons]
    by_cases same : c = separator
    · simp [same]
    · have nonempty := List.splitOnP_ne_nil (· == separator) rest
      cases h : rest.splitOnP (· == separator) with
      | nil => contradiction
      | cons f fs =>
        rw [h] at ih
        simp only [List.headD_cons] at ih
        simp [same,ih]

theorem fieldsFree {separator : Char} {s x : Text} (mem : x ∈ fields separator s) :
    separator ∉ x ∧ x ⊆ s := by
  induction s generalizing x with
  | nil =>
    have empty : x = [] := by simpa [fields,List.splitOn] using mem
    simp [empty]
  | cons c rest ih =>
    simp only [fields,List.splitOn] at ih mem
    rw [List.splitOnP_cons_eq_if_modifyHead] at mem
    split at mem
    · rcases List.mem_cons.mp mem with rfl | later
      · simp
      · exact ⟨(ih later).1,fun d h => List.mem_cons_of_mem _ ((ih later).2 h)⟩
    · rename_i other
      cases split : rest.splitOnP (· == separator) with
      | nil => exact absurd split (List.splitOnP_ne_nil _ rest)
      | cons f fs =>
        rw [split] at mem ih
        rcases List.mem_cons.mp mem with rfl | later
        · obtain ⟨free,part⟩ := ih List.mem_cons_self
          refine ⟨?_,?_⟩
          · rw [List.mem_cons,not_or]
            exact ⟨fun same => other (by simp [same]),free⟩
          · intro d h
            rcases List.mem_cons.mp h with rfl | inside
            · exact List.mem_cons_self
            · exact List.mem_cons_of_mem _ (part inside)
        · have tail := ih (List.mem_cons_of_mem _ later)
          exact ⟨tail.1,fun d h => List.mem_cons_of_mem _ (tail.2 h)⟩

theorem fieldsJoin (separator : Char) (s : Text) : [separator].intercalate (fields separator s) = s :=
  List.intercalate_splitOn separator

theorem fieldsPair {separator : Char} {a b : Text} (left : separator ∉ a) (right : separator ∉ b) :
    fields separator (a ++ separator::b) = [a,b] := by
  have join : [separator].intercalate [a,b] = a ++ separator::b := by simp [List.intercalate]
  rw [← join]
  exact List.splitOn_intercalate separator (by simp [left,right]) (by simp)

theorem lstripHead (s : Text) : lstrip s = [] ∨ ∃ c rest, lstrip s = c::rest ∧ isSpace c = false := by
  induction s with
  | nil => exact .inl rfl
  | cons c s ih =>
    cases space : isSpace c with
    | true =>
      rw [lstrip,List.dropWhile_cons_of_pos space]
      exact ih
    | false => exact .inr ⟨c,s,by rw [lstrip,List.dropWhile_cons_of_neg (by simp [space])],space⟩

theorem stripTwice (s : Text) : strip (strip s) = strip s := by
  have left : lstrip (strip s) = strip s := by
    rcases lstripHead s with empty | ⟨c,rest,split,visible⟩
    · rw [strip,empty]
      rfl
    · rw [strip,split]
      have kept : ∃ t, rstrip (c::rest) = c::t := by
        have front : rstrip (c::rest) <+: c::rest := List.rdropWhile_prefix isSpace _
        have some : rstrip (c::rest) ≠ [] := by
          rw [rstrip,ne_eq,List.rdropWhile_eq_nil_iff]
          intro all
          rw [all c List.mem_cons_self] at visible
          cases visible
        obtain ⟨d,t,same⟩ := List.exists_cons_of_ne_nil some
        rw [same] at front ⊢
        exact ⟨t,by rw [(List.cons_prefix_cons.mp front).1]⟩
      obtain ⟨t,same⟩ := kept
      rw [same,lstrip,List.dropWhile_cons_of_neg (by simp [visible])]
  rw [strip,left,strip,rstrip,rstrip,List.rdropWhile_idempotent]

theorem stripSubset (s : Text) : strip s ⊆ s := fun _ mem =>
  (List.dropWhile_suffix isSpace).subset ((List.rdropWhile_prefix isSpace (lstrip s)).subset mem)

theorem stripBreak (s : Text) : strip (s ++ ['\n']) = strip s := by
  have space : isSpace '\n' = true := by decide
  rw [strip,strip,lstrip,lstrip,List.dropWhile_append]
  split
  · rename_i empty
    rw [List.isEmpty_iff] at empty
    rw [empty,List.dropWhile_cons_of_pos space]
    rfl
  · rw [rstrip,rstrip,List.rdropWhile_concat_pos _ _ _ space]

end KernelTestTools.TextFile
