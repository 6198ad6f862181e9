import KernelTestTools.Regex

/-! What a replacement template means. An escape takes reserved characters only and stands
for a character or a group; text keeps its escapes when each backslash stands in front of a
character that is neither a letter nor a digit nor a backslash. -/
namespace KernelTestTools.Regex

def special (c : Char) : Bool := letter c || decimal c || c == '\\'

def reserved (c : Char) : Bool := decimal c || "\\abfnrtvg<>".toList.contains c

inductive Escape (groups : Nat) : List Char → Piece Char → Prop where
  | kept {c} (ordinary : special c = false) : Escape groups [c] (.text ['\\',c])
  | char {used c} (some : used ≠ []) (all : ∀ d ∈ used, reserved d = true)
      (slash : '\\' ∈ used → used = ['\\']) (digits : [c].countP decimal ≤ used.countP decimal) :
      Escape groups used (.text [c])
  | group {used n} (some : used ≠ []) (all : ∀ d ∈ used, reserved d = true)
      (slash : '\\' ∉ used) (known : n ≤ groups) : Escape groups used (.group n)

theorem groupRead {groups n : Nat} {t rest : List Char} {piece : Piece Char}
    (parsed : (do let p ← groupPiece groups n; Except.ok (p,t)) = Except.ok (piece,rest)) :
    n ≤ groups ∧ piece = .group n ∧ t = rest := by
  rw [groupPiece] at parsed
  split at parsed
  · rename_i known
    cases parsed
    exact ⟨known,rfl,rfl⟩
  · cases parsed

theorem decimalReserved {c : Char} (digit : decimal c = true) : reserved c = true ∧ c ≠ '\\' := by
  refine ⟨by simp [reserved,digit],fun same => ?_⟩
  rw [same] at digit
  cases digit

theorem octalDecimal {c : Char} (digit : octal c = true) : decimal c = true := by
  simp only [octal,decimal,Bool.and_eq_true,decide_eq_true_eq] at digit ⊢
  omega

theorem numberGroup {groups n : Nat} {used : List Char} (some : used ≠ []) (all : ∀ c ∈ used, decimal c = true)
    (known : n ≤ groups) : Escape groups used (.group n) :=
  .group some (fun c mem => (decimalReserved (all c mem)).1)
    (fun mem => (decimalReserved (all _ mem)).2 rfl) known

theorem namedGroup {groups n : Nat} {name : List Char} (digits : ∀ c ∈ name, decimal c = true)
    (known : n ≤ groups) : Escape groups ('g' :: '<' :: (name ++ ['>'])) (.group n) := by
  refine .group (by simp) ?_ ?_ known
  · intro c mem
    simp only [List.mem_cons,List.mem_append,List.not_mem_nil,or_false] at mem
    rcases mem with rfl | rfl | inside | rfl
    · decide
    · decide
    · exact (decimalReserved (digits c inside)).1
    · decide
  · intro mem
    simp only [List.mem_cons,List.mem_append,List.not_mem_nil,or_false] at mem
    rcases mem with same | same | inside | same
    · cases same
    · cases same
    · exact (decimalReserved (digits _ inside)).2 rfl
    · cases same

theorem letterChar {groups : Nat} {e : Char × Char} (listed : e ∈ escapes) :
    Escape groups [e.1] (.text [e.2]) := by
  have known : ∀ e ∈ escapes, reserved e.1 = true ∧ decimal e.2 = false := by decide
  obtain ⟨inside,letter⟩ := known e listed
  exact .char (by simp) (by simpa using inside) (fun mem => by rw [List.mem_singleton.mp mem])
    (by simp [letter])

theorem numberChar {groups : Nat} {used : List Char} {c : Char} (some : used ≠ [])
    (all : ∀ c ∈ used, decimal c = true) : Escape groups used (.text [c]) := by
  refine .char some (fun c mem => (decimalReserved (all c mem)).1)
    (fun mem => absurd rfl (decimalReserved (all _ mem)).2) ?_
  have whole : used.countP decimal = used.length := List.countP_eq_length.mpr all
  have one : [c].countP decimal ≤ [c].length := List.countP_le_length
  have positive := List.length_pos_iff.mpr some
  rw [List.length_singleton] at one
  omega

theorem bracketClosed {t : List Char} (short : (t.takeWhile (· != '>')).length < t.length) :
    t = t.takeWhile (· != '>') ++ ['>'] ++ t.drop ((t.takeWhile (· != '>')).length+1) := by
  induction t with
  | nil => simp at short
  | cons c t ih =>
    by_cases close : c = '>'
    · simp [close]
    · rw [List.takeWhile_cons_of_pos (by simpa using close)] at short ⊢
      have rest := ih (by simpa using short)
      simpa using rest

theorem escapeUsed {groups : Nat} {s rest : List Char} {piece : Piece Char}
    (parsed : escape groups s = .ok (piece,rest)) :
    ∃ used, s = used ++ rest ∧ Escape groups used piece := by
  revert parsed
  fun_cases escape groups s with
  | case1 | case3 | case4 | case7 | case14 =>
    intro parsed
    cases parsed
  | case2 t name found =>
    intro parsed
    obtain ⟨known,rfl,rfl⟩ := groupRead parsed
    obtain ⟨short,_,digits⟩ := found
    have each : ∀ c ∈ name, decimal c = true := fun c mem => List.all_eq_true.mp digits c mem
    refine ⟨'g' :: '<' :: (name ++ ['>']),?_,namedGroup each known⟩
    have split := bracketClosed short
    simpa using split
  | case5 t more =>
    intro parsed
    cases parsed
    have front : more <+: t := (List.takeWhile_prefix octal).trans (List.take_prefix 2 t)
    refine ⟨'0'::more,?_,numberChar (by simp) ?_⟩
    · exact congrArg ('0' :: ·) (List.prefix_iff_eq_append.mp front).symm
    · intro c mem
      rcases List.mem_cons.mp mem with rfl | inside
      · decide
      · exact octalDecimal (List.mem_takeWhile_imp inside)
  | case6 c _ _ one d e t digits =>
    intro parsed
    cases parsed
    obtain ⟨_,two,three⟩ := digits
    refine ⟨[c,d,e],rfl,numberChar (by simp) ?_⟩
    simp [one,octalDecimal two,octalDecimal three]
  | case8 c _ _ one d e t _ two =>
    intro parsed
    obtain ⟨known,rfl,rfl⟩ := groupRead parsed
    exact ⟨[c,d],rfl,numberGroup (by simp) (by simp [one,two]) known⟩
  | case10 c _ _ one d two =>
    intro parsed
    obtain ⟨known,rfl,rfl⟩ := groupRead parsed
    exact ⟨[c,d],rfl,numberGroup (by simp) (by simp [one,two]) known⟩
  | case9 c _ _ one | case11 c _ _ one | case12 c _ _ one =>
    intro parsed
    obtain ⟨known,rfl,rfl⟩ := groupRead parsed
    exact ⟨[c],rfl,numberGroup (by simp) (by simp [one]) known⟩
  | case13 c t _ _ _ _ e found =>
    intro parsed
    cases parsed
    have same : e.1 = c := by simpa using List.find?_some found
    rw [← same]
    exact ⟨[e.1],rfl,letterChar (List.mem_of_find?_eq_some found)⟩
  | case15 c t _ _ _ number none other =>
    intro parsed
    cases parsed
    refine ⟨[c],rfl,.kept ?_⟩
    have slash : c ≠ '\\' := by
      intro same
      rw [same] at none
      cases none
    simp [special,number,other,slash]

inductive Reads (groups : Nat) : List Char → List (Piece Char) → Prop where
  | done : Reads groups [] []
  | char {c s pieces} (plain : c ≠ '\\') (tail : Reads groups s pieces) :
      Reads groups (c::s) (.text [c]::pieces)
  | escape {s rest piece pieces} (here : escape groups s = .ok (piece,rest))
      (tail : Reads groups rest pieces) : Reads groups ('\\'::s) (piece::pieces)

theorem escapeShorter {groups : Nat} {s rest : List Char} {piece : Piece Char}
    (parsed : escape groups s = .ok (piece,rest)) : rest.length < s.length := by
  obtain ⟨used,rfl,what⟩ := escapeUsed parsed
  have some : used ≠ [] := by
    cases what with
    | kept => simp
    | char some => exact some
    | group some => exact some
  have positive := List.length_pos_iff.mpr some
  rw [List.length_append]
  omega

theorem templateReads {groups n : Nat} {s : List Char} {pieces : List (Piece Char)} (enough : s.length < n)
    (parsed : templateFrom groups n s = .ok pieces) : Reads groups s pieces := by
  induction n generalizing s pieces with
  | zero => omega
  | succ n ih =>
    cases s with
    | nil =>
      cases parsed
      exact .done
    | cons c s =>
      rw [List.length_cons] at enough
      by_cases slash : c = '\\'
      · subst slash
        rw [templateFrom] at parsed
        cases here : escape groups s with
        | error e => simp [here,bind,Except.bind] at parsed
        | ok x =>
          obtain ⟨piece,rest⟩ := x
          have shorter := escapeShorter here
          cases later : templateFrom groups n rest with
          | error e => simp [here,later,bind,Except.bind] at parsed
          | ok tail =>
            simp only [here,later,bind,Except.bind,Except.ok.injEq] at parsed
            rw [← parsed]
            exact .escape here (ih (by omega) later)
      · rw [templateFrom] at parsed
        · cases later : templateFrom groups n s with
          | error e => simp [later,bind,Except.bind] at parsed
          | ok tail =>
            simp only [later,bind,Except.bind,Except.ok.injEq] at parsed
            rw [← parsed]
            exact .char slash (ih (by omega) later)
        · exact slash

theorem readsTemplate {groups n : Nat} {s : List Char} {pieces : List (Piece Char)} (enough : s.length < n)
    (reads : Reads groups s pieces) : templateFrom groups n s = .ok pieces := by
  induction reads generalizing n with
  | done => cases n <;> rfl
  | @char c s pieces plain tail ih =>
    obtain ⟨k,rfl⟩ := Nat.exists_eq_add_of_lt enough
    rw [List.length_cons] at *
    rw [templateFrom,ih (by omega)]
    · rfl
    · exact plain
  | @escape s rest piece pieces here tail ih =>
    have shorter := escapeShorter here
    obtain ⟨k,rfl⟩ := Nat.exists_eq_add_of_lt enough
    rw [List.length_cons] at *
    rw [templateFrom,here]
    simp only [bind,Except.bind]
    rw [ih (by omega)]

theorem templateIff {groups : Nat} {s : List Char} {pieces : List (Piece Char)} :
    template groups s = .ok pieces ↔ Reads groups s pieces :=
  ⟨templateReads (Nat.lt_succ_self _),readsTemplate (Nat.lt_succ_self _)⟩

/- A text in which every backslash stands in front of a character that it does not change. -/
def verbatim : List Char → Bool
  | [] => true
  | ['\\'] => false
  | '\\'::d::s => !special d && verbatim s
  | _::s => verbatim s

theorem escapeKept {groups : Nat} {c : Char} (ordinary : special c = false) (s : List Char) :
    escape groups (c::s) = .ok (.text ['\\',c],s) := by
  simp only [special,Bool.or_eq_false_iff,beq_eq_false_iff_ne] at ordinary
  obtain ⟨⟨other,number⟩,slash⟩ := ordinary
  have unlisted : escapes.find? (fun e => e.1 == c) = none := by
    have listed : ∀ e ∈ escapes, letter e.1 = true ∨ e.1 = '\\' := by decide
    rw [List.find?_eq_none]
    intro e mem
    have known := listed e mem
    simp only [beq_iff_eq]
    intro same
    rw [same] at known
    simp [other,slash] at known
  have notG : c ≠ 'g' := by
    intro same
    rw [same] at other
    cases other
  have notZero : c ≠ '0' := by
    intro same
    rw [same] at number
    cases number
  rw [escape.eq_def]
  split
  · contradiction
  · rename_i same
    exact absurd (List.cons.inj same).1 notG
  · rename_i same
    exact absurd (List.cons.inj same).1 notG
  · rename_i same
    exact absurd (List.cons.inj same).1 notZero
  · rename_i same
    obtain ⟨rfl,rfl⟩ := List.cons.inj same
    simp [number,unlisted,other]

/- The escapes that a template accepts, with what may stand behind each. -/
inductive Accepted (groups : Nat) : List Char → List Char → Prop where
  | kept {c rest} (ordinary : special c = false) : Accepted groups [c] rest
  | letter {e rest} (listed : e ∈ escapes) : Accepted groups [e.1] rest
  | named {name rest} (some : name ≠ []) (digits : ∀ c ∈ name, decimal c = true)
      (known : numeral 10 name ≤ groups) : Accepted groups ('g' :: '<' :: (name ++ ['>'])) rest
  | zero {more rest} (short : more.length ≤ 2) (digits : ∀ c ∈ more, octal c = true)
      (ends : more.length < 2 → ∀ c ∈ rest.head?, octal c = false) : Accepted groups ('0'::more) rest
  | code {c d e rest} (first : c ≠ '0') (digits : octal c ∧ octal d ∧ octal e)
      (byte : numeral 8 [c,d,e] ≤ 0o377) : Accepted groups [c,d,e] rest
  | two {c d rest} (first : c ≠ '0') (digits : decimal c ∧ decimal d)
      (other : ∀ e ∈ rest.head?, ¬(octal c ∧ octal d ∧ octal e)) (known : numeral 10 [c,d] ≤ groups) :
      Accepted groups [c,d] rest
  | one {c rest} (first : c ≠ '0') (digit : decimal c = true) (ends : ∀ d ∈ rest.head?, decimal d = false)
      (known : digitValue c ≤ groups) : Accepted groups [c] rest

theorem takenEnds {p : Char → Bool} {t : List Char} {n : Nat} (short : ((t.take n).takeWhile p).length < n) :
    ∀ c ∈ (t.drop ((t.take n).takeWhile p).length).head?, p c = false := by
  induction t generalizing n with
  | nil => simp
  | cons d t ih =>
    cases n with
    | zero => omega
    | succ n =>
      cases digit : p d with
      | false => simp [digit]
      | true =>
        simp only [List.take_succ_cons,List.takeWhile_cons_of_pos digit,List.length_cons,List.drop_succ_cons] at short ⊢
        exact ih (by omega)

theorem takenExactly {p : Char → Bool} {more rest : List Char} {n : Nat} (short : more.length ≤ n)
    (all : ∀ c ∈ more, p c = true) (ends : more.length < n → ∀ c ∈ rest.head?, p c = false) :
    ((more ++ rest).take n).takeWhile p = more := by
  rw [List.take_append,List.take_of_length_le short,List.takeWhile_append_of_pos all]
  have stop : (rest.take (n-more.length)).takeWhile p = [] := by
    cases rest with
    | nil => simp
    | cons c rest =>
      cases left : n - more.length with
      | zero => rfl
      | succ k => simp [ends (by omega) c rfl]
  rw [stop,List.append_nil]

theorem escapeAccepted {groups : Nat} {s rest : List Char} {piece : Piece Char}
    (parsed : escape groups s = .ok (piece,rest)) : ∃ used, s = used ++ rest ∧ Accepted groups used rest := by
  revert parsed
  fun_cases escape groups s with
  | case1 | case3 | case4 | case7 | case14 =>
    intro parsed
    cases parsed
  | case2 t name found =>
    intro parsed
    obtain ⟨known,_,rfl⟩ := groupRead parsed
    obtain ⟨short,some,digits⟩ := found
    refine ⟨'g' :: '<' :: (name ++ ['>']),?_,.named some (fun c mem => List.all_eq_true.mp digits c mem) known⟩
    have split := bracketClosed short
    simpa using split
  | case5 t more =>
    intro parsed
    cases parsed
    have front : more <+: t := (List.takeWhile_prefix octal).trans (List.take_prefix 2 t)
    refine ⟨'0'::more,congrArg ('0' :: ·) (List.prefix_iff_eq_append.mp front).symm,
      .zero ?_ (fun c mem => List.mem_takeWhile_imp mem) takenEnds⟩
    exact ((List.takeWhile_prefix octal).length_le).trans (List.length_take_le 2 t)
  | case6 c _ zero one d e t digits byte =>
    intro parsed
    cases parsed
    exact ⟨[c,d,e],rfl,.code zero digits byte⟩
  | case8 c _ zero one d e t other two =>
    intro parsed
    obtain ⟨known,_,rfl⟩ := groupRead parsed
    refine ⟨[c,d],rfl,.two zero ⟨one,two⟩ (fun k mem => ?_) known⟩
    cases mem
    exact other
  | case9 c _ zero one d e t _ two =>
    intro parsed
    obtain ⟨known,_,rfl⟩ := groupRead parsed
    refine ⟨[c],rfl,.one zero one (fun k mem => ?_) known⟩
    cases mem
    simpa using two
  | case10 c _ zero one d two =>
    intro parsed
    obtain ⟨known,_,rfl⟩ := groupRead parsed
    exact ⟨[c,d],rfl,.two zero ⟨one,two⟩ (by simp) known⟩
  | case11 c _ zero one d two =>
    intro parsed
    obtain ⟨known,_,rfl⟩ := groupRead parsed
    exact ⟨[c],rfl,.one zero one (by simpa using two) known⟩
  | case12 c _ zero one =>
    intro parsed
    obtain ⟨known,_,rfl⟩ := groupRead parsed
    exact ⟨[c],rfl,.one zero one (by simp) known⟩
  | case13 c t _ _ _ _ e found =>
    intro parsed
    cases parsed
    have same : e.1 = c := by simpa using List.find?_some found
    rw [← same]
    exact ⟨[e.1],rfl,.letter (List.mem_of_find?_eq_some found)⟩
  | case15 c t _ _ _ number none other =>
    intro parsed
    cases parsed
    refine ⟨[c],rfl,.kept ?_⟩
    have slash : c ≠ '\\' := by
      intro same
      rw [same] at none
      cases none
    simp [special,number,other,slash]

theorem digitNoName {c : Char} (digit : decimal c = true) : c ≠ 'g' := by
  intro same
  rw [same] at digit
  cases digit

theorem groupKnown {groups n : Nat} (known : n ≤ groups) (rest : List Char) :
    (do let piece ← groupPiece groups n; Except.ok (piece,rest)) = Except.ok (Piece.group n,rest) := by
  rw [groupPiece,if_pos known]
  rfl

theorem acceptedEscape {groups : Nat} {used rest : List Char} (accepted : Accepted groups used rest) :
    ∃ piece, escape groups (used ++ rest) = .ok (piece,rest) := by
  cases accepted with
  | kept ordinary => exact ⟨_,escapeKept ordinary rest⟩
  | @letter e _ listed =>
    refine ⟨.text [e.2],?_⟩
    simp only [escapes,List.mem_cons,List.not_mem_nil,or_false] at listed
    rcases listed with rfl | rfl | rfl | rfl | rfl | rfl | rfl | rfl <;> rfl
  | @named name _ some digits known =>
    have front : (name ++ '>'::rest).takeWhile (· != '>') = name := by
      rw [List.takeWhile_append_of_pos]
      · simp
      · intro c mem
        have digit := digits c mem
        simp only [bne_iff_ne,ne_eq]
        intro same
        rw [same] at digit
        cases digit
    refine ⟨.group (numeral 10 name),?_⟩
    have shape : 'g' :: '<' :: (name ++ ['>']) ++ rest = 'g' :: '<' :: (name ++ '>'::rest) := by simp
    rw [shape,escape,front,if_pos ⟨by simp,some,List.all_eq_true.mpr digits⟩,groupKnown known]
    simp
  | @zero more _ short digits ends =>
    refine ⟨.text [Char.ofNat (numeral 8 more % 256)],?_⟩
    rw [List.cons_append,escape,takenExactly short digits ends,List.drop_left]
  | @code c d e _ first digits byte =>
    refine ⟨.text [Char.ofNat (numeral 8 [c,d,e])],?_⟩
    have number := octalDecimal digits.1
    show escape groups (c::d::e::rest) = _
    rw [escape,if_pos number]
    · simp [digits,byte]
    · exact digitNoName number
    · exact first
    · exact fun _ same => absurd same (digitNoName number)
  | @two c d _ first digits other known =>
    refine ⟨.group (numeral 10 [c,d]),?_⟩
    cases rest with
    | nil =>
      show escape groups [c,d] = _
      rw [escape,if_pos digits.1]
      · simp [digits,groupKnown known]
      · exact digitNoName digits.1
      · exact first
      · exact fun _ same => absurd same (digitNoName digits.1)
    | cons e rest =>
      show escape groups (c::d::e::rest) = _
      rw [escape,if_pos digits.1,if_neg (other e rfl)]
      · simp [digits,groupKnown known]
      · exact digitNoName digits.1
      · exact first
      · exact fun _ same => absurd same (digitNoName digits.1)
  | @one c _ first digit ends known =>
    refine ⟨.group (digitValue c),?_⟩
    cases rest with
    | nil =>
      show escape groups [c] = _
      rw [escape,if_pos digit,groupKnown known]
      · exact digitNoName digit
      · exact first
      · exact fun _ same => absurd same (digitNoName digit)
    | cons d rest =>
      have other : ¬ decimal d = true := by simp [ends d rfl]
      cases rest with
      | nil =>
        show escape groups [c,d] = _
        rw [escape,if_pos digit,if_neg other,groupKnown known]
        · exact digitNoName digit
        · exact first
        · exact fun _ same => absurd same (digitNoName digit)
      | cons e rest =>
        show escape groups (c::d::e::rest) = _
        rw [escape,if_pos digit,if_neg (fun octals => other (octalDecimal octals.2.1)),if_neg other,
          groupKnown known]
        · exact digitNoName digit
        · exact first
        · exact fun _ same => absurd same (digitNoName digit)

inductive Legal (groups : Nat) : List Char → Prop where
  | done : Legal groups []
  | char {c s} (plain : c ≠ '\\') (tail : Legal groups s) : Legal groups (c::s)
  | escape {used rest} (here : Accepted groups used rest) (tail : Legal groups rest) :
      Legal groups ('\\'::(used ++ rest))

theorem readsLegal {groups : Nat} {s : List Char} {pieces : List (Piece Char)} (reads : Reads groups s pieces) :
    Legal groups s := by
  induction reads with
  | done => exact .done
  | char plain tail ih => exact .char plain ih
  | escape here tail ih =>
    obtain ⟨used,rfl,accepted⟩ := escapeAccepted here
    exact .escape accepted ih

theorem legalReads {groups : Nat} {s : List Char} (legal : Legal groups s) : ∃ pieces, Reads groups s pieces := by
  induction legal with
  | done => exact ⟨[],.done⟩
  | char plain tail ih =>
    obtain ⟨pieces,reads⟩ := ih
    exact ⟨_,.char plain reads⟩
  | escape here tail ih =>
    obtain ⟨pieces,reads⟩ := ih
    obtain ⟨piece,parsed⟩ := acceptedEscape here
    exact ⟨_,.escape parsed reads⟩

theorem templateLegal {groups : Nat} {s : List Char} :
    (∃ pieces, template groups s = .ok pieces) ↔ Legal groups s :=
  ⟨fun ⟨_,parsed⟩ => readsLegal (templateIff.mp parsed),fun legal =>
    (legalReads legal).imp (fun _ reads => templateIff.mpr reads)⟩

theorem escapeSlash {groups : Nat} {used : List Char} {piece : Piece Char} (what : Escape groups used piece) :
    '\\' ∈ used → used.length = 1 := by
  intro mem
  cases what with
  | kept => rfl
  | char some all slash => rw [slash mem]; rfl
  | group some all slash => exact absurd mem slash

theorem verbatimChar {c : Char} (plain : c ≠ '\\') (s : List Char) : verbatim (c::s) = verbatim s := by
  rw [verbatim]
  · exact fun same => absurd same plain
  · exact fun _ _ same => absurd same plain

theorem plainVerbatim {s : List Char} (plain : '\\' ∉ s) : verbatim s = true := by
  induction s with
  | nil => rfl
  | cons c s ih =>
    rw [verbatimChar (fun same => plain (by simp [same]))]
    exact ih (fun mem => plain (List.mem_cons_of_mem _ mem))

theorem expandAppend (pieces more : List (Piece Char)) (m : Match Char) :
    expand (pieces ++ more) m = expand pieces m ++ expand more m := by simp [expand]

theorem expandCons (piece : Piece Char) (pieces : List (Piece Char)) (m : Match Char) :
    expand (piece::pieces) m = expand [piece] m ++ expand pieces m := by simp [expand]

/- A text in which every occurrence of p, from the left, has become h. -/
inductive Replaced {α : Type} (p h : List α) : List α → List α → Prop where
  | none {s} (absent : ¬ p <:+: s) : Replaced p h s s
  | some {x s t} (first : NoStart p x (p ++ s)) (rest : Replaced p h s t) :
      Replaced p h (x ++ (p ++ s)) (x ++ (h ++ t))

theorem replacedBy {α : Type} [DecidableEq α] {p h : List α} {r : Pattern α} (re : r.re = .lit p) (s : List α) :
    Replaced p h s (substitute r [.text h] s) := by
  induction hn : s.length using Nat.strong_induction_on generalizing s with
  | _ n ih =>
    by_cases inside : p <:+: s
    · obtain ⟨x,y,rfl,none⟩ := firstOccurrence inside
      have first := none []
      rw [List.append_nil] at first
      have here : matchHere (.lit p) (p ++ y) = some ⟨[],p,y⟩ := by
        simp [matchHere,tries]
      have found : search r.re (x ++ (p ++ y)) = some (x,⟨[],p,y⟩) := by
        rw [re,searchSkip (fun u v split some => by rw [tries,if_neg (first u v split some)]),searchHere here]
        simp
      have shorter := searchConsumes found
      rw [substituteSome found]
      have expanded : expand [.text h] ⟨[],p,y⟩ = h := by simp [expand]
      rw [expanded,List.append_assoc]
      exact .some first (ih _ (hn ▸ shorter) y rfl)
    · have found : search r.re s = none := by
        rw [re]
        refine searchNone (fun x y split => ?_)
        rw [tries,if_neg]
        intro front
        exact inside (split ▸ front.isInfix.trans (List.suffix_append x y).isInfix)
      rw [substituteNone found]
      exact .none inside

theorem replacedMember {α : Type} {p h s t : List α} (replaced : Replaced p h s t) :
    ∀ c ∈ t, c ∈ s ∨ c ∈ h := by
  induction replaced with
  | none => exact fun c mem => .inl mem
  | some first rest ih =>
    intro c mem
    simp only [List.mem_append] at mem ⊢
    rcases mem with front | new | later
    · exact .inl (.inl front)
    · exact .inr new
    · rcases ih c later with old | new
      · exact .inl (.inr (.inr old))
      · exact .inr new

theorem replacedOnce {α : Type} {p h x y t : List α} (free : Unbordered p) (some : p ≠ []) (first : ¬ p <:+: x)
    (once : ¬ p <:+: y) (replaced : Replaced p h (x ++ (p ++ y)) t) : t = x ++ (h ++ y) := by
  generalize whole : x ++ (p ++ y) = s at replaced
  cases replaced with
  | none absent => exact absurd ⟨x,y,by rw [← whole,List.append_assoc]⟩ absent
  | @some x' s t' start rest =>
    obtain ⟨rfl,rfl⟩ := sameFront free first (absentOfNoStart some start) whole
    cases rest with
    | none => rfl
    | some => exact absurd ⟨_,_,List.append_assoc _ _ _⟩ once

theorem replacedAbsent {α : Type} {p h s t u : List α} (some : u ≠ [])
    (left : ∀ y ∈ h.tails, y ≠ [] → ¬ y <+: u ∧ ¬ u <+: y)
    (right : ∀ y ∈ u.tails, y ≠ [] → ¬ y <+: h ∧ ¬ h <+: y)
    (absent : u = p ∨ ¬ u <:+: s) (replaced : Replaced p h s t) : ¬ u <:+: t := by
  induction replaced with
  | @none s other =>
    rcases absent with rfl | absent
    · exact other
    · exact absent
  | @some x s t first rest ih =>
    have outside : ¬ u <:+: x := by
      intro inside
      rcases absent with rfl | absent
      · exact absentOfNoStart some first inside
      · exact absent (inside.trans (List.prefix_append x _).isInfix)
    have later : u = p ∨ ¬ u <:+: s := by
      rcases absent with same | absent
      · exact .inl same
      · refine .inr (fun inside => absent (inside.trans ?_))
        exact ((List.suffix_append p s).trans (List.suffix_append x _)).isInfix
    exact absentAppend (noStartBefore outside right _) (absentAppend (noStartApart left _) (ih later))

end KernelTestTools.Regex
