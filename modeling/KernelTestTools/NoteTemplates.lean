import KernelTestTools.TestRenaming
import Mathlib.Algebra.GroupWithZero.Nat

/-! The new notes as a replacement template. They come out as they are exactly when no digit
stands in front of them and every backslash in them stands for itself. -/
namespace KernelTestTools.TestScript
open TextFile Regex

def opening : Text := notesMarker ++ ['\n']

def sectionMatch (old rest : Text) : Match Char :=
  ⟨[(1,opening),(2,old),(3,endNotesMarker)],opening ++ (old ++ endNotesMarker),rest⟩

theorem sectionGroup {n : Nat} (known : n ≤ 3) (old rest : Text) :
    (∃ t, (sectionMatch old rest).group n = 'T'::t) ∨ n = 2 ∧ (sectionMatch old rest).group n = old := by
  have cases : n = 0 ∨ n = 1 ∨ n = 2 ∨ n = 3 := by omega
  rcases cases with rfl | rfl | rfl | rfl
  · exact .inl ⟨_,rfl⟩
  · exact .inl ⟨_,rfl⟩
  · exact .inr ⟨rfl,rfl⟩
  · exact .inl ⟨_,rfl⟩

theorem foreignOld {old t rest after : Text} (sentence : generated <:+: old) (closed : ¬ endNotesMarker <:+: old)
    (foreign : ¬ generated <:+: t) : old ++ rest ≠ t ++ '\n'::(endNotesMarker ++ after) := by
  intro same
  rcases List.append_eq_append_iff.mp same with ⟨v,longer,_⟩ | ⟨v,longer,later⟩
  · refine foreign (sentence.trans ?_)
    rw [longer]
    exact (List.prefix_append _ _).isInfix
  · cases v with
    | nil =>
      rw [List.append_nil] at longer
      exact foreign (longer ▸ sentence)
    | cons c v =>
      obtain ⟨first,after⟩ := List.cons.inj later
      rw [← first] at longer
      rcases List.append_eq_append_iff.mp after with ⟨w,rfl,_⟩ | ⟨w,short,_⟩
      · refine closed ?_
        rw [longer]
        exact ⟨t ++ ['\n'],w,by simp⟩
      · have apart := noStartLine (c := '\n') (t := generated) (by decide) foreign v
        have absent : ¬ generated <:+: v := by
          intro inside
          have whole : generated <:+: endNotesMarker := by
            rw [short]
            exact inside.trans (List.prefix_append _ _).isInfix
          revert whole
          decide
        rw [longer] at sentence
        refine absentAppend apart absent ?_
        simpa using sentence

theorem readsClosing {pieces : List (Piece Char)} (reads : Reads 3 templateEnd pieces) :
    pieces = [.text ['\n'],.group 3] := by
  have parsed : template 3 templateEnd = .ok [.text ['\n'],.group 3] := by rfl
  rw [templateIff.mpr reads] at parsed
  exact Except.ok.inj parsed

theorem usedInside {y used rest t : Text} (some : y ≠ []) (slash : '\\' ∈ used → used.length = 1)
    (split : y ++ '\\'::t = used ++ rest) : ∃ z, y = used ++ z ∧ rest = z ++ '\\'::t := by
  rcases List.append_eq_append_iff.mp split with ⟨v,longer,later⟩ | ⟨v,shorter,later⟩
  · cases v with
    | nil =>
      rw [List.append_nil] at longer
      exact ⟨[],by rw [longer,List.append_nil],by simpa using later.symm⟩
    | cons c v =>
      have inside : '\\' ∈ used := by
        rw [longer,← (List.cons.inj later).1]
        simp
      have one := slash inside
      have positive := List.length_pos_iff.mpr some
      rw [longer,List.length_append,List.length_cons] at one
      omega
  · exact ⟨v,shorter,later⟩

theorem escapeInside {e : Char} {y rest : Text} {piece : Piece Char}
    (here : escape 3 (e::y ++ templateEnd) = .ok (piece,rest)) : ∃ used z, e::y = used ++ z ∧
      rest = z ++ templateEnd ∧ Escape 3 used piece ∧ z.length ≤ (e::y).length := by
  obtain ⟨used,whole,what⟩ := escapeUsed here
  obtain ⟨z,split,later⟩ := usedInside (by simp) (escapeSlash what) whole
  have lengths := congrArg List.length split
  rw [List.length_append] at lengths
  exact ⟨used,z,split,later,what,by omega⟩

theorem owed {out later q s : Text} (short : out.length ≤ q.length) (same : out ++ later = q ++ s) :
    ∃ d, q = out ++ d ∧ later = d ++ s := by
  rcases List.append_eq_append_iff.mp same with ⟨d,split,rest⟩ | ⟨d,split,rest⟩
  · exact ⟨d,split,rest⟩
  · have lengths := congrArg List.length split
    rw [List.length_append] at lengths
    have empty : d = [] := List.eq_nil_of_length_eq_zero (by omega)
    rw [empty,List.append_nil] at split
    rw [empty,List.nil_append] at rest
    exact ⟨[],by rw [split,List.append_nil],rest.symm⟩

theorem closingOwed {d after s : Text} {c : Char} (free : 'T' ∉ d) (other : c ≠ 'T')
    (same : endNotesMarker ++ after = d ++ c::s) : False := by
  have first : endNotesMarker = 'T'::endNotesMarker.tail := by decide
  rw [first] at same
  cases d with
  | nil => exact other (List.cons.inj same).1.symm
  | cons a d =>
    have start : 'T' = a := (List.cons.inj same).1
    exact free (start ▸ List.mem_cons_self)

theorem endOwed {old rest after after' d : Text} {pieces : List (Piece Char)}
    (reads : Reads 3 ([] ++ templateEnd) pieces) (free : 'T' ∉ d)
    (same : expand pieces (sectionMatch old rest) ++ after = d ++ ([] ++ '\n'::(endNotesMarker ++ after'))) :
    d = [] ∧ verbatim [] = true := by
  refine ⟨?_,rfl⟩
  rw [readsClosing reads] at same
  have expanded : expand [.text ['\n'],.group 3] (sectionMatch old rest) = '\n'::endNotesMarker := rfl
  rw [expanded] at same
  cases d with
  | nil => rfl
  | cons a d =>
    have later := (List.cons.inj same).2
    exact (closingOwed (fun mem => free (List.mem_cons_of_mem _ mem)) (by decide) later).elim

theorem slashClosing {rest : Text} {piece : Piece Char} {pieces : List (Piece Char)}
    (here : escape 3 templateEnd = .ok (piece,rest)) (later : Reads 3 rest pieces) :
    piece = .text ['\\'] ∧ pieces = [.text ['n'],.group 3] := by
  have parsed : escape 3 templateEnd = .ok (.text ['\\'],['n','\\','3']) := by rfl
  rw [parsed] at here
  cases here
  have last : template 3 ['n','\\','3'] = .ok [.text ['n'],.group 3] := by rfl
  rw [templateIff.mpr later] at last
  exact ⟨rfl,Except.ok.inj last⟩

section
variable {old rest after after' d y : Text} {tail : List (Piece Char)}

/- A text whose pieces leave no debt: what they put out is what they are read from. -/
def Settled (old rest after after' y : Text) : Prop := ∀ (d : Text) (pieces : List (Piece Char)),
  Reads 3 (y ++ templateEnd) pieces → 'T' ∉ d → ¬ generated <:+: d ++ y →
    expand pieces (sectionMatch old rest) ++ after = d ++ (y ++ '\n'::(endNotesMarker ++ after')) →
      d = [] ∧ verbatim y = true

theorem paid {src out : Text} (settled : Settled old rest after after' y)
    (later : Reads 3 (y ++ templateEnd) tail) (foreign : ¬ generated <:+: d ++ (src ++ y))
    (same : out ++ expand tail (sectionMatch old rest) ++ after =
      d ++ (src ++ y ++ '\n'::(endNotesMarker ++ after')))
    (short : out.length ≤ (d ++ src).length) (plain : ∀ d', d ++ src = out ++ d' → 'T' ∉ d') :
    d ++ src = out ∧ verbatim y = true := by
  rw [List.append_assoc,List.append_assoc,← List.append_assoc d] at same
  obtain ⟨d',consumed,left⟩ := owed short same
  have inside : ¬ generated <:+: d' ++ y := by
    intro within
    refine foreign (within.trans ⟨out,[],?_⟩)
    rw [← List.append_assoc d,consumed]
    simp
  obtain ⟨none,kept⟩ := settled d' tail later (plain d' consumed) inside left
  rw [none,List.append_nil] at consumed
  exact ⟨consumed,kept⟩

theorem charOwed {c : Char} (settled : Settled old rest after after' y) (plain : c ≠ '\\')
    (later : Reads 3 (y ++ templateEnd) tail) (free : 'T' ∉ d) (foreign : ¬ generated <:+: d ++ c::y)
    (same : [c] ++ expand tail (sectionMatch old rest) ++ after =
      d ++ (c::y ++ '\n'::(endNotesMarker ++ after'))) : d = [] ∧ verbatim (c::y) = true := by
  obtain ⟨even,kept⟩ := @paid _ _ _ _ d y tail [c] [c] settled later foreign same (by simp) (by
    intro d' consumed
    cases d with
    | nil =>
      have empty : d' = [] := by simpa using consumed
      simp [empty]
    | cons a d =>
      have first : a = c := (List.cons.inj consumed).1
      have others : d ++ [c] = d' := (List.cons.inj consumed).2
      rw [← others,← first]
      intro mem
      exact free (by simpa [or_comm] using mem))
  exact ⟨by simpa using even,by rw [verbatimChar plain]; exact kept⟩

theorem slashOwed (free : 'T' ∉ d)
    (same : '\\' :: 'n' :: (endNotesMarker ++ after) = d ++ '\\' :: '\n' :: (endNotesMarker ++ after')) : False := by
  cases d with
  | nil => exact absurd (List.cons.inj (List.cons.inj same).2).1 (by decide)
  | cons a d =>
    have later := (List.cons.inj same).2
    cases d with
    | nil => exact absurd (List.cons.inj later).1 (by decide)
    | cons b d => exact closingOwed (fun mem => free (by simp [mem])) (by decide) (List.cons.inj later).2

/- Only an escape that stands for itself pays what it uses up: any other text is too short,
and a group starts with a T or is the old notes. -/
theorem escapeOwed {used : Text} {piece : Piece Char} (sentence : generated <:+: old)
    (closed : ¬ endNotesMarker <:+: old) (settled : Settled old rest after after' y)
    (what : Escape 3 used piece) (later : Reads 3 (y ++ templateEnd) tail) (free : 'T' ∉ d)
    (foreign : ¬ generated <:+: d ++ ('\\'::used ++ y))
    (same : expand [piece] (sectionMatch old rest) ++ expand tail (sectionMatch old rest) ++ after =
      d ++ ('\\'::used ++ y ++ '\n'::(endNotesMarker ++ after'))) :
    d = [] ∧ verbatim ('\\'::used ++ y) = true := by
  cases what with
  | @kept k ordinary =>
    have letter : k ≠ 'T' := by
      intro same
      rw [same] at ordinary
      cases ordinary
    obtain ⟨even,kept⟩ := @paid _ _ _ _ d y tail ['\\',k] ['\\',k] settled later foreign same (by simp) (by
      intro d' consumed mem
      have all : 'T' ∈ d ++ ['\\',k] := by rw [consumed]; simp [mem]
      simp [free,Ne.symm letter] at all)
    exact ⟨List.append_cancel_right (even : d ++ _ = [] ++ _),by simp [verbatim,ordinary,kept]⟩
  | @char _ k some all slash =>
    have positive := List.length_pos_iff.mpr some
    obtain ⟨even,_⟩ := @paid _ _ _ _ d y tail ('\\'::used) [k] settled later foreign same
      (by simp only [List.length_append,List.length_cons,List.length_nil]; omega) (by
      intro d' consumed mem
      have within : 'T' ∈ d ++ '\\'::used := by rw [consumed]; simp [mem]
      have unused : 'T' ∉ used := fun own => absurd (all 'T' own) (by decide)
      simp [free,unused] at within)
    have lengths := congrArg List.length even
    simp only [List.length_append,List.length_cons,List.length_nil] at lengths
    omega
  | @group _ k some all slash known =>
    have single : expand [.group k] (sectionMatch old rest) = (sectionMatch old rest).group k := by
      simp [expand]
    rw [single] at same
    rcases sectionGroup known old rest with ⟨t,first⟩ | ⟨_,own⟩
    · rw [first] at same
      cases d with
      | nil =>
        have start : 'T' = '\\' := (List.cons.inj same).1
        exact absurd start (by decide)
      | cons a d =>
        have start : 'T' = a := (List.cons.inj same).1
        exact absurd (start ▸ List.mem_cons_self) free
    · rw [own,List.append_assoc,← List.append_assoc d] at same
      exact absurd same (foreignOld sentence closed foreign)

end

/- What the pieces still owe to the text. An escape puts out less than it uses up, the debt
has no T in it, and a group starts with one, so nothing ever pays it back. -/
theorem nothingOwed {old rest after after' : Text} (sentence : generated <:+: old)
    (closed : ¬ endNotesMarker <:+: old) {n : Nat} {y : Text} (bound : y.length ≤ n) :
    Settled old rest after after' y := by
  induction n generalizing y with
  | zero =>
    intro d pieces reads free _ same
    have empty : y = [] := List.eq_nil_of_length_eq_zero (by omega)
    subst empty
    exact endOwed reads free same
  | succ n ih =>
    intro d pieces reads free foreign same
    cases y with
    | nil => exact endOwed reads free same
    | cons c y =>
      rw [List.length_cons] at bound
      cases reads with
      | @char _ _ tail plain later =>
        rw [expandCons] at same
        exact charOwed (ih (by omega)) plain later free foreign same
      | @escape _ rest' piece tail here later =>
        rw [expandCons] at same
        cases y with
        | nil =>
          obtain ⟨rfl,rfl⟩ := slashClosing here later
          exact (slashOwed free same).elim
        | cons e y =>
          obtain ⟨used,z,split,rfl,what,shorter⟩ := escapeInside here
          have source : '\\'::e::y = '\\'::used ++ z := by rw [split]; rfl
          rw [source] at foreign same ⊢
          exact escapeOwed sentence closed (ih (by omega)) what later free foreign same

/- A piece of the output with the part of the notes that it comes from. The opening marker
does not end inside it, and unless it is the old notes it has no digits of its own. -/
structure Part (src out : Text) : Prop where
  counted : out.countP decimal ≤ src.countP decimal ∨ generated <:+: out ∧ ¬ endNotesMarker <:+: out
  whole : ∀ u, u ≠ [] → u <+: out → u ≠ out → ¬ opening <:+: u ∧ ¬ u <:+ opening

theorem charPart {src : Text} {c : Char} (digits : [c].countP decimal ≤ src.countP decimal) :
    Part src [c] := by
  refine ⟨.inl digits,fun u some front proper => ?_⟩
  rcases List.prefix_cons_iff.mp front with rfl | ⟨v,rfl,empty⟩
  · exact absurd rfl some
  · rw [List.prefix_nil.mp empty] at proper
    exact absurd rfl proper

theorem keptPart {c : Char} (ordinary : special c = false) (src : Text) : Part src ['\\',c] := by
  have digit : decimal c = false := by
    simp only [special,Bool.or_eq_false_iff] at ordinary
    exact ordinary.1.2
  have slash : decimal '\\' = false := by decide
  refine ⟨.inl (by simp [digit,slash]),fun u some front proper => ?_⟩
  rcases List.prefix_cons_iff.mp front with rfl | ⟨v,rfl,inner⟩
  · exact absurd rfl some
  · rcases List.prefix_cons_iff.mp inner with rfl | ⟨w,rfl,empty⟩
    · decide
    · rw [List.prefix_nil.mp empty] at proper
      exact absurd rfl proper

theorem openingPart (src : Text) : Part src opening := by
  have free : Unbordered opening := by decide
  have digits : opening.countP decimal = 0 := by decide
  refine ⟨.inl (by omega),fun u some front proper => ⟨fun inside => ?_,fun last => ?_⟩⟩
  · exact proper (front.eq_of_length_le inside.length_le)
  · exact free u ((List.mem_tails u opening).mpr last) some proper front

theorem endPart (src : Text) : Part src endNotesMarker := by
  have apart : Apart endNotesMarker opening := by decide
  have other : ¬ opening <:+: endNotesMarker := by decide
  have digits : endNotesMarker.countP decimal = 0 := by decide
  refine ⟨.inl (by omega),fun u some front _ => ⟨fun inside => ?_,fun last => ?_⟩⟩
  · exact other (inside.trans front.isInfix)
  · exact (apart u ((List.mem_tails u opening).mpr last) some).1 front

theorem oldPart {old : Text} (sentence : generated <:+: old) (closed : ¬ endNotesMarker <:+: old)
    (opened : ¬ opening <:+: old) (start : ∀ c ∈ old.head?, decimal c = true) (src : Text) : Part src old := by
  refine ⟨.inr ⟨sentence,closed⟩,fun u some front _ => ⟨fun inside => ?_,fun last => ?_⟩⟩
  · exact opened (inside.trans front.isInfix)
  · cases u with
    | nil => exact some rfl
    | cons c u =>
      obtain ⟨v,rfl⟩ := front
      have digit := start c rfl
      have letters : ∀ c ∈ opening, decimal c = false := eachOf (by decide)
      rw [letters c (last.subset List.mem_cons_self)] at digit
      cases digit

section
variable {parts : List (Text × Text)} {after t s : Text}

theorem digitsKept (each : ∀ p ∈ parts, Part p.1 p.2) (foreign : ¬ generated <:+: t)
    (closed : ¬ endNotesMarker <:+: t)
    (same : parts.flatMap Prod.snd ++ (endNotesMarker ++ after) = t ++ '\n'::(endNotesMarker ++ s)) :
    t.countP decimal ≤ (parts.map (fun p => p.1.countP decimal)).sum := by
  induction parts generalizing t with
  | nil =>
    rw [List.flatMap_nil,List.nil_append] at same
    rcases List.append_eq_append_iff.mp same with ⟨v,longer,_⟩ | ⟨v,short,_⟩
    · exact absurd ⟨[],v,longer.symm⟩ closed
    · have none : endNotesMarker.countP decimal = 0 := by decide
      rw [short,List.countP_append] at none
      omega
  | cons p parts ih =>
    obtain ⟨src,out⟩ := p
    have here : Part src out := each _ List.mem_cons_self
    simp only [List.flatMap_cons,List.append_assoc,List.map_cons,List.sum_cons] at same ⊢
    rcases here.counted with counted | ⟨sentence,ends⟩
    · rcases List.append_eq_append_iff.mp same with ⟨v,longer,rest⟩ | ⟨v,short,_⟩
      · have later := ih (fun p mem => each p (List.mem_cons_of_mem _ mem))
          (fun inside => foreign (longer ▸ inside.trans (List.suffix_append _ _).isInfix))
          (fun inside => closed (longer ▸ inside.trans (List.suffix_append _ _).isInfix)) rest
        rw [longer,List.countP_append]
        omega
      · have less := congrArg (List.countP decimal) short
        rw [List.countP_append] at less
        omega
    · exact absurd same (foreignOld sentence ends foreign)

theorem digitsBehind (each : ∀ p ∈ parts, Part p.1 p.2) (foreign : ¬ generated <:+: t)
    (closed : ¬ endNotesMarker <:+: t) (once : ¬ opening <:+: after) {q : Text} {k : Nat}
    (ends : opening <:+ q ++ (parts.flatMap Prod.snd ++ (endNotesMarker ++ after)).take k)
    (same : (parts.flatMap Prod.snd ++ (endNotesMarker ++ after)).drop k = t ++ '\n'::(endNotesMarker ++ s)) :
    t.countP decimal ≤ (parts.map (fun p => p.1.countP decimal)).sum := by
  induction parts generalizing q k with
  | nil =>
    rw [List.flatMap_nil,List.nil_append] at ends same
    by_cases start : k = 0
    · rw [start,List.drop_zero] at same
      exact digitsKept each foreign closed same
    · have apart : Apart endNotesMarker opening := by decide
      have front := List.take_prefix k (endNotesMarker ++ after)
      rcases List.suffix_or_suffix_of_suffix ends (List.suffix_append _ _) with inside | last
      · have absent := absentAppend (noStartApart (show Apart opening endNotesMarker by decide) after) once
        exact absurd (inside.isInfix.trans front.isInfix) absent
      · have some : (endNotesMarker ++ after).take k ≠ [] := by
          have nonempty : endNotesMarker ≠ [] := by decide
          simp [start,nonempty]
        have off := apart _ ((List.mem_tails _ opening).mpr last) some
        rcases List.prefix_or_prefix_of_prefix front (List.prefix_append endNotesMarker after) with short | long
        · exact absurd short off.1
        · exact absurd long off.2
  | cons p parts ih =>
    obtain ⟨src,out⟩ := p
    have here : Part src out := each _ List.mem_cons_self
    by_cases start : k = 0
    · rw [start,List.drop_zero] at same
      exact digitsKept each foreign closed same
    · simp only [List.flatMap_cons,List.append_assoc,List.map_cons,List.sum_cons] at ends same ⊢
      by_cases short : k < out.length
      · rw [List.take_append_of_le_length (Nat.le_of_lt short)] at ends
        have lengths := List.length_take_of_le (Nat.le_of_lt short)
        have some : out.take k ≠ [] := by
          refine List.ne_nil_of_length_pos ?_
          omega
        have proper : out.take k ≠ out := by
          intro same
          rw [same] at lengths
          omega
        have off := here.whole _ some (List.take_prefix k out) proper
        rcases List.suffix_or_suffix_of_suffix ends (List.suffix_append _ _) with inside | last
        · exact absurd inside.isInfix off.1
        · exact absurd last off.2
      · have longer : k = out.length + (k-out.length) := by omega
        rw [longer,List.take_length_add_append,← List.append_assoc] at ends
        rw [longer,List.drop_length_add_append] at same
        have later := ih (fun p mem => each p (List.mem_cons_of_mem _ mem)) ends same
        omega

end

def Divided (notes out : Text) : Prop := ∃ parts : List (Text × Text), (∀ p ∈ parts, Part p.1 p.2) ∧
  out = parts.flatMap Prod.snd ++ endNotesMarker ∧
    (parts.map (fun p => p.1.countP decimal)).sum ≤ notes.countP decimal

theorem dividedMore {src y out : Text} (own : List (Text × Text)) (each : ∀ p ∈ own, Part p.1 p.2)
    (counted : (own.map (fun p => p.1.countP decimal)).sum ≤ src.countP decimal) (rest : Divided y out) :
    Divided (src ++ y) (own.flatMap Prod.snd ++ out) := by
  obtain ⟨parts,kept,rfl,fewer⟩ := rest
  refine ⟨own ++ parts,?_,?_,?_⟩
  · intro p mem
    rcases List.mem_append.mp mem with first | later
    · exact each p first
    · exact kept p later
  · rw [List.flatMap_append,List.append_assoc]
  · rw [List.countP_append,List.map_append,List.sum_append]
    omega

theorem dividedOne {src y part out : Text} (own : Part src part) (rest : Divided y out) :
    Divided (src ++ y) (part ++ out) := by
  have each : ∀ p ∈ [(src,part)], Part p.1 p.2 := by
    intro p mem
    rw [List.mem_singleton.mp mem]
    exact own
  have more := @dividedMore src y out [(src,part)] each (by simp) rest
  simpa using more

theorem dividedEnd : Divided [] ('\n'::endNotesMarker) :=
  @dividedOne [] [] ['\n'] _ (charPart (by decide)) ⟨[],by simp,rfl,Nat.le_refl _⟩

theorem dividedSlash : Divided ['\\'] ('\\' :: 'n' :: endNotesMarker) :=
  @dividedOne ['\\'] [] ['\\'] _ (charPart (Nat.le_refl _))
    (@dividedOne [] [] ['n'] _ (charPart (by decide)) ⟨[],by simp,rfl,Nat.le_refl _⟩)

theorem dividedGroup {old rest src y out : Text} (own : ∀ src, Part src old) {n : Nat} (known : n ≤ 3)
    (later : Divided y out) : Divided (src ++ y) ((sectionMatch old rest).group n ++ out) := by
  have cases : n = 0 ∨ n = 1 ∨ n = 2 ∨ n = 3 := by omega
  rcases cases with rfl | rfl | rfl | rfl
  · have three := dividedOne (openingPart src) (dividedOne (own []) (dividedOne (endPart []) later))
    have group : (sectionMatch old rest).group 0 = opening ++ (old ++ endNotesMarker) := rfl
    rw [group]
    simpa using three
  · exact dividedOne (openingPart src) later
  · exact dividedOne (own src) later
  · exact dividedOne (endPart src) later

theorem readsDivided {old rest : Text} (own : ∀ src, Part src old) {n : Nat} {y : Text}
    {pieces : List (Piece Char)} (bound : y.length ≤ n) (reads : Reads 3 (y ++ templateEnd) pieces) :
    Divided y (expand pieces (sectionMatch old rest)) := by
  induction n generalizing y pieces with
  | zero =>
    have empty : y = [] := List.eq_nil_of_length_eq_zero (by omega)
    subst empty
    rw [readsClosing reads]
    exact dividedEnd
  | succ n ih =>
    cases y with
    | nil =>
      rw [readsClosing reads]
      exact dividedEnd
    | cons c y =>
      rw [List.length_cons] at bound
      cases reads with
      | @char _ _ tail plain later =>
        rw [expandCons]
        exact dividedOne (@charPart [c] c (Nat.le_refl _)) (ih (by omega) later)
      | @escape _ rest' piece tail here later =>
        rw [expandCons]
        cases y with
        | nil =>
          obtain ⟨rfl,rfl⟩ := slashClosing here later
          exact dividedSlash
        | cons e y =>
          obtain ⟨used,z,split,rfl,what,shorter⟩ := escapeInside here
          have left := ih (y := z) (by omega) later
          have source : '\\'::e::y = '\\'::used ++ z := by rw [split]; rfl
          rw [source]
          cases what with
          | @kept k ordinary =>
            exact dividedOne (keptPart ordinary _) left
          | @char _ k some all slash counted =>
            refine dividedOne (charPart (counted.trans ?_)) left
            exact (List.sublist_cons_self _ _).countP_le
          | @group _ k some all slash known =>
            have single : expand [.group k] (sectionMatch old rest) = (sectionMatch old rest).group k := by
              simp [expand]
            rw [single]
            exact dividedGroup own known left

theorem oldNotesCut (s : Text) : substitute oldNotes (('\n'::tail).map (fun c => .text [c])) s = s ∨
    ∃ x, x <+: s ∧ substitute oldNotes (('\n'::tail).map (fun c => .text [c])) s = x ++ '\n'::tail := by
  cases found : search oldNotes.re s with
  | none => exact .inl (substituteNone found)
  | some k =>
    obtain ⟨before,m⟩ := k
    obtain ⟨t,split,here⟩ := searchMatch found
    obtain ⟨_,j,_,next,same⟩ := matchSeq here
    obtain ⟨k,i,_,last,same'⟩ := matchSeq next
    have whole := greedyLast (greedyGroup anyChar 0 1) k.rest
    have all : k.rest.dropWhile anyChar = [] := List.dropWhile_eq_nil_iff.mpr (fun _ _ => rfl)
    rw [whole,all] at last
    have rest : m.rest = [] := by
      rw [same,same',← Option.some.inj last]
      rfl
    have none : search oldNotes.re [] = none := by rfl
    refine .inr ⟨before,⟨t,split.symm⟩,?_⟩
    rw [substituteSome found,rest,substituteNone none,expandText,List.append_nil]

theorem noteForms {origin note : Text} (rewritten : handleTestNote origin = .ok note) :
    (¬ generated <:+: origin ∧ note = standardNote) ∨
    (generated <:+: origin ∧ ∃ t, Replaced generated head origin t ∧
      (note = t ∨ ∃ x, x <+: t ∧ note = x ++ '\n'::tail)) := by
  rw [handleTestNote] at rewritten
  split at rewritten
  · rename_i own
    rw [substitutedOk (templatePlain _ tailPlain)] at rewritten
    refine .inr ⟨own,_,replacedBy (r := generatedNote) rfl origin,?_⟩
    rw [← Except.ok.inj rewritten]
    exact oldNotesCut _
  · rename_i own
    exact .inl ⟨own,(Except.ok.inj rewritten).symm⟩

theorem generatedOnce {x y : Text} (before : ¬ generated <:+: x) (behind : ¬ generated <:+: y)
    (fresh : ¬ generationNotes <:+: x ++ (head ++ y)) :
    handleTestNote (x ++ (generated ++ y)) = .ok (x ++ (head ++ y)) := by
  have own : generated <:+: x ++ (generated ++ y) := ⟨x,y,List.append_assoc _ _ _⟩
  have replaced := replacedBy (r := generatedNote) (p := generated) (h := head) rfl (x ++ (generated ++ y))
  have once := replacedOnce (by decide) (by decide) before behind replaced
  rw [handleTestNote,if_pos own,substitutedOk (templatePlain _ tailPlain),once]
  refine congrArg Except.ok (substituteNone ?_)
  cases found : search oldNotes.re (x ++ (head ++ y)) with
  | none => rfl
  | some k =>
    obtain ⟨before,m⟩ := k
    obtain ⟨t,split,here⟩ := searchMatch found
    obtain ⟨k,j,first,next,_⟩ := matchSeq here
    obtain ⟨l,_,heading,_,_⟩ := matchSeq next
    refine absurd ?_ fresh
    rw [split,triesSplit first,triesSplit heading,(literalOnly (literalRe generationNotes) heading).2]
    exact ⟨before ++ k.taken,l.rest,by simp⟩

theorem tailLetters : ∀ c ∈ tail, c ≠ 'T' ∧ c ≠ '_' := by
  have free : tail.all (fun c => c != 'T' && c != '_') = true := by
    delta tail
    rw [List.all_append,List.all_append,literalAll (by decide +kernel),literalAll (by decide +kernel),
      literalAll (by decide +kernel)]
    rfl
  intro c mem
  simpa using List.all_eq_true.mp free c mem

theorem noteSlash {origin note : Text} (rewritten : handleTestNote origin = .ok note)
    (plain : '\\' ∉ origin) : '\\' ∉ note := by
  have headPlain : '\\' ∉ head := by decide
  rcases noteForms rewritten with ⟨_,rfl⟩ | ⟨_,t,replaced,forms⟩
  · exact standardPlain
  · have clear : '\\' ∉ t := by
      intro mem
      rcases replacedMember replaced _ mem with old | new
      · exact plain old
      · exact headPlain new
    rcases forms with rfl | ⟨x,front,rfl⟩
    · exact clear
    · intro mem
      rcases List.mem_append.mp mem with old | last
      · exact clear (front.subset old)
      · exact tailPlain last

theorem noteAbsent {origin note t u : Text} (some : u ≠ []) (line : '\n' ∉ u) (letter : 'T' ∈ u)
    (left : Apart u head) (right : Apart head u) (absent : u = generated ∨ ¬ u <:+: origin)
    (replaced : Replaced generated head origin t) (forms : note = t ∨ ∃ x, x <+: t ∧ note = x ++ '\n'::tail) :
    ¬ u <:+: note := by
  have clear := replacedAbsent some left right absent replaced
  rcases forms with rfl | ⟨x,front,rfl⟩
  · exact clear
  · have before : ¬ u <:+: x := fun inside => clear (inside.trans front.isInfix)
    have after : ¬ u <:+: tail := fun inside => (tailLetters _ (inside.subset letter)).1 rfl
    have whole := absentAppend (noStartLine line before tail) after
    rwa [List.append_assoc] at whole

theorem noteForeign {origin note : Text} (rewritten : handleTestNote origin = .ok note)
    (own : generated <:+: origin) : ¬ generated <:+: note := by
  rcases noteForms rewritten with ⟨other,_⟩ | ⟨_,t,replaced,forms⟩
  · exact absurd own other
  · exact noteAbsent (by decide) (by decide) (by decide) (by decide) (by decide) (.inl rfl) replaced forms

theorem standardClosed : '_' ∉ standardNote := by
  have text : body.all (· != '_') = true := by
    delta body
    exact literalAll (by decide +kernel)
  have title : '_' ∉ head := by decide
  rw [standardShape]
  intro mem
  simp only [List.mem_append,List.mem_cons] at mem
  rcases mem with front | same | middle | same | last
  · exact title front
  · cases same
  · simpa using List.all_eq_true.mp text _ middle
  · cases same
  · exact (tailLetters _ last).2 rfl

theorem noteClosed {origin note : Text} (rewritten : handleTestNote origin = .ok note)
    (closed : ¬ endNotesMarker <:+: origin) : ¬ endNotesMarker <:+: note := by
  rcases noteForms rewritten with ⟨_,rfl⟩ | ⟨_,t,replaced,forms⟩
  · exact fun inside => standardClosed (inside.subset (by decide))
  · exact noteAbsent (by decide) (by decide) (by decide) (by decide) (by decide) (.inr closed) replaced forms

theorem noteDigit {origin note : Text} (rewritten : handleTestNote origin = .ok note) {c : Char}
    (first : note.head? = .some c) (digit : decimal c = true) :
    generated <:+: origin ∧ origin.head? = .some c := by
  have letter : head = 'T'::head.tail := by decide
  rcases noteForms rewritten with ⟨_,rfl⟩ | ⟨own,t,replaced,forms⟩
  · rw [standardShape,letter] at first
    cases first
    cases digit
  · refine ⟨own,?_⟩
    have start : t.head? = .some c := by
      rcases forms with rfl | ⟨x,⟨y,rfl⟩,rfl⟩
      · exact first
      · cases x with
        | nil =>
          cases first
          cases digit
        | cons d x => exact first
    cases replaced with
    | none => exact start
    | @some x s t _ _ =>
      cases x with
      | nil =>
        rw [letter] at start
        cases start
        cases digit
      | cons d x => exact start

structure Carries (note : Text) : Prop where
  escapes : verbatim note = true
  start : ∀ c ∈ note.head?, decimal c = false

theorem openTemplate {note : Text} {pieces : List (Piece Char)} (start : ∀ c ∈ note.head?, decimal c = false)
    (parsed : template 3 (notesTemplate note) = .ok pieces) :
    ∃ rest, pieces = .group 1::rest ∧ Reads 3 (note ++ templateEnd) rest := by
  rw [notesTemplateShape,templateIff] at parsed
  cases parsed with
  | char plain => exact absurd rfl plain
  | escape here rest =>
    rw [openingReference start] at here
    cases here
    exact ⟨_,rfl,rest⟩

/- Notes that start with a digit make the opening reference another escape. -/
theorem digitTemplate {d : Char} {s : Text} {pieces : List (Piece Char)} (digit : decimal d = true)
    (parsed : template 3 (notesTemplate (d::s)) = .ok pieces) :
    ∃ e w k rest, s = e::w ∧ octal d = true ∧ octal e = true ∧ k = Char.ofNat (numeral 8 ['1',d,e]) ∧
      pieces = .text [k]::rest ∧ Reads 3 (w ++ templateEnd) rest := by
  have wrong : groupPiece 3 (numeral 10 ['1',d]) = .error .invalidGroup := by
    have one : digitValue '1' = 1 := by decide
    rw [groupPiece,if_neg]
    simp only [numeral,List.foldl_cons,List.foldl_nil,one]
    omega
  rw [notesTemplateShape,templateIff] at parsed
  cases parsed with
  | char plain => exact absurd rfl plain
  | @escape _ rest piece tail here later =>
    have one : decimal '1' = true := by decide
    have start : octal '1' = true := by decide
    obtain ⟨e,w,split⟩ : ∃ e w, s ++ templateEnd = e::w := by
      cases s with
      | nil => exact ⟨_,_,rfl⟩
      | cons e w => exact ⟨e,w ++ templateEnd,rfl⟩
    rw [List.cons_append,split,escape,if_pos one] at here
    · split at here
      · rename_i digits
        obtain ⟨_,two,three⟩ := digits
        split at here
        · cases here
          cases s with
          | nil =>
            have last : e = '\\' := (List.cons.inj split).1.symm
            rw [last] at three
            cases three
          | cons f s =>
            obtain ⟨rfl,rfl⟩ := List.cons.inj split
            exact ⟨f,s,_,_,rfl,two,three,rfl,rfl,later⟩
        · cases here
      · rw [wrong] at here
        cases here
    · decide
    · decide
    · intro _ same
      exact absurd same (by decide)

theorem carriesTemplate {note : Text} (carries : Carries note) : ∃ pieces,
    template 3 (notesTemplate note) = .ok pieces ∧ ∀ old rest,
      expand pieces (sectionMatch old rest) = opening ++ (note ++ '\n'::endNotesMarker) := by
  obtain ⟨pieces,parsed,stands⟩ := verbatimTemplate carries.escapes carries.start
  refine ⟨_,parsed,fun old rest => ?_⟩
  rw [expandCons,expandAppend,stands]
  rfl

theorem standardCarries : Carries standardNote := ⟨plainVerbatim standardPlain,standardStart⟩

theorem carriesBack {old note rest front after x s : Text} {pieces : List (Piece Char)}
    (rewritten : handleTestNote old = .ok note) (closed : ¬ endNotesMarker <:+: old)
    (opened : ¬ opening <:+: old) (parsed : template 3 (notesTemplate note) = .ok pieces)
    (before : ¬ opening <:+: front) (first : ¬ opening <:+: x) (behind : ¬ opening <:+: after)
    (same : front ++ (expand pieces (sectionMatch old rest) ++ after) =
      x ++ (opening ++ (note ++ '\n'::(endNotesMarker ++ s)))) : Carries note := by
  have noteEnds := noteClosed rewritten closed
  rcases noteForms rewritten with ⟨_,standard⟩ | ⟨own,_⟩
  · exact standard ▸ standardCarries
  have foreign := noteForeign rewritten own
  by_cases start : ∀ c ∈ note.head?, decimal c = false
  · obtain ⟨tail,rfl,reads⟩ := openTemplate start parsed
    have group : expand [.group 1] (sectionMatch old rest) = opening := rfl
    rw [expandCons,group,List.append_assoc] at same
    have even := (sameFront (by decide) before first same).2
    have kept := nothingOwed own closed (Nat.le_refl _) [] _ reads (by simp) foreign even
    exact ⟨kept.2,start⟩
  · exfalso
    simp only [not_forall,Bool.not_eq_false] at start
    obtain ⟨c,mem,digit⟩ := start
    have oldStart := (noteDigit rewritten mem digit).2
    cases note with
    | nil => cases mem
    | cons d note =>
      obtain rfl : d = c := by simpa using mem
      obtain ⟨e,w,k,tail,rfl,_,three,_,rfl,reads⟩ := digitTemplate digit parsed
      have part := oldPart own closed opened (by
        intro c first
        rw [oldStart] at first
        exact Option.some.inj first ▸ digit)
      obtain ⟨parts,each,expanded,fewer⟩ := @readsDivided old rest part _ w tail (Nat.le_refl _) reads
      have counted : (d::e::w).countP decimal = w.countP decimal + 2 := by
        simp [digit,octalDecimal three]
      rw [expandCons,expanded,List.append_assoc,List.append_assoc,← List.append_assoc front,
        ← List.append_assoc x] at same
      have single : expand [.text [k]] (sectionMatch old rest) = [k] := rfl
      rw [single] at same
      have less : (d::e::w).countP decimal ≤ (parts.map (fun p => p.1.countP decimal)).sum := by
        rcases List.append_eq_append_iff.mp same with ⟨u,longer,later⟩ | ⟨v,longer,later⟩
        · refine digitsBehind (k := u.length) (q := front ++ [k]) each foreign noteEnds behind ?_ ?_ (s := s)
          · rw [later,List.take_left,← longer]
            exact List.suffix_append _ _
          · rw [later,List.drop_left]
        · rcases List.eq_nil_or_concat v with rfl | ⟨v,l,rfl⟩
          · exact digitsKept each foreign noteEnds later.symm
          · rw [List.concat_eq_append,← List.append_assoc] at longer
            have whole := List.append_inj_left' longer rfl
            exact absurd ⟨x,v,whole.symm⟩ before
      omega

end KernelTestTools.TestScript
