import KernelTestTools.TextFile

/-! The matches that grep -o prints: in each line the longest match at the first place where
there is one, then on behind it. A place where the next match starts inside the last one is
passed over. -/
namespace KernelTestTools.GrepMatches
open TextFile

abbrev Matcher := Text → Option Text

/- held characters still belong to the last match. -/
def scan (m : Matcher) : Nat → Text → List Text
  | _,[] => []
  | held+1,_::t => scan m held t
  | 0,c::t =>
    match m (c::t) with
    | some w => w::scan m (w.length-1) t
    | none => scan m 0 t

def lineList (file : Text) : List Text := (lines file).map lineText

/- grep -o pattern file -/
def grepOnly (m : Matcher) (file : Text) : List Text := (lineList file).flatMap (scan m 0)

def longest : List Text → Option Text
  | [] => none
  | w::ws =>
    match longest ws with
    | some v => if w.length < v.length then some v else some w
    | none => some w

/- -e word -e word .. -/
def wordOf (words : List Text) : Matcher := fun t => longest (words.filter (·.isPrefixOf t))

def classBehind (front : Text) (inside : Char → Bool) : Matcher := fun t =>
  if front.isPrefixOf t then
    let rest := (t.drop front.length).takeWhile inside
    if rest ≠ [] then some (front ++ rest) else none
  else none

def everyMatch (m : Matcher) (t : Text) : List Text := t.tails.filterMap m

structure Apart (m : Matcher) : Prop where
  front : ∀ {t w}, m t = some w → w ≠ [] ∧ w <+: t
  inside : ∀ {t w}, m t = some w → ∀ k, 0 < k → k < w.length → m (t.drop k) = none

def InLine (m : Matcher) : Prop := ∀ t rest, m (t ++ '\n'::rest) = m t

def Separate (words : List Text) : Prop :=
  [] ∉ words ∧ (∀ w ∈ words, '\n' ∉ w) ∧
  ∀ w ∈ words, ∀ v ∈ words, ∀ k < w.length, v <+: w.drop k ∨ w.drop k <+: v → k = 0 ∧ v = w

instance (words : List Text) : Decidable (Separate words) := by
  unfold Separate
  infer_instance

section
variable {m : Matcher}

theorem emptyUnmatched (apart : Apart m) : m [] = none := by
  cases found : m [] with
  | none => rfl
  | some w =>
    obtain ⟨some',front⟩ := apart.front found
    exact absurd (List.prefix_nil.mp front) some'

theorem scanHeld (apart : Apart m) (t : Text) (held : Nat) (passed : ∀ k < held, m (t.drop k) = none) :
    scan m held t = everyMatch m t := by
  induction t generalizing held with
  | nil => simp [scan,everyMatch,emptyUnmatched apart]
  | cons c t ih =>
    have step : everyMatch m (c::t) = (m (c::t)).toList ++ everyMatch m t := by
      rw [everyMatch,List.tails_cons,List.filterMap_cons]
      cases m (c::t) <;> rfl
    rw [step]
    cases held with
    | succ held =>
      have here : m (c::t) = none := passed 0 (Nat.succ_pos held)
      have rest := ih held (fun k less => passed (k+1) (Nat.succ_lt_succ less))
      rw [here]
      exact rest
    | zero =>
      cases here : m (c::t) with
      | none =>
        have rest := ih 0 (fun k less => absurd less (Nat.not_lt_zero k))
        rw [scan,here]
        exact rest
      | some w =>
        have rest := ih (w.length-1) (fun k less => apart.inside here (k+1) (Nat.succ_pos k) (by omega))
        rw [scan,here]
        exact congrArg (w::·) rest

theorem scanEvery (apart : Apart m) (t : Text) : scan m 0 t = everyMatch m t :=
  scanHeld apart t 0 (fun k less => absurd less (Nat.not_lt_zero k))

theorem everyAppend (apart : Apart m) (line : InLine m) (a b : Text) :
    everyMatch m (a ++ '\n'::b) = everyMatch m a ++ everyMatch m b := by
  induction a with
  | nil =>
    have here : m ('\n'::b) = none := (line [] b).trans (emptyUnmatched apart)
    have nothing : everyMatch m [] = [] := by simp [everyMatch,emptyUnmatched apart]
    rw [nothing,List.nil_append,everyMatch,List.tails_cons,List.filterMap_cons,here]
    rfl
  | cons c a ih =>
    have here : m (c::(a ++ '\n'::b)) = m (c::a) := line (c::a) b
    unfold everyMatch at ih ⊢
    rw [List.cons_append,List.tails_cons,List.tails_cons,List.filterMap_cons,List.filterMap_cons,here,ih]
    cases m (c::a) <;> rfl

theorem grepEvery (apart : Apart m) (line : InLine m) (file : Text) : grepOnly m file = everyMatch m file := by
  have split := linesJoin file
  have shape := linesShape file
  rw [grepOnly,lineList]
  generalize lines file = ls at split shape
  subst split
  induction shape with
  | nil => simp [everyMatch,emptyUnmatched apart]
  | last whole _ => simp [lineTextWhole whole,scanEvery apart]
  | cons own _ ih =>
    obtain ⟨body,whole,rfl⟩ := own
    have text : ∀ rest : Text, body ++ ['\n'] ++ rest = body ++ '\n'::rest := fun rest => by simp
    rw [List.flatten_cons,text,everyAppend apart line,List.map_cons,List.flatMap_cons,lineTextBreak whole,
      scanEvery apart,ih]

end

section
variable {words : List Text} {w t : Text}

theorem longestMember (found : longest words = some w) : w ∈ words := by
  induction words generalizing w with
  | nil => cases found
  | cons v words ih =>
    unfold longest at found
    split at found
    · rename_i u inner
      split at found
      · obtain rfl := Option.some.inj found
        exact List.mem_cons_of_mem v (ih inner)
      · obtain rfl := Option.some.inj found
        exact List.mem_cons_self
    · obtain rfl := Option.some.inj found
      exact List.mem_cons_self

theorem longestSome (some' : words ≠ []) : ∃ w, longest words = some w := by
  cases words with
  | nil => exact absurd rfl some'
  | cons v words =>
    unfold longest
    split
    · split
      · exact ⟨_,rfl⟩
      · exact ⟨_,rfl⟩
    · exact ⟨_,rfl⟩

theorem wordFound (found : wordOf words t = some w) : w ∈ words ∧ w <+: t := by
  have mem := List.mem_filter.mp (longestMember found)
  exact ⟨mem.1,List.isPrefixOf_iff_prefix.mp mem.2⟩

theorem wordIff (separate : Separate words) (own : w ∈ words) : wordOf words t = some w ↔ w <+: t := by
  constructor
  · intro found
    exact (wordFound found).2
  · intro front
    have mem : w ∈ words.filter (·.isPrefixOf t) := List.mem_filter.mpr ⟨own,List.isPrefixOf_iff_prefix.mpr front⟩
    obtain ⟨v,found⟩ := longestSome (List.ne_nil_of_mem mem)
    have other := wordFound found
    have some' : 0 < w.length := by
      rw [List.length_pos_iff]
      intro empty
      exact separate.1 (empty ▸ own)
    have same := separate.2.2 w own v other.1 0 some' (List.prefix_or_prefix_of_prefix other.2 front)
    rw [wordOf,found,same.2]

theorem wordsApart (separate : Separate words) : Apart (wordOf words) where
  front found := by
    obtain ⟨own,front⟩ := wordFound found
    exact ⟨fun empty => separate.1 (empty ▸ own),front⟩
  inside {t w} found k positive short := by
    cases here : wordOf words (t.drop k) with
    | none => rfl
    | some v =>
      obtain ⟨own,front⟩ := wordFound found
      obtain ⟨other,behind⟩ := wordFound here
      have clash := List.prefix_or_prefix_of_prefix behind (front.drop k)
      have zero := (separate.2.2 w own v other k short clash).1
      omega

theorem prefixInLine {w t rest : Text} (line : '\n' ∉ w) : w <+: t ++ '\n'::rest ↔ w <+: t := by
  constructor
  · intro front
    rcases List.prefix_or_prefix_of_prefix front (List.prefix_append t _) with inside | longer
    · exact inside
    · obtain ⟨u,rfl⟩ := longer
      cases u with
      | nil => simp
      | cons c u =>
        obtain ⟨rfl,_⟩ := List.cons_prefix_cons.mp ((List.prefix_append_right_inj t).mp front)
        exact absurd (by simp) line
  · intro front
    exact front.trans (List.prefix_append t _)

theorem wordsInLine (separate : Separate words) : InLine (wordOf words) := by
  intro t rest
  unfold wordOf
  congr 1
  refine List.filter_congr (fun w own => ?_)
  have same := @prefixInLine w t rest (separate.2.1 w own)
  rw [← List.isPrefixOf_iff_prefix,← List.isPrefixOf_iff_prefix] at same
  exact Bool.eq_iff_iff.mpr same

section
variable {front : Text} {inside : Char → Bool} {w t : Text}

theorem classFound (found : classBehind front inside t = some w) :
    front <+: t ∧ w = front ++ (t.drop front.length).takeWhile inside ∧ (t.drop front.length).takeWhile inside ≠ [] := by
  unfold classBehind at found
  split at found
  · rename_i own
    dsimp only at found
    split at found
    · rename_i some'
      exact ⟨List.isPrefixOf_iff_prefix.mp own,(Option.some.inj found).symm,some'⟩
    · cases found
  · cases found

theorem classHeld {u : Text} {j : Nat} (less : j < (u.takeWhile inside).length) :
    ∃ c rest, u.drop j = c::rest ∧ inside c = true := by
  have split := @List.takeWhile_append_dropWhile _ inside u
  have member := List.mem_takeWhile_imp (List.getElem_mem less)
  refine ⟨(u.takeWhile inside)[j],(u.takeWhile inside).drop (j+1) ++ u.dropWhile inside,?_,member⟩
  conv => lhs; rw [← split]
  rw [List.drop_append_of_le_length (Nat.le_of_lt less),List.drop_eq_getElem_cons less,List.cons_append]

theorem classApart (separate : Separate [front]) (foreign : ∀ c ∈ front.head?, inside c = false) :
    Apart (classBehind front inside) where
  front {t w} found := by
    obtain ⟨own,rfl,some'⟩ := classFound found
    obtain ⟨u,rfl⟩ := own
    rw [List.drop_left] at some' ⊢
    exact ⟨by simp [some'],(List.prefix_append_right_inj front).mpr (List.takeWhile_prefix inside)⟩
  inside {t w} found k positive short := by
    obtain ⟨⟨u,rfl⟩,rfl,some'⟩ := classFound found
    rw [List.drop_left] at short
    cases here : classBehind front inside ((front ++ u).drop k) with
    | none => rfl
    | some v =>
      obtain ⟨again,_⟩ := classFound here
      rcases Nat.lt_or_ge k front.length with early | late
      · have own : front.drop k <+: (front ++ u).drop k := (List.prefix_append front u).drop k
        have clash := List.prefix_or_prefix_of_prefix again own
        have zero := (separate.2.2 front (by simp) front (by simp) k early clash).1
        omega
      · have less : k - front.length < (u.takeWhile inside).length := by
          rw [List.length_append] at short
          omega
        rw [List.drop_append,List.drop_eq_nil_of_le late,List.nil_append] at again
        obtain ⟨c,rest,same,own⟩ := classHeld less
        cases front with
        | nil => exact absurd List.mem_cons_self separate.1
        | cons d front =>
          rw [same] at again
          obtain ⟨rfl,_⟩ := List.cons_prefix_cons.mp again
          rw [foreign d rfl] at own
          cases own

theorem classInLine (line : '\n' ∉ front) (outside : inside '\n' = false) : InLine (classBehind front inside) := by
  intro t rest
  have same := @prefixInLine front t rest line
  unfold classBehind
  cases own : front.isPrefixOf t with
  | false =>
    have other : ¬ front.isPrefixOf (t ++ '\n'::rest) = true := by
      intro longer
      rw [List.isPrefixOf_iff_prefix.mpr (same.mp (List.isPrefixOf_iff_prefix.mp longer))] at own
      cases own
    rw [if_neg other]
    rfl
  | true =>
    have longer := List.isPrefixOf_iff_prefix.mpr (same.mpr (List.isPrefixOf_iff_prefix.mp own))
    obtain ⟨u,rfl⟩ := List.isPrefixOf_iff_prefix.mp own
    have taken : (u ++ '\n'::rest).takeWhile inside = u.takeWhile inside := by
      rw [List.takeWhile_append]
      split
      · rename_i whole
        rw [List.takeWhile_cons_of_neg (by simp [outside]),List.append_nil]
        exact ((List.takeWhile_prefix inside).eq_of_length whole).symm
      · rfl
    rw [if_pos longer,if_pos rfl,List.append_assoc,List.drop_left,List.drop_left,taken]

end

def occurrences (w t : Text) : Nat := (t.tails.filter (w.isPrefixOf ·)).length

theorem grepOccurrences (separate : Separate words) (own : w ∈ words) (file : Text) :
    ((grepOnly (wordOf words) file).filter (· = w)).length = occurrences w file := by
  rw [grepEvery (wordsApart separate) (wordsInLine separate),everyMatch,occurrences]
  induction file.tails with
  | nil => rfl
  | cons t ts ih =>
    have same := @wordIff words w t separate own
    rw [← List.isPrefixOf_iff_prefix] at same
    rw [List.filterMap_cons,List.filter_cons]
    cases found : wordOf words t with
    | none =>
      rw [found] at same
      have absent : ¬ w.isPrefixOf t = true := by
        intro front
        cases same.mpr front
      rw [if_neg absent]
      exact ih
    | some v =>
      rw [found,Option.some.injEq] at same
      rw [List.filter_cons]
      split
      · rename_i equal
        rw [if_pos (same.mp (of_decide_eq_true equal)),List.length_cons,List.length_cons,ih]
      · rename_i other
        rw [if_neg (fun front => other (decide_eq_true (same.mpr front))),ih]

end

end KernelTestTools.GrepMatches
