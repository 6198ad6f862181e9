import KernelTestTools.ShellText

/-! A map kept in one shell variable, " key:value key:value ..": adding an entry appends it, and
two expansions cut the value of a key out again. -/
namespace KernelTestTools.ShellMap
open TextFile ShellText

structure Entry where
  key : Text
  value : Text
  deriving DecidableEq, Repr

/- map="$map $key:$value" -/
def entryText (e : Entry) : Text := ' '::(e.key ++ ':'::e.value)

def mapText (es : List Entry) : Text := es.flatMap entryText

def foundLast (p : Text) : Text → Option Text
  | [] => none
  | c::t =>
    match foundLast p t with
    | some rest => some rest
    | none => if p.isPrefixOf (c::t) then some ((c::t).drop p.length) else none

/- ${s##*p} -/
def afterLast (p s : Text) : Text := (foundLast p s).getD s

/- ${s%% *} -/
def beforeBlank (s : Text) : Text := s.takeWhile (· != ' ')

/- value=${map##* $key:} and value=${value%% *} -/
def lookup (key map : Text) : Text := beforeBlank (afterLast (' '::(key ++ [':'])) map)

def latest (key : Text) (es : List Entry) : Option Text := (es.reverse.find? (fun e => e.key = key)).map Entry.value

def KeyText (key : Text) : Prop := ' ' ∉ key ∧ ':' ∉ key

def Entry.Plain (e : Entry) : Prop := KeyText e.key ∧ ' ' ∉ e.value

section
variable {key t rest : Text} {e : Entry} {es : List Entry}

theorem latestCons (key : Text) (e : Entry) (es : List Entry) :
    latest key (e::es) = (latest key es).or (if e.key = key then some e.value else none) := by
  rw [latest,latest,List.reverse_cons,List.find?_append]
  cases es.reverse.find? (fun e => e.key = key) with
  | some found => rfl
  | none =>
    rw [Option.none_or,List.find?_singleton]
    by_cases same : e.key = key
    · simp [same]
    · simp [same]

theorem foundBehind (plain : ' ' ∉ t) : foundLast (' '::(key ++ [':'])) (t ++ rest) = foundLast (' '::(key ++ [':'])) rest := by
  induction t with
  | nil => rfl
  | cons c t ih =>
    simp only [List.mem_cons,not_or] at plain
    have apart : ¬(' '::(key ++ [':'])).isPrefixOf (c::(t ++ rest)) = true := by
      intro front
      exact plain.1 (List.cons_prefix_cons.mp (List.isPrefixOf_iff_prefix.mp front)).1
    rw [List.cons_append,foundLast,ih plain.2,if_neg apart]
    cases foundLast (' '::(key ++ [':'])) rest <;> rfl

theorem keyFront (own : KeyText key) (plain : e.Plain) (rest : Text) :
    ' '::(key ++ [':']) <+: entryText e ++ rest ↔ key = e.key := by
  have shape : entryText e ++ rest = ' '::(e.key ++ ':'::(e.value ++ rest)) := by simp [entryText]
  rw [shape,List.cons_prefix_cons,prefixSeparated own.2 plain.1.2]
  simp

theorem foundEntry (own : KeyText key) (plain : e.Plain) (rest : Text) :
    foundLast (' '::(key ++ [':'])) (entryText e ++ rest) =
      (foundLast (' '::(key ++ [':'])) rest).or (if e.key = key then some (e.value ++ rest) else none) := by
  have free : ' ' ∉ e.key ++ ':'::e.value := by
    simp [plain.1.1,plain.2]
  have behind : foundLast (' '::(key ++ [':'])) (e.key ++ ':'::e.value ++ rest) = foundLast (' '::(key ++ [':'])) rest :=
    foundBehind free
  have here := keyFront own plain rest
  rw [entryText,List.cons_append] at here ⊢
  rw [foundLast,behind]
  cases foundLast (' '::(key ++ [':'])) rest with
  | some found => rfl
  | none =>
    dsimp only
    rw [Option.none_or]
    by_cases same : e.key = key
    · rw [if_pos (List.isPrefixOf_iff_prefix.mpr (here.mpr same.symm)),if_pos same]
      simp [← same]
    · rw [if_neg (fun front => same (here.mp (List.isPrefixOf_iff_prefix.mp front)).symm),if_neg same]

theorem mapFront (es : List Entry) : beforeBlank (mapText es) = [] := by
  cases es with
  | nil => rfl
  | cons e es => simp [mapText,entryText,beforeBlank]

theorem valueCut {v : Text} (plain : ' ' ∉ v) (es : List Entry) : beforeBlank (v ++ mapText es) = v := by
  have whole : ∀ c ∈ v, (c != ' ') = true := by
    intro c mem
    have other : c ≠ ' ' := fun same => plain (same ▸ mem)
    simpa using other
  have rest := mapFront es
  unfold beforeBlank at rest ⊢
  rw [List.takeWhile_append_of_pos whole,rest,List.append_nil]

theorem foundMap (own : KeyText key) (plain : ∀ e ∈ es, e.Plain) :
    foundLast (' '::(key ++ [':'])) (mapText es) = none ∧ latest key es = none ∨
    ∃ v later, foundLast (' '::(key ++ [':'])) (mapText es) = some (v ++ mapText later) ∧ latest key es = some v ∧ ' ' ∉ v := by
  induction es with
  | nil => exact .inl ⟨rfl,rfl⟩
  | cons e es ih =>
    have here := foundEntry own (plain e List.mem_cons_self) (mapText es)
    have step : mapText (e::es) = entryText e ++ mapText es := rfl
    rw [step,here,latestCons]
    rcases ih (fun k mem => plain k (List.mem_cons_of_mem e mem)) with ⟨absent,none⟩ | ⟨v,later,found,last,free⟩
    · rw [absent,none,Option.none_or,Option.none_or]
      by_cases same : e.key = key
      · rw [if_pos same,if_pos same]
        exact .inr ⟨e.value,es,rfl,rfl,(plain e List.mem_cons_self).2⟩
      · rw [if_neg same,if_neg same]
        exact .inl ⟨rfl,rfl⟩
    · rw [found,last]
      exact .inr ⟨v,later,rfl,rfl,free⟩

theorem lookupLatest (own : KeyText key) (plain : ∀ e ∈ es, e.Plain) :
    lookup key (mapText es) = (latest key es).getD [] := by
  rw [lookup,afterLast]
  rcases foundMap own plain with ⟨absent,none⟩ | ⟨v,later,found,last,free⟩
  · rw [absent,none]
    exact mapFront es
  · rw [found,last]
    exact valueCut free later

end

end KernelTestTools.ShellMap
