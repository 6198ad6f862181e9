import Mathlib.Data.List.Basic
import Mathlib.Data.List.Infix
import Mathlib.Data.List.TakeWhile

/-! Backtracking regular expressions. A matcher returns every way to match at the front of
a text, in the order in which a backtracking engine tries them; the engine's match is the
first one. Searching takes the leftmost position, scanning repeats it without overlap. -/
namespace KernelTestTools.Regex

inductive Re (α : Type) where
  | lit (t : List α)
  | rep (p : α → Bool) (least : Nat) (lazy : Bool)
  | exact (p : α → Bool) (count : Nat)
  | seq (a b : Re α)
  | group (n : Nat) (r : Re α)
  | atEnd (final : List α)

structure Match (α : Type) where
  groups : List (Nat × List α)
  taken : List α
  rest : List α
  deriving DecidableEq, Repr

/- Every prefix inside a class with what follows it, the shortest one first. -/
def prefixes {α : Type} (p : α → Bool) : List α → List (List α × List α)
  | [] => [([],[])]
  | c::s => ([],c::s)::(if p c then (prefixes p s).map (fun x => (c::x.1,x.2)) else [])

theorem prefixesSplit {α : Type} {p : α → Bool} {s x y : List α} (mem : (x,y) ∈ prefixes p s) :
    s = x ++ y ∧ ∀ c ∈ x, p c := by
  induction s generalizing x y with
  | nil =>
    simp only [prefixes,List.mem_singleton,Prod.mk.injEq] at mem
    simp [mem]
  | cons c s ih =>
    simp only [prefixes,List.mem_cons,Prod.mk.injEq] at mem
    rcases mem with ⟨rfl,rfl⟩ | later
    · simp
    · split at later
      · rename_i inside
        obtain ⟨q,hq,same⟩ := List.mem_map.mp later
        cases same
        obtain ⟨split,all⟩ := ih hq
        exact ⟨by rw [split]; rfl,by simpa [inside] using all⟩
      · simp at later

theorem prefixesLast {α : Type} (p : α → Bool) (s : List α) :
    ∃ init, prefixes p s = init ++ [(s.takeWhile p,s.dropWhile p)] ∧
      ∀ x ∈ init, ∃ c t, x.2 = c::t ∧ p c := by
  induction s with
  | nil => exact ⟨[],by simp [prefixes]⟩
  | cons c s ih =>
    obtain ⟨init,split,more⟩ := ih
    by_cases inside : p c
    · refine ⟨([],c::s)::init.map (fun x => (c::x.1,x.2)),?_,?_⟩
      · simp [prefixes,inside,split]
      · intro x mem
        rcases List.mem_cons.mp mem with rfl | later
        · exact ⟨c,s,rfl,inside⟩
        · obtain ⟨y,hy,rfl⟩ := List.mem_map.mp later
          exact more y hy
    · exact ⟨[],by simp [prefixes,inside]⟩

/- No occurrence of t starts inside a when s follows. -/
def NoStart {α : Type} (t a s : List α) : Prop := ∀ x y, a = x ++ y → y ≠ [] → ¬ t <+: y ++ s

theorem noStartNil {α : Type} (t s : List α) : NoStart t [] s :=
  fun _ _ split some => absurd (List.append_eq_nil_iff.mp split.symm).2 some

theorem noStartCons {α : Type} {t a s : List α} {c : α} (here : ¬ t <+: c::(a ++ s)) (rest : NoStart t a s) :
    NoStart t (c::a) s := by
  intro x y split some
  cases x with
  | nil =>
    simp only [List.nil_append] at split
    rw [← split]
    exact here
  | cons d x => exact rest x y (List.cons.inj split).2 some

theorem noStartAppend {α : Type} {t a b s : List α} (left : NoStart t a (b ++ s)) (right : NoStart t b s) :
    NoStart t (a ++ b) s := by
  induction a with
  | nil => exact right
  | cons c a ih =>
    refine noStartCons ?_ (ih (fun x y split some => left (c::x) y (by rw [split]; rfl) some))
    simpa using left [] (c::a) rfl (by simp)

theorem absentOfNoStart {α : Type} {t a s : List α} (some : t ≠ []) (none : NoStart t a s) : ¬ t <:+: a := by
  intro inside
  obtain ⟨x,z,same⟩ := inside
  rw [List.append_assoc] at same
  exact none x (t ++ z) same.symm (by simp [some]) ⟨z ++ s,by simp⟩

/- No nonempty suffix of a is comparable with t, so no occurrence of t reaches into a. -/
theorem noStartApart {α : Type} {t a : List α} (apart : ∀ y ∈ a.tails, y ≠ [] → ¬ y <+: t ∧ ¬ t <+: y)
    (s : List α) : NoStart t a s := by
  intro x y split some front
  have suffix : y ∈ a.tails := (List.mem_tails y a).mpr ⟨x,split.symm⟩
  obtain ⟨short,long⟩ := apart y suffix some
  rcases List.prefix_or_prefix_of_prefix front (List.prefix_append y s) with h | h
  · exact long h
  · exact short h

theorem noStartLine {α : Type} {t l : List α} {c : α} (outside : c ∉ t) (absent : ¬ t <:+: l) (s : List α) :
    NoStart t (l ++ [c]) s := by
  intro x y split some front
  obtain ⟨z,d,rfl⟩ := (List.eq_nil_or_concat y).resolve_left some
  rw [List.concat_eq_append,← List.append_assoc] at split
  have line : l = x ++ z := List.append_inj_left' split rfl
  have last : c = d := (List.cons.inj (List.append_inj_right' split rfl)).1
  obtain ⟨u,same⟩ := front
  rw [← last,List.concat_eq_append,List.append_assoc,List.append_eq_append_iff] at same
  rcases same with ⟨v,rfl,_⟩ | ⟨v,rfl,tail⟩
  · exact absent ⟨x,v,by rw [line,List.append_assoc]⟩
  · cases v with
    | nil => exact absent ⟨x,[],by rw [line]; simp⟩
    | cons e v =>
      rw [List.singleton_append,List.cons_append] at tail
      have inside : c = e := (List.cons.inj tail).1
      exact outside (by simp [inside])

theorem noStartLines {α : Type} {t : List α} {c : α} {ls : List (List α)} (outside : c ∉ t)
    (absent : ∀ l ∈ ls, ¬ t <:+: l) (s : List α) : NoStart t (ls.flatMap (· ++ [c])) s := by
  induction ls with
  | nil => exact noStartNil t s
  | cons l ls ih =>
    rw [List.flatMap_cons]
    exact noStartAppend (noStartLine outside (absent l List.mem_cons_self) _)
      (ih (fun k mem => absent k (List.mem_cons_of_mem _ mem)))

theorem noStartExtend {α : Type} {t a s : List α} (none : NoStart t a s) (u : List α) : NoStart (t ++ u) a s := by
  intro x y split some front
  exact none x y split some ((List.prefix_append t u).trans front)

/- No proper suffix of a text is a prefix of it, so its occurrences do not overlap. -/
def Unbordered {α : Type} (t : List α) : Prop := ∀ y ∈ t.tails, y ≠ [] → y ≠ t → ¬ y <+: t

instance {α : Type} [DecidableEq α] (t : List α) : Decidable (Unbordered t) :=
  inferInstanceAs (Decidable (∀ y ∈ t.tails, y ≠ [] → y ≠ t → ¬ y <+: t))

theorem noStartUnbordered {α : Type} {t a : List α} (free : Unbordered t) (absent : ¬ t <:+: a) (s : List α) :
    NoStart t a (t ++ s) := by
  intro x y split some front
  by_cases long : t.length ≤ y.length
  · obtain ⟨z,same⟩ := List.prefix_of_prefix_length_le front (List.prefix_append y (t ++ s)) long
    exact absent ⟨x,z,by rw [List.append_assoc,same,split]⟩
  · obtain ⟨z,rfl⟩ := List.prefix_of_prefix_length_le (List.prefix_append y (t ++ s)) front (by omega)
    have rest : z <+: (y ++ z) ++ s := by
      obtain ⟨w,same⟩ := front
      rw [List.append_assoc] at same
      exact ⟨w,List.append_cancel_left same⟩
    have inside : z <+: y ++ z :=
      List.prefix_of_prefix_length_le rest (List.prefix_append _ s) (by simp)
    have nonempty : z ≠ [] := by
      intro empty
      simp [empty] at long
    have proper : z ≠ y ++ z := by
      intro same
      have lengths := congrArg List.length same
      rw [List.length_append] at lengths
      exact some (List.eq_nil_of_length_eq_zero (by omega))
    exact free z ((List.mem_tails z _).mpr ⟨y,rfl⟩) nonempty proper inside

theorem noStartTail {α : Type} {c : α} {t : List α} (free : Unbordered (c::t)) (s : List α) :
    NoStart (c::t) t s := by
  rintro x y rfl some front
  have short : y.length < (c::(x ++ y)).length := by
    rw [List.length_cons,List.length_append]
    omega
  have inside : y <+: c::(x ++ y) :=
    List.prefix_of_prefix_length_le (List.prefix_append y s) front (Nat.le_of_lt short)
  have suffix : y ∈ (c::(x ++ y)).tails := (List.mem_tails y _).mpr ⟨c::x,by simp⟩
  refine free y suffix some (fun same => ?_) inside
  rw [← same] at short
  omega

theorem absentAppend {α : Type} {t a v : List α} (none : NoStart t a v) (absent : ¬ t <:+: v) :
    ¬ t <:+: a ++ v := by
  intro inside
  obtain ⟨x,z,same⟩ := inside
  rw [List.append_assoc,List.append_eq_append_iff] at same
  rcases same with ⟨y,rfl,tail⟩ | ⟨y,rfl,tail⟩
  · cases y with
    | nil => exact absent ⟨[],z,by simpa using tail⟩
    | cons c y => exact none x (c::y) rfl (by simp) ⟨z,tail⟩
  · exact absent ⟨y,z,by rw [tail,List.append_assoc]⟩

theorem noStartBefore {u a h : List α} (absent : ¬ u <:+: a)
    (apart : ∀ y ∈ u.tails, y ≠ [] → ¬ y <+: h ∧ ¬ h <+: y) (s : List α) : NoStart u a (h ++ s) := by
  intro x y split some front
  obtain ⟨z,same⟩ := front
  rcases List.append_eq_append_iff.mp same with ⟨v,inside,_⟩ | ⟨v,across,rest⟩
  · exact absent ⟨x,v,by rw [split,inside,List.append_assoc]⟩
  · cases v with
    | nil =>
      rw [List.append_nil] at across
      exact absent ⟨x,[],by rw [split,across,List.append_nil]⟩
    | cons c v =>
      have tail : c::v ∈ u.tails := (List.mem_tails _ u).mpr ⟨y,across.symm⟩
      have off := apart _ tail (by simp)
      rcases List.append_eq_append_iff.mp rest with ⟨w,longer,_⟩ | ⟨w,longer,_⟩
      · exact off.2 ⟨w,longer.symm⟩
      · exact off.1 ⟨w,longer.symm⟩

theorem sameFront {α : Type} {t x y a b : List α} (free : Unbordered t) (left : ¬ t <:+: x)
    (right : ¬ t <:+: y) (same : x ++ (t ++ a) = y ++ (t ++ b)) : x = y ∧ a = b := by
  have shift : ∀ {x y a b : List α}, ¬ t <:+: y → x ++ (t ++ a) = y ++ (t ++ b) →
      ∀ v, y = x ++ v → v = [] := by
    intro x y a b absent same v longer
    by_contra some
    rw [longer,List.append_assoc] at same
    have front : t <+: v ++ (t ++ b) := ⟨a,List.append_cancel_left same⟩
    exact noStartUnbordered free absent b x v longer some front
  rcases List.append_eq_append_iff.mp same with ⟨v,longer,_⟩ | ⟨v,longer,_⟩
  · have empty := shift right same v longer
    rw [empty,List.append_nil] at longer
    rw [longer] at same
    exact ⟨longer.symm,List.append_cancel_left (List.append_cancel_left same)⟩
  · have empty := shift left same.symm v longer
    rw [empty,List.append_nil] at longer
    rw [longer] at same
    exact ⟨longer,List.append_cancel_left (List.append_cancel_left same)⟩

theorem firstOccurrence {α : Type} [DecidableEq α] {t l : List α} (inside : t <:+: l) :
    ∃ x y, l = x ++ (t ++ y) ∧ ∀ s, NoStart t x (t ++ (y ++ s)) := by
  induction l with
  | nil =>
    have empty := List.eq_nil_of_infix_nil inside
    exact ⟨[],[],by simp [empty],fun s => noStartNil t _⟩
  | cons c l ih =>
    by_cases here : t <+: c::l
    · obtain ⟨y,same⟩ := here
      exact ⟨[],y,same.symm,fun s => noStartNil t _⟩
    · have later : t <:+: l := (List.infix_cons_iff.mp inside).resolve_left here
      obtain ⟨x,y,rfl,none⟩ := ih later
      refine ⟨c::x,y,rfl,fun s => noStartCons (fun front => here ?_) (none s)⟩
      have whole : c::(x ++ (t ++ (y ++ s))) = (c::(x ++ (t ++ y))) ++ s := by simp
      rw [whole] at front
      refine List.prefix_of_prefix_length_le front (List.prefix_append _ s) ?_
      simp only [List.length_cons,List.length_append]
      omega

section
variable {α : Type} [DecidableEq α]

def tries : Re α → List α → List (Match α)
  | .lit t,s => if t <+: s then [⟨[],t,s.drop t.length⟩] else []
  | .rep p least lazy,s =>
    let all := (prefixes p s).filter (fun x => least ≤ x.1.length)
    (if lazy then all else all.reverse).map (fun x => ⟨[],x.1,x.2⟩)
  | .exact p count,s =>
    if (s.take count).length = count ∧ (s.take count).all p then
      [⟨[],s.take count,s.drop count⟩] else []
  | .seq a b,s => (tries a s).flatMap (fun m =>
      (tries b m.rest).map (fun k => ⟨m.groups ++ k.groups,m.taken ++ k.taken,k.rest⟩))
  | .group n r,s => (tries r s).map (fun m => ⟨m.groups ++ [(n,m.taken)],m.taken,m.rest⟩)
  | .atEnd final,s => if s = [] ∨ s = final then [⟨[],[],s⟩] else []

def matchHere (r : Re α) (s : List α) : Option (Match α) := (tries r s).head?

def search (r : Re α) : List α → Option (List α × Match α)
  | [] => (matchHere r []).map (fun m => ([],m))
  | c::s => match matchHere r (c::s) with
    | some m => some ([],m)
    | none => (search r s).map (fun x => (c::x.1,x.2))

def Match.group (m : Match α) (n : Nat) : List α :=
  if n = 0 then m.taken
  else match m.groups.find? (fun g => g.1 == n) with
    | some g => g.2
    | none => []

theorem triesSplit {r : Re α} {s : List α} {m : Match α} (mem : m ∈ tries r s) :
    s = m.taken ++ m.rest := by
  induction r generalizing s m with
  | lit t =>
    simp only [tries] at mem
    split at mem
    · rename_i front
      rw [List.mem_singleton.mp mem]
      exact (List.prefix_iff_eq_append.mp front).symm
    · simp at mem
  | rep p least lazy =>
    simp only [tries,List.mem_map] at mem
    obtain ⟨⟨x,y⟩,here,rfl⟩ := mem
    have member : (x,y) ∈ prefixes p s := by
      cases lazy <;> simp at here <;> exact here.1
    exact (prefixesSplit member).1
  | exact p count =>
    simp only [tries] at mem
    split at mem
    · rw [List.mem_singleton.mp mem]
      exact (List.take_append_drop count s).symm
    · simp at mem
  | seq a b iha ihb =>
    simp only [tries,List.mem_flatMap,List.mem_map] at mem
    obtain ⟨x,hx,y,hy,rfl⟩ := mem
    rw [iha hx,ihb hy,List.append_assoc]
  | group n r ih =>
    simp only [tries,List.mem_map] at mem
    obtain ⟨x,hx,rfl⟩ := mem
    simpa using ih hx
  | atEnd final =>
    simp only [tries] at mem
    split at mem
    · rw [List.mem_singleton.mp mem]; rfl
    · simp at mem

theorem searchMatch {r : Re α} {s before : List α} {m : Match α}
    (found : search r s = some (before,m)) : ∃ t, s = before ++ t ∧ matchHere r t = some m := by
  induction s generalizing before with
  | nil =>
    simp only [search,Option.map_eq_some_iff,Prod.mk.injEq] at found
    obtain ⟨k,here,rfl,rfl⟩ := found
    exact ⟨[],rfl,here⟩
  | cons c s ih =>
    simp only [search] at found
    split at found
    · rename_i k here
      cases found
      exact ⟨c::s,rfl,here⟩
    · obtain ⟨⟨b,k⟩,later,same⟩ := Option.map_eq_some_iff.mp found
      cases same
      obtain ⟨t,rfl,here⟩ := ih later
      exact ⟨t,rfl,here⟩

theorem searchSplit {r : Re α} {s before : List α} {m : Match α}
    (found : search r s = some (before,m)) : s = before ++ m.taken ++ m.rest := by
  obtain ⟨t,rfl,here⟩ := searchMatch found
  have split := triesSplit (List.mem_of_head? here)
  rw [List.append_assoc,← split]

theorem searchTries {r : Re α} {s before : List α} {m : Match α}
    (found : search r s = some (before,m)) : ∃ t, m ∈ tries r t := by
  obtain ⟨t,_,here⟩ := searchMatch found
  exact ⟨t,List.mem_of_head? here⟩

theorem searchSkip {r : Re α} {a s : List α}
    (none : ∀ x y, a = x ++ y → y ≠ [] → tries r (y ++ s) = []) :
    search r (a ++ s) = (search r s).map (fun x => (a ++ x.1,x.2)) := by
  induction a with
  | nil => simp
  | cons c a ih =>
    have here := none [] (c::a) rfl (by simp)
    have rest := ih (fun x y split some => none (c::x) y (by rw [split]; rfl) some)
    simp only [List.cons_append] at here
    simp only [List.cons_append,search,matchHere,here,List.head?_nil,rest]
    cases search r s <;> rfl

theorem searchNone {r : Re α} {s : List α}
    (none : ∀ x y, s = x ++ y → tries r y = []) : search r s = Option.none := by
  have last := none s [] (by simp)
  have skip := @searchSkip _ _ r s [] (fun x y split _ => by simpa using none x y split)
  rw [List.append_nil] at skip
  rw [skip]
  simp [search,matchHere,last]

theorem searchHere {r : Re α} {s : List α} {m : Match α} (here : matchHere r s = some m) :
    search r s = some ([],m) := by
  cases s <;> simp [search,here]

/- A part that takes any prefix inside a class, shortest first or longest first. -/
def Lazily (p : α → Bool) (groups : List α → List (Nat × List α)) (r : Re α) : Prop :=
  ∀ s, tries r s = (prefixes p s).map (fun x => ⟨groups x.1,x.1,x.2⟩)

def Greedily (p : α → Bool) (least : Nat) (groups : List α → List (Nat × List α)) (r : Re α) : Prop :=
  ∀ s, tries r s = ((prefixes p s).filter (fun x => least ≤ x.1.length)).reverse.map
    (fun x => ⟨groups x.1,x.1,x.2⟩)

theorem lazyRep (p : α → Bool) : Lazily p (fun _ => []) (.rep p 0 true) := by
  intro s
  simp [tries]

theorem lazyGroup (p : α → Bool) (n : Nat) : Lazily p (fun x => [(n,x)]) (.group n (.rep p 0 true)) := by
  intro s
  simp [tries]

theorem greedyGroup (p : α → Bool) (least n : Nat) :
    Greedily p least (fun x => [(n,x)]) (.group n (.rep p least false)) := by
  intro s
  simp [tries]

def Match.before (groups : List (Nat × List α)) (taken : List α) (m : Match α) : Match α :=
  ⟨groups ++ m.groups,taken ++ m.taken,m.rest⟩

theorem matchSeq {a b : Re α} {s : List α} {m : Match α}
    (found : matchHere (.seq a b) s = some m) :
    ∃ k j, k ∈ tries a s ∧ matchHere b k.rest = some j ∧ m = j.before k.groups k.taken := by
  rw [matchHere,tries] at found
  generalize tries a s = firsts at found
  induction firsts with
  | nil => cases found
  | cons k firsts ih =>
    rw [List.flatMap_cons] at found
    cases here : tries b k.rest with
    | nil =>
      rw [here] at found
      obtain ⟨k',j,mem,rest⟩ := ih (by simpa using found)
      exact ⟨k',j,List.mem_cons_of_mem _ mem,rest⟩
    | cons j later =>
      rw [here] at found
      refine ⟨k,j,List.mem_cons_self,by rw [matchHere,here]; rfl,?_⟩
      simpa [Match.before] using found.symm

/- A lazy part stops at the first place where the rest of the pattern matches. -/
theorem lazyThen {p : α → Bool} {groups a b} (shape : Lazily p groups a) {x y : List α}
    (inside : ∀ c ∈ x, p c) (none : ∀ u v, x = u ++ v → v ≠ [] → tries b (v ++ y) = [])
    {m : Match α} (here : matchHere b y = some m) :
    matchHere (.seq a b) (x ++ y) = some (m.before (groups x) x) := by
  have walk : ((prefixes p (x ++ y)).flatMap (fun q => (tries b q.2).map
      (fun k => (q.1,k)))).head? = some (x,m) := by
    induction x with
    | nil =>
      have first : ∃ tail, tries b y = m::tail := by
        cases h : tries b y with
        | nil => simp [matchHere,h] at here
        | cons k tail => simp [matchHere,h] at here; exact ⟨tail,by rw [here]⟩
      obtain ⟨tail,split⟩ := first
      cases y <;> simp [prefixes,split]
    | cons c x ih =>
      have empty := none [] (c::x) rfl (by simp)
      have later := ih (fun d mem => inside d (List.mem_cons_of_mem _ mem))
        (fun u v split nonempty => none (c::u) v (by rw [split]; rfl) nonempty)
      simp only [List.cons_append] at empty ⊢
      simp only [prefixes,inside c List.mem_cons_self,if_true,List.flatMap_cons,empty,List.map_nil,
        List.nil_append,List.flatMap_map]
      have shift : (fun q : List α × List α => (tries b q.2).map (fun k => (c::q.1,k))) =
          fun q => ((tries b q.2).map (fun k => (q.1,k))).map (fun z => (c::z.1,z.2)) := by
        funext q
        simp
      rw [shift,← List.map_flatMap,List.head?_map,later]
      rfl
  have combined : tries (.seq a b) (x ++ y) = ((prefixes p (x ++ y)).flatMap (fun q =>
      (tries b q.2).map (fun k => (q.1,k)))).map (fun z => z.2.before (groups z.1) z.1) := by
    rw [tries,shape (x ++ y)]
    simp [List.flatMap_map,List.map_flatMap,Match.before,Function.comp_def]
  rw [matchHere,combined,List.head?_map,walk]
  rfl

/- A greedy part takes the whole run when the rest of the pattern cannot start inside it. -/
theorem greedyThen {p : α → Bool} {least : Nat} {groups a b} (shape : Greedily p least groups a)
    (blocked : ∀ c t, p c → tries b (c::t) = []) (s : List α) :
    tries (.seq a b) s = if least ≤ (s.takeWhile p).length then
      (tries b (s.dropWhile p)).map (Match.before (groups (s.takeWhile p)) (s.takeWhile p)) else [] := by
  obtain ⟨init,split,more⟩ := prefixesLast p s
  have dead : ∀ q ∈ init, tries b q.2 = [] := by
    intro q mem
    obtain ⟨c,t,same,inside⟩ := more q mem
    rw [same]
    exact blocked c t inside
  have gone : (init.filter (fun x => least ≤ x.1.length)).reverse.flatMap
      (fun q => (tries b q.2).map (Match.before (groups q.1) q.1)) = [] := by
    rw [List.flatMap_eq_nil_iff]
    intro q mem
    rw [dead q (List.mem_of_mem_filter (List.mem_reverse.mp mem))]
    rfl
  have combined : tries (.seq a b) s = ((prefixes p s).filter
      (fun x => least ≤ x.1.length)).reverse.flatMap
        (fun q => (tries b q.2).map (Match.before (groups q.1) q.1)) := by
    rw [tries,shape s,List.flatMap_map]
    rfl
  rw [combined,split,List.filter_append,List.reverse_append,List.flatMap_append,gone]
  by_cases long : least ≤ (s.takeWhile p).length <;> simp [long]

theorem greedyLast {p : α → Bool} {groups a} (shape : Greedily p 0 groups a) (s : List α) :
    matchHere a s = some ⟨groups (s.takeWhile p),s.takeWhile p,s.dropWhile p⟩ := by
  obtain ⟨init,split,_⟩ := prefixesLast p s
  rw [matchHere,shape,split]
  simp

theorem exactThen {p : α → Bool} {b : Re α} {c : α} (one : p c = true) (s : List α) :
    tries (.seq (.exact p 1) b) (c::s) = (tries b s).map (Match.before [] [c]) := by
  have here : tries (.exact p 1) (c::s) = [⟨[],[c],s⟩] := by simp [tries,one]
  rw [tries,here]
  simp [Match.before]

def Literally (t : List α) (groups : List (Nat × List α)) (r : Re α) : Prop :=
  ∀ s, tries r s = if t <+: s then [⟨groups,t,s.drop t.length⟩] else []

theorem literalRe (t : List α) : Literally t [] (.lit t) := fun _ => rfl

theorem literalGroup (t : List α) (n : Nat) : Literally t [(n,t)] (.group n (.lit t)) := by
  intro s
  simp only [tries]
  split <;> rfl

theorem literalOnly {t groups} {a : Re α} (shape : Literally t groups a) {s : List α} {m : Match α}
    (mem : m ∈ tries a s) : m.groups = groups ∧ m.taken = t := by
  rw [shape s] at mem
  split at mem
  · rw [List.mem_singleton.mp mem]
    exact ⟨rfl,rfl⟩
  · cases mem

theorem literalThen {t groups} {a b : Re α} (shape : Literally t groups a) (s : List α) :
    tries (.seq a b) (t ++ s) = (tries b s).map (Match.before groups t) := by
  rw [tries,shape (t ++ s),if_pos (List.prefix_append t s)]
  simp [Match.before]

theorem literalBlocked {t groups} {a b : Re α} (shape : Literally t groups a) {s : List α}
    (other : ¬ t <+: s) : tries (.seq a b) s = [] := by
  rw [tries,shape s,if_neg other]
  rfl

theorem searchLiteral {t groups} {a b : Re α} (shape : Literally t groups a) {x s : List α}
    (first : NoStart t x (t ++ s)) {m : Match α} (here : matchHere b s = some m) :
    search (.seq a b) (x ++ (t ++ s)) = some (x,m.before groups t) := by
  rw [searchSkip (fun u v split some => literalBlocked shape (first u v split some))]
  have found : matchHere (.seq a b) (t ++ s) = some (m.before groups t) := by
    rw [matchHere,literalThen shape,List.head?_map]
    simp only [matchHere] at here
    rw [here]
    rfl
  rw [searchHere found]
  simp

theorem searchLiteralNone {t groups} {a b : Re α} (shape : Literally t groups a) {s : List α}
    (absent : ¬ t <:+: s) : search (.seq a b) s = none := by
  refine searchNone (fun x y split => literalBlocked shape (fun front => absent ?_))
  obtain ⟨z,same⟩ := front
  exact ⟨x,z,by rw [split,← same,List.append_assoc]⟩

theorem searchLast {u : List α} {groups} {a b c : Re α} (shape : Literally u groups c) {s : List α}
    (absent : ¬ u <:+: s) : search (.seq a (.seq b c)) s = none := by
  cases found : search (.seq a (.seq b c)) s with
  | none => rfl
  | some k =>
    obtain ⟨before,m⟩ := k
    obtain ⟨t,rfl,here⟩ := searchMatch found
    obtain ⟨k,j,first,next,_⟩ := matchSeq here
    obtain ⟨l,i,second,last,_⟩ := matchSeq next
    have front : u <+: l.rest := by
      rw [matchHere,shape] at last
      by_contra other
      rw [if_neg other] at last
      cases last
    refine absurd (front.isInfix.trans ?_) absent
    rw [triesSplit first,triesSplit second]
    exact ((List.suffix_append _ _).trans ((List.suffix_append _ _).trans (List.suffix_append _ _))).isInfix

theorem searchUnclosed {t u groups groups' p} {a b : Re α} (opening : Literally t groups a)
    (some : t ≠ []) (body : Lazily p groups' b) {x y : List α} (unclosed : ¬ u <:+: y)
    (first : NoStart t x (t ++ y)) (once : ¬ t <:+: y) (free : Unbordered t) :
    search (.seq a (.seq b (.lit u))) (x ++ (t ++ y)) = none := by
  have dead : tries (.seq b (.lit u)) y = [] := by
    rw [tries,body,List.flatMap_eq_nil_iff]
    intro m mem
    obtain ⟨⟨taken,rest⟩,inside,rfl⟩ := List.mem_map.mp mem
    obtain ⟨split,_⟩ := prefixesSplit inside
    have other : ¬ u <+: rest := by
      intro starts
      obtain ⟨z,same⟩ := starts
      exact unclosed ⟨taken,z,by rw [split,← same,List.append_assoc]⟩
    simp [tries,other]
  rw [searchSkip (fun v w split nonempty => literalBlocked opening (first v w split nonempty))]
  cases t with
  | nil => contradiction
  | cons c t =>
    have here : matchHere (.seq a (.seq b (.lit u))) (c::t ++ y) = none := by
      rw [matchHere,literalThen opening,dead]
      rfl
    have later : ¬ (c::t) <:+: t ++ y := absentAppend (noStartTail free y) once
    rw [List.cons_append] at here ⊢
    rw [search,here,searchLiteralNone opening later]
    rfl

theorem searchClass {p : α → Bool} {least : Nat} {left right s before : List α} {m : Match α}
    (found : search (.seq (.lit left) (.seq (.group 1 (.rep p least false)) (.lit right))) s =
      some (before,m)) : ∀ c ∈ m.group 1, p c := by
  obtain ⟨t,mem⟩ := searchTries found
  rw [tries,List.mem_flatMap] at mem
  obtain ⟨front,hf,mem⟩ := mem
  obtain ⟨inner,hi,rfl⟩ := List.mem_map.mp mem
  rw [tries,List.mem_flatMap] at hi
  obtain ⟨run,hr,hi⟩ := hi
  obtain ⟨last,hl,rfl⟩ := List.mem_map.mp hi
  rw [greedyGroup p least 1 front.rest] at hr
  obtain ⟨q,hq,rfl⟩ := List.mem_map.mp hr
  have noGroups := (literalOnly (literalRe left) hf).1
  have inside := List.mem_of_mem_filter (List.mem_reverse.mp hq)
  have same : Match.group ⟨front.groups ++ ([(1,q.1)] ++ last.groups),
      front.taken ++ (q.1 ++ last.taken),last.rest⟩ 1 = q.1 := by
    simp [Match.group,noGroups]
  rw [same]
  exact (prefixesSplit inside).2

/- An expression that never matches the empty text, so a scan always moves on. -/
structure Pattern (α : Type) [DecidableEq α] where
  re : Re α
  consumes : ∀ s m, m ∈ tries re s → m.taken ≠ []

theorem literalConsumes {t groups} {a b : Re α} (shape : Literally t groups a) (some : t ≠ []) :
    ∀ s m, m ∈ tries (.seq a b) s → m.taken ≠ [] := by
  intro s m mem
  rw [tries,List.mem_flatMap] at mem
  obtain ⟨front,first,mem⟩ := mem
  obtain ⟨k,_,rfl⟩ := List.mem_map.mp mem
  simp [(literalOnly shape first).2,some]

theorem textConsumes {t : List α} (some : t ≠ []) :
    ∀ s m, m ∈ tries (.lit t) s → m.taken ≠ [] := by
  intro s m mem
  rw [(literalOnly (literalRe t) mem).2]
  exact some

theorem exactConsumes {p : α → Bool} {count : Nat} (some : 0 < count) :
    ∀ s m, m ∈ tries (.exact p count) s → m.taken ≠ [] := by
  intro s m mem
  rw [tries] at mem
  split at mem
  · rename_i full
    rw [List.mem_singleton.mp mem]
    exact List.ne_nil_of_length_pos (by rw [full.1]; exact some)
  · simp at mem

theorem rightConsumes {a b : Re α} (right : ∀ s m, m ∈ tries b s → m.taken ≠ []) :
    ∀ s m, m ∈ tries (.seq a b) s → m.taken ≠ [] := by
  intro s m mem
  obtain ⟨k,_,mem⟩ := List.mem_flatMap.mp mem
  obtain ⟨n,hn,rfl⟩ := List.mem_map.mp mem
  have some := right _ n hn
  simp [some]

def scanFrom (r : Pattern α) : Nat → List α → List (List α × Match α) × List α
  | 0,s => ([],s)
  | n+1,s => match search r.re s with
    | none => ([],s)
    | some (before,m) => ((before,m)::(scanFrom r n m.rest).1,(scanFrom r n m.rest).2)

def scan (r : Pattern α) (s : List α) : List (List α × Match α) × List α :=
  scanFrom r (s.length+1) s

theorem searchConsumes {r : Pattern α} {s before : List α} {m : Match α}
    (found : search r.re s = some (before,m)) : m.rest.length < s.length := by
  have split := searchSplit found
  obtain ⟨t,mem⟩ := searchTries found
  have positive := List.length_pos_iff.mpr (r.consumes t m mem)
  rw [split]
  simp only [List.length_append]
  omega

theorem scanFromEnough {r : Pattern α} {n k : Nat} {s : List α} (left : s.length < n)
    (right : s.length < k) : scanFrom r n s = scanFrom r k s := by
  induction n generalizing k s with
  | zero => omega
  | succ n ih =>
    cases k with
    | zero => omega
    | succ k =>
      simp only [scanFrom]
      split
      · rfl
      · rename_i before m found
        have shorter := searchConsumes found
        rw [ih (k := k) (by omega) (by omega)]

theorem scanNone {r : Pattern α} {s : List α} (found : search r.re s = none) :
    scan r s = ([],s) := by
  simp [scan,scanFrom,found]

theorem scanSome {r : Pattern α} {s before : List α} {m : Match α}
    (found : search r.re s = some (before,m)) :
    scan r s = ((before,m)::(scan r m.rest).1,(scan r m.rest).2) := by
  have shorter := searchConsumes found
  have same := @scanFromEnough _ _ r s.length (m.rest.length+1) m.rest shorter (by omega)
  simp only [scan,scanFrom,found,same]

def findall (r : Pattern α) (group : Nat) (s : List α) : List (List α) :=
  (scan r s).1.map (fun x => x.2.group group)

theorem triesGroups {r : Re α} {s : List α} {m : Match α} (mem : m ∈ tries r s) :
    ∀ g ∈ m.groups, g.2 ⊆ s := by
  induction r generalizing s m with
  | lit t =>
    simp only [tries] at mem
    split at mem
    · rw [List.mem_singleton.mp mem]
      simp
    · cases mem
  | rep p least lazy =>
    simp only [tries,List.mem_map] at mem
    obtain ⟨x,_,rfl⟩ := mem
    simp
  | exact p count =>
    simp only [tries] at mem
    split at mem
    · rw [List.mem_singleton.mp mem]
      simp
    · cases mem
  | seq a b iha ihb =>
    simp only [tries,List.mem_flatMap,List.mem_map] at mem
    obtain ⟨x,hx,y,hy,rfl⟩ := mem
    have split := triesSplit hx
    intro g inside
    rcases List.mem_append.mp inside with first | last
    · exact iha hx g first
    · rw [split]
      exact fun c h => List.mem_append_right _ (ihb hy g last h)
  | group n r ih =>
    simp only [tries,List.mem_map] at mem
    obtain ⟨x,hx,rfl⟩ := mem
    intro g inside
    rcases List.mem_append.mp inside with inner | own
    · exact ih hx g inner
    · rw [List.mem_singleton.mp own,triesSplit hx]
      exact List.subset_append_left _ _
  | atEnd final =>
    simp only [tries] at mem
    split at mem
    · rw [List.mem_singleton.mp mem]
      simp
    · cases mem

theorem matchGroupInside {r : Re α} {s : List α} {m : Match α} (mem : m ∈ tries r s) (n : Nat) :
    m.group n ⊆ s := by
  unfold Match.group
  split
  · rw [triesSplit mem]
    exact List.subset_append_left _ _
  · split
    · rename_i g found
      exact triesGroups mem g (List.mem_of_find?_eq_some found)
    · simp

theorem findallInside (r : Pattern α) (group : Nat) (s : List α) : ∀ x ∈ findall r group s, x ⊆ s := by
  induction size : s.length using Nat.strong_induction_on generalizing s with
  | _ size ih =>
    rw [findall]
    cases found : search r.re s with
    | none =>
      rw [scanNone found]
      simp
    | some y =>
      obtain ⟨before,m⟩ := y
      obtain ⟨t,split,here⟩ := searchMatch found
      have shorter := searchConsumes found
      have rest : m.rest ⊆ s := by
        rw [searchSplit found]
        exact List.subset_append_right _ _
      rw [scanSome found,List.map_cons]
      intro x mem
      rcases List.mem_cons.mp mem with rfl | later
      · rw [split]
        exact fun c h => List.mem_append_right _ (matchGroupInside (List.mem_of_head? here) group h)
      · exact fun c h => rest (ih m.rest.length (by omega) m.rest rfl x later h)

theorem findallHead (r : Pattern α) (group : Nat) (s : List α) :
    (findall r group s).head? = (search r.re s).map (fun x => x.2.group group) := by
  rw [findall]
  cases found : search r.re s with
  | none =>
    rw [scanNone found]
    rfl
  | some x =>
    obtain ⟨before,m⟩ := x
    rw [scanSome found]
    rfl

inductive Piece (α : Type) where
  | text (t : List α)
  | group (n : Nat)
  deriving DecidableEq, Repr

def expand (pieces : List (Piece α)) (m : Match α) : List α :=
  pieces.flatMap (fun
    | .text t => t
    | .group n => m.group n)

def substitute (r : Pattern α) (pieces : List (Piece α)) (s : List α) : List α :=
  (scan r s).1.flatMap (fun x => x.1 ++ expand pieces x.2) ++ (scan r s).2

theorem substituteNone {r : Pattern α} {pieces : List (Piece α)} {s : List α}
    (found : search r.re s = none) : substitute r pieces s = s := by
  simp [substitute,scanNone found]

theorem substituteSome {r : Pattern α} {pieces : List (Piece α)} {s before : List α} {m : Match α}
    (found : search r.re s = some (before,m)) :
    substitute r pieces s = before ++ expand pieces m ++ substitute r pieces m.rest := by
  simp [substitute,scanSome found]

theorem substituteSkip {r : Pattern α} {t : List α} {groups a b} (shape : Literally t groups a)
    (re : r.re = .seq a b) {pieces : List (Piece α)} {x s : List α} (none : NoStart t x s) :
    substitute r pieces (x ++ s) = x ++ substitute r pieces s := by
  have skip : search r.re (x ++ s) = (search r.re s).map (fun k => (x ++ k.1,k.2)) := by
    rw [re]
    exact searchSkip (fun u v split some => literalBlocked shape (none u v split some))
  cases found : search r.re s with
  | none =>
    rw [found] at skip
    rw [substituteNone skip,substituteNone found]
  | some k =>
    obtain ⟨before,m⟩ := k
    rw [found] at skip
    rw [substituteSome skip,substituteSome found]
    simp

theorem spanExact {α : Type} {p : α → Bool} {y s : List α} (inside : ∀ c ∈ y, p c)
    (stop : s.takeWhile p = []) : (y ++ s).takeWhile p = y ∧ (y ++ s).dropWhile p = s := by
  have taken : (y ++ s).takeWhile p = y := by rw [List.takeWhile_append_of_pos inside,stop,List.append_nil]
  have whole := List.takeWhile_append_dropWhile (p := p) (l := y ++ s)
  rw [taken] at whole
  exact ⟨taken,List.append_cancel_left whole⟩

theorem searchToEnd {t groups groups' p} {a b : Re α} (shape : Literally t groups a)
    (rest : Greedily p 0 groups' b) {x y s : List α} (first : NoStart t x (t ++ (y ++ s)))
    (inside : ∀ c ∈ y, p c) (stop : s.takeWhile p = []) :
    search (.seq a b) (x ++ (t ++ (y ++ s))) = some (x,⟨groups ++ groups' y,t ++ y,s⟩) := by
  obtain ⟨taken,left⟩ := spanExact inside stop
  have here := greedyLast rest (y ++ s)
  rw [taken,left] at here
  exact searchLiteral shape first here

theorem searchBetween {t u groups groups' groups'' p} {a b c : Re α} (opening : Literally t groups a)
    (body : Lazily p groups' b) (closing : Literally u groups'' c) {x y s : List α}
    (first : NoStart t x (t ++ (y ++ (u ++ s)))) (inside : ∀ d ∈ y, p d)
    (next : NoStart u y (u ++ s)) :
    search (.seq a (.seq b c)) (x ++ (t ++ (y ++ (u ++ s)))) =
      some (x,⟨groups ++ (groups' y ++ groups''),t ++ (y ++ u),s⟩) := by
  have close : matchHere c (u ++ s) = some ⟨groups'',u,s⟩ := by
    rw [matchHere,closing (u ++ s),if_pos (List.prefix_append u s)]
    simp
  have block : ∀ v w, y = v ++ w → w ≠ [] → tries c (w ++ (u ++ s)) = [] := by
    intro v w split some
    rw [closing,if_neg (next v w split some)]
  exact searchLiteral opening first (lazyThen body inside block close)

end

/- Replacement templates, as the engine reads them before it looks for a match. -/
inductive TemplateError where
  | badEscape
  | missingName
  | invalidGroup
  deriving DecidableEq, Repr

def octal (c : Char) : Bool := 0x30 ≤ c.toNat && c.toNat < 0x38
def decimal (c : Char) : Bool := 0x30 ≤ c.toNat && c.toNat < 0x3a
def letter (c : Char) : Bool :=
  (0x41 ≤ c.toNat && c.toNat < 0x5b) || (0x61 ≤ c.toNat && c.toNat < 0x7b)
def digitValue (c : Char) : Nat := c.toNat - 0x30
def numeral (base : Nat) (s : List Char) : Nat := s.foldl (fun n c => n*base + digitValue c) 0

def escapes : List (Char × Char) :=
  [('a',Char.ofNat 7),('b',Char.ofNat 8),('f',Char.ofNat 12),('n','\n'),('r','\r'),('t','\t'),
    ('v',Char.ofNat 11),('\\','\\')]

def groupPiece (groups n : Nat) : Except TemplateError (Piece Char) :=
  if n ≤ groups then .ok (.group n) else .error .invalidGroup

def escape (groups : Nat) : List Char → Except TemplateError (Piece Char × List Char)
  | [] => .error .badEscape
  | 'g' :: '<' :: rest =>
    let name := rest.takeWhile (· != '>')
    if name.length < rest.length ∧ name ≠ [] ∧ name.all decimal then do
      let piece ← groupPiece groups (numeral 10 name)
      .ok (piece,rest.drop (name.length+1))
    else .error .missingName
  | 'g' :: _ => .error .missingName
  | '0' :: rest =>
    let more := (rest.take 2).takeWhile octal
    .ok (.text [Char.ofNat (numeral 8 more % 256)],rest.drop more.length)
  | c::rest =>
    if decimal c then
      match rest with
      | d::e::tail =>
        if octal c ∧ octal d ∧ octal e then
          if numeral 8 [c,d,e] ≤ 0o377 then .ok (.text [Char.ofNat (numeral 8 [c,d,e])],tail)
          else .error .badEscape
        else if decimal d then do
          let piece ← groupPiece groups (numeral 10 [c,d])
          .ok (piece,e::tail)
        else do
          let piece ← groupPiece groups (digitValue c)
          .ok (piece,rest)
      | [d] =>
        if decimal d then do
          let piece ← groupPiece groups (numeral 10 [c,d])
          .ok (piece,[])
        else do
          let piece ← groupPiece groups (digitValue c)
          .ok (piece,rest)
      | [] => do
        let piece ← groupPiece groups (digitValue c)
        .ok (piece,[])
    else match escapes.find? (fun e => e.1 == c) with
      | some e => .ok (.text [e.2],rest)
      | none => if letter c then .error .badEscape else .ok (.text ['\\',c],rest)

def templateFrom (groups : Nat) : Nat → List Char → Except TemplateError (List (Piece Char))
  | 0,_ => .ok []
  | _+1,[] => .ok []
  | n+1,'\\' :: rest => do
    let (piece,tail) ← escape groups rest
    let pieces ← templateFrom groups n tail
    .ok (piece::pieces)
  | n+1,c::rest => do
    let pieces ← templateFrom groups n rest
    .ok (.text [c]::pieces)

def template (groups : Nat) (repl : List Char) : Except TemplateError (List (Piece Char)) :=
  templateFrom groups (repl.length+1) repl

theorem templateFromText (groups : Nat) {s : List Char} (plain : '\\' ∉ s) (n : Nat) (rest : List Char) :
    templateFrom groups (s.length+n) (s ++ rest) =
      (templateFrom groups n rest).map (s.map (fun c => .text [c]) ++ ·) := by
  induction s with
  | nil =>
    rw [List.length_nil,Nat.zero_add,List.nil_append]
    cases templateFrom groups n rest <;> rfl
  | cons c s ih =>
    have other : c ≠ '\\' := fun same => plain (by simp [same])
    have tail := ih (fun mem => plain (List.mem_cons_of_mem _ mem))
    have fuel : (c::s).length + n = s.length + n + 1 := by
      rw [List.length_cons]
      omega
    rw [fuel,List.cons_append,templateFrom,tail]
    · cases templateFrom groups n rest <;> rfl
    · exact other

theorem templateFromPlain (groups : Nat) {n : Nat} {s : List Char} (plain : '\\' ∉ s)
    (enough : s.length ≤ n) : templateFrom groups n s = .ok (s.map (fun c => .text [c])) := by
  have whole := templateFromText groups plain (n-s.length) []
  have done : templateFrom groups (n-s.length) [] = .ok [] := by cases n-s.length <;> rfl
  rw [List.append_nil,done,Nat.add_sub_cancel' enough] at whole
  rw [whole]
  simp [Except.map]

theorem templatePlain (groups : Nat) {s : List Char} (plain : '\\' ∉ s) :
    template groups s = .ok (s.map (fun c => .text [c])) :=
  templateFromPlain groups plain (Nat.le_succ _)

theorem escapeGroup {groups : Nat} {s : List Char} (some : 1 ≤ groups)
    (apart : ∀ c ∈ s.head?, decimal c = false) : escape groups ('1' :: s) = .ok (.group 1,s) := by
  have one : decimal '1' = true := by decide
  have value : digitValue '1' = 1 := by decide
  cases s with
  | nil => simp [escape,one,value,groupPiece,some,bind,Except.bind]
  | cons d s =>
    have other : decimal d = false := apart d rfl
    have notOctal : octal d = false := by
      simp only [decimal,octal,Bool.and_eq_false_iff,decide_eq_false_iff_not] at other ⊢
      omega
    cases s with
    | nil => simp [escape,one,value,groupPiece,some,other,bind,Except.bind]
    | cons e s => simp [escape,one,value,groupPiece,some,other,notOctal,bind,Except.bind]

theorem templateGroup {groups : Nat} {s : List Char} (some : 1 ≤ groups) (plain : '\\' ∉ s)
    (apart : ∀ c ∈ s.head?, decimal c = false) :
    template groups ('\\' :: '1' :: s) = .ok (.group 1::s.map (fun c => .text [c])) := by
  have rest := @templateFromPlain groups (s.length+2) s plain (by omega)
  simp only [template,List.length_cons,templateFrom,escapeGroup some apart,bind,Except.bind,rest]

theorem expandText {s : List Char} (m : Match Char) :
    expand (s.map (fun c => .text [c])) m = s := by
  induction s with
  | nil => rfl
  | cons c s ih =>
    rw [expand] at ih ⊢
    rw [List.map_cons,List.flatMap_cons,ih]
    rfl

def groupCount {α : Type} : Re α → Nat
  | .seq a b => max (groupCount a) (groupCount b)
  | .group n r => max n (groupCount r)
  | _ => 0

def sub (r : Pattern Char) (repl s : List Char) : Except TemplateError (List Char) := do
  let pieces ← template (groupCount r.re) repl
  .ok (substitute r pieces s)

end KernelTestTools.Regex
