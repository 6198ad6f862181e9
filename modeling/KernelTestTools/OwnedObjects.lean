import KernelTestTools.StepRuns
import Mathlib.Data.List.Nodup
import Mathlib.Data.List.Perm.Basic
import Mathlib.Tactic.SplitIfs

/-! Objects that are granted, used and released by components that come and go. A component
keeps pointers in its variables; what it holds when it stays, and what it loses or misuses
when it starts and stops, is its account. Accounts add up over runs of any components. -/
namespace KernelTestTools.OwnedObjects
open StepRuns

structure Object (κ : Type) where
  kind : κ
  number : Nat
  deriving DecidableEq, Repr

inductive Pointer where
  | null
  | error (code : Int)
  | object (number : Nat)
  deriving DecidableEq, Repr

def Pointer.isErr : Pointer → Bool
  | .error _ => true
  | _ => false

/- The code of an error pointer; NULL counts as no error. -/
def Pointer.code : Pointer → Int
  | .error code => code
  | _ => 0

/- answers is what the calls that may fail return, one after the other. Objects are numbered
as they come to be; misused lists what was used or released without being held. -/
structure World (κ : Type) where
  answers : Nat → Int
  next : Nat
  held : List (Object κ)
  misused : List (κ × Pointer)
  distinct : held.Nodup
  born : ∀ o ∈ held, o.number < next

section
variable {κ : Type}

def World.later (w : World κ) : World κ := { w with answers := fun k => w.answers (k + 1) }

def World.acquired (w : World κ) (kind : κ) : World κ where
  answers := w.answers
  next := w.next + 1
  held := ⟨kind,w.next⟩::w.held
  misused := w.misused
  distinct := by
    refine List.nodup_cons.mpr ⟨fun mem => ?_,w.distinct⟩
    exact Nat.lt_irrefl _ (w.born _ mem)
  born := by
    intro o mem
    obtain rfl | old := List.mem_cons.mp mem
    · exact Nat.lt_succ_self _
    · exact Nat.lt_succ_of_lt (w.born o old)

def World.ask {α : Type} (w : World κ) (next : Int → World κ → α) : α := next (w.answers 0) w.later

def World.call {α : Type} (w : World κ) (next : Int → World κ → α) : α := next (min (w.answers 0) 0) w.later

/- A call that returns an object, or what failed makes of a negative answer. -/
def World.grant {α : Type} (w : World κ) (kind : κ) (failed : Int → Pointer) (next : Pointer → World κ → α) : α :=
  if w.answers 0 < 0 then next (failed (w.answers 0)) w.later
  else next (.object w.next) (w.later.acquired kind)

def World.take {α : Type} (w : World κ) (kind : κ) (next : Pointer → World κ → α) : α :=
  next (.object w.next) (w.acquired kind)

def World.misuse (w : World κ) (kind : κ) (p : Pointer) : World κ := { w with misused := (kind,p)::w.misused }

def absent (answer : Int) : Nat := if answer < 0 then 1 else 0

/- A use of what nothing of this component keeps in place: a negative answer is a use of what
is not, or no longer, there. -/
def World.expect (w : World κ) (kind : κ) : World κ :=
  { w.later with misused := List.replicate (absent (w.answers 0)) (kind,.null) ++ w.misused }

variable {w : World κ} {kind : κ} {n : Nat} {mine mine' : List (Object κ)} {bad : Nat}

@[simp] theorem laterHeld : w.later.held = w.held := by simp only [World.later]
@[simp] theorem laterMisused : w.later.misused = w.misused := by simp only [World.later]
@[simp] theorem laterNext : w.later.next = w.next := by simp only [World.later]
@[simp] theorem laterAnswers (k : Nat) : w.later.answers k = w.answers (k + 1) := by simp only [World.later]
@[simp] theorem acquiredHeld : (w.acquired kind).held = ⟨kind,w.next⟩::w.held := by simp only [World.acquired]
@[simp] theorem acquiredMisused : (w.acquired kind).misused = w.misused := by simp only [World.acquired]
@[simp] theorem acquiredNext : (w.acquired kind).next = w.next + 1 := by simp only [World.acquired]
@[simp] theorem acquiredAnswers : (w.acquired kind).answers = w.answers := by simp only [World.acquired]
@[simp] theorem misuseNext {p : Pointer} : (w.misuse kind p).next = w.next := by simp only [World.misuse]
@[simp] theorem misuseHeld {p : Pointer} : (w.misuse kind p).held = w.held := by simp only [World.misuse]
@[simp] theorem misuseMisused {p : Pointer} : (w.misuse kind p).misused = (kind,p)::w.misused := by simp only [World.misuse]

@[simp] theorem expectHeld : (w.expect kind).held = w.held := by simp only [World.expect,laterHeld]
@[simp] theorem expectNext : (w.expect kind).next = w.next := by simp only [World.expect,laterNext]
@[simp] theorem expectAnswers (k : Nat) : (w.expect kind).answers k = w.answers (k + 1) := by
  simp only [World.expect,laterAnswers]
@[simp] theorem expectMisused : (w.expect kind).misused.length = w.misused.length + absent (w.answers 0) := by
  simp only [World.expect,List.length_append,List.length_replicate,Nat.add_comm]

structure Holding (w : World κ) (mine : List (Object κ)) (bad : Nat) : Prop where
  held : w.held.Perm mine
  misused : w.misused.length = bad

theorem holdingPerm (holding : Holding w mine bad) (same : mine.Perm mine') : Holding w mine' bad :=
  ⟨holding.held.trans same,holding.misused⟩

theorem holdingLater (holding : Holding w mine bad) : Holding w.later mine bad := ⟨holding.held,holding.misused⟩

theorem holdingMisuse {p : Pointer} (holding : Holding w mine bad) : Holding (w.misuse kind p) mine (bad + 1) :=
  ⟨holding.held,congrArg Nat.succ holding.misused⟩

theorem holdingNodup (holding : Holding w mine bad) : mine.Nodup := holding.held.nodup_iff.mp w.distinct

theorem mineHeld (holding : Holding w (⟨kind,n⟩::mine) bad) : ⟨kind,n⟩ ∈ w.held :=
  holding.held.mem_iff.mpr List.mem_cons_self

variable [DecidableEq κ]

def World.holds (w : World κ) (kind : κ) : Pointer → Bool
  | .object n => decide (⟨kind,n⟩ ∈ w.held)
  | _ => false

def World.drop (w : World κ) (kind : κ) (n : Nat) : World κ where
  answers := w.answers
  next := w.next
  held := w.held.erase ⟨kind,n⟩
  misused := w.misused
  distinct := w.distinct.erase _
  born := fun o mem => w.born o (List.mem_of_mem_erase mem)

def World.release (w : World κ) (kind : κ) : Pointer → World κ
  | .object n => if w.holds kind (.object n) then w.drop kind n else w.misuse kind (.object n)
  | p => w.misuse kind p

def World.free (w : World κ) (kind : κ) (p : Pointer) : World κ :=
  if p = .null then w else w.release kind p

def World.use (w : World κ) (kind : κ) (p : Pointer) : World κ :=
  if w.holds kind p then w else w.misuse kind p

@[simp] theorem dropHeld : (w.drop kind n).held = w.held.erase ⟨kind,n⟩ := by simp only [World.drop]
@[simp] theorem dropMisused : (w.drop kind n).misused = w.misused := by simp only [World.drop]
@[simp] theorem dropNext : (w.drop kind n).next = w.next := by simp only [World.drop]
@[simp] theorem dropAnswers : (w.drop kind n).answers = w.answers := by simp only [World.drop]
@[simp] theorem holdsObject : w.holds kind (.object n) = decide (⟨kind,n⟩ ∈ w.held) := rfl

@[simp] theorem releaseHeld (mem : ⟨kind,n⟩ ∈ w.held) : w.release kind (.object n) = w.drop kind n :=
  if_pos (decide_eq_true mem)

@[simp] theorem useHeld (mem : ⟨kind,n⟩ ∈ w.held) : w.use kind (.object n) = w := if_pos (decide_eq_true mem)

@[simp] theorem useNull : w.use kind .null = w.misuse kind .null := rfl

@[simp] theorem freeObject : w.free kind (.object n) = w.release kind (.object n) := if_neg nofun

@[simp] theorem freeNull : w.free kind .null = w := if_pos rfl

@[simp] theorem releaseNull : w.release kind .null = w.misuse kind .null := rfl

@[simp] theorem releaseError (code : Int) : w.release kind (.error code) = w.misuse kind (.error code) := rfl

theorem usedAnswers {p : Pointer} : (w.use kind p).answers = w.answers := by
  unfold World.use
  split
  · rfl
  · rfl

theorem releasedAnswers {p : Pointer} : (w.release kind p).answers = w.answers := by
  cases p with
  | null => rfl
  | error code => rfl
  | object n =>
    unfold World.release
    dsimp only
    split
    · rfl
    · rfl

theorem holdsMine (holding : Holding w mine bad) : w.holds kind (.object n) = decide (⟨kind,n⟩ ∈ mine) := by
  unfold World.holds
  simp only [holding.held.mem_iff]

theorem holdingReleased (holding : Holding w (⟨kind,n⟩::mine) bad) :
    Holding (w.release kind (.object n)) mine bad := by
  rw [releaseHeld (mineHeld holding)]
  refine ⟨?_,holding.misused⟩
  have erased := holding.held.erase ⟨kind,n⟩
  rwa [List.erase_cons_head] at erased

theorem holdingUsedWrongly {p : Pointer} (holding : Holding w mine bad)
    (apart : ∀ n, p = .object n → ⟨kind,n⟩ ∉ mine) : Holding (w.use kind p) mine (bad + 1) := by
  have away : w.holds kind p = false := by
    cases p with
    | null => rfl
    | error code => rfl
    | object n =>
      rw [holdsMine holding]
      exact decide_eq_false (apart n rfl)
  have same : w.use kind p = w.misuse kind p := if_neg (by simp [away])
  rw [same]
  exact holdingMisuse holding

end

structure Started (κ σ : Type) where
  code : Int
  statics : σ
  world : World κ

structure Component (κ : Type) where
  Statics : Type
  init : World κ → Started κ Statics
  exit : Statics → World κ → World κ

/- What a start leaves behind: the objects that were held before, those that the variables own
if the component stays, and the lost ones. -/
def Leaves {κ σ : Type} (owned : σ → List (Object κ)) (sound : σ → Prop) (before : List (Object κ))
    (lost bad : Nat) (s : Started κ σ) : Prop :=
  ∃ gone, gone.length = lost ∧
    Holding s.world ((if s.code < 0 then [] else owned s.statics) ++ (gone ++ before)) bad ∧
    (0 ≤ s.code → sound s.statics)

section
variable {κ σ : Type} {owned : σ → List (Object κ)} {sound : σ → Prop} {before : List (Object κ)}
  {lost bad : Nat} {code : Int} {statics : σ} {w : World κ}

theorem startFailed (gone : List (Object κ)) (count : gone.length = lost) (negative : code < 0)
    (holding : Holding w (gone ++ before) bad) :
    Leaves owned sound before lost bad ⟨code,statics,w⟩ := by
  refine ⟨gone,count,?_,fun positive => absurd negative (Int.not_lt.mpr positive)⟩
  rw [if_pos negative]
  exact holding

theorem startStays (gone : List (Object κ)) (count : gone.length = lost) (positive : 0 ≤ code) (right : sound statics)
    (holding : Holding w (owned statics ++ (gone ++ before)) bad) :
    Leaves owned sound before lost bad ⟨code,statics,w⟩ := by
  refine ⟨gone,count,?_,fun _ => right⟩
  rw [if_neg (Int.not_lt.mpr positive)]
  exact holding

theorem cleanFailed (negative : code < 0) (holding : Holding w before bad) :
    Leaves owned sound before 0 bad ⟨code,statics,w⟩ :=
  startFailed [] rfl negative holding

theorem cleanStays (positive : 0 ≤ code) (right : sound statics) (holding : Holding w (owned statics ++ before) bad) :
    Leaves owned sound before 0 bad ⟨code,statics,w⟩ :=
  startStays [] rfl positive right holding

end

/- What the variables of a component own while it stays, and how many objects it loses and
how often it misuses one when it starts and when it stops, by the answers to come. -/
structure Account {κ : Type} (c : Component κ) where
  owned : c.Statics → List (Object κ)
  sound : c.Statics → Prop
  lostStart : (Nat → Int) → Nat
  badStart : (Nat → Int) → Nat
  lostStop : c.Statics → (Nat → Int) → Nat
  badStop : c.Statics → (Nat → Int) → Nat
  starts : ∀ w, Leaves owned sound w.held (lostStart w.answers) (w.misused.length + badStart w.answers) (c.init w)
  stops : ∀ statics w rest, sound statics → w.held.Perm (owned statics ++ rest) →
    ∃ lost, lost.length = lostStop statics w.answers ∧
      Holding (c.exit statics w) (lost ++ rest) (w.misused.length + badStop statics w.answers)

inductive Op (ι : Type) where
  | start (i : ι)
  | stop (i : ι)
  deriving DecidableEq, Repr

section
variable {κ ι : Type} [DecidableEq ι] {component : ι → Component κ}

structure System (component : ι → Component κ) where
  world : World κ
  loaded : List (Σ i, (component i).Statics)

def isOf (i : ι) (l : Σ i, (component i).Statics) : Bool := l.1 == i

/- A component that stays is not started again, and one that does not is not stopped. -/
def step (s : System component) : Op ι → System component
  | .start i =>
    if s.loaded.any (isOf i) then s
    else
      let started := (component i).init s.world
      if started.code < 0 then { s with world := started.world }
      else ⟨started.world,⟨i,started.statics⟩::s.loaded⟩
  | .stop i => match s.loaded.find? (isOf i) with
    | none => s
    | some l => ⟨(component l.1).exit l.2 s.world,s.loaded.eraseP (isOf i)⟩

def total {State Action : Type} (next : State → Action → State) (count : State → Action → Nat) (s : State) :
    List Action → Nat
  | [] => 0
  | op::ops => count s op + total next count (next s op) ops

variable (account : ∀ i, Account (component i))

def lostBy (s : System component) : Op ι → Nat
  | .start i => if s.loaded.any (isOf i) then 0 else (account i).lostStart s.world.answers
  | .stop i => match s.loaded.find? (isOf i) with
    | none => 0
    | some l => (account l.1).lostStop l.2 s.world.answers

def misusedBy (s : System component) : Op ι → Nat
  | .start i => if s.loaded.any (isOf i) then 0 else (account i).badStart s.world.answers
  | .stop i => match s.loaded.find? (isOf i) with
    | none => 0
    | some l => (account l.1).badStop l.2 s.world.answers

def owned (s : System component) : List (Object κ) := s.loaded.flatMap (fun l => (account l.1).owned l.2)

structure Balanced (s : System component) (lost : List (Object κ)) (bad : Nat) : Prop where
  holding : Holding s.world (owned account s ++ lost) bad
  sound : ∀ l ∈ s.loaded, (account l.1).sound l.2

variable {account} {s : System component} {lost : List (Object κ)} {bad : Nat}

theorem moreAhead (mine more lost : List (Object κ)) : (more ++ (mine ++ lost)).Perm (mine ++ (more ++ lost)) := by
  rw [← List.append_assoc,← List.append_assoc]
  exact List.perm_append_comm.append_right lost

theorem startBalanced (i : ι) (balanced : Balanced account s lost bad) (fresh : s.loaded.any (isOf i) = false) :
    ∃ more, more.length = (account i).lostStart s.world.answers ∧
      Balanced account (step s (.start i)) (more ++ lost) (bad + (account i).badStart s.world.answers) := by
  obtain ⟨more,count,holding,sound⟩ := (account i).starts s.world
  have misused := holding.misused
  rw [balanced.holding.misused] at misused
  refine ⟨more,count,?_⟩
  have held := holding.held.trans ((balanced.holding.held.append_left more).append_left _)
  have ahead := moreAhead (owned account s) more lost
  dsimp only [step]
  rw [if_neg (by simp [fresh])]
  by_cases failed : ((component i).init s.world).code < 0
  · rw [if_pos failed,List.nil_append] at held
    rw [if_pos failed]
    exact ⟨⟨held.trans ahead,misused⟩,balanced.sound⟩
  · rw [if_neg failed] at held
    rw [if_neg failed]
    refine ⟨⟨?_,misused⟩,?_⟩
    · have whole := held.trans (ahead.append_left _)
      rwa [← List.append_assoc _ (owned account s)] at whole
    · intro l mem
      obtain rfl | old := List.mem_cons.mp mem
      · exact sound (Int.not_lt.mp failed)
      · exact balanced.sound l old

theorem stopBalanced {i : ι} {l : Σ i, (component i).Statics} (balanced : Balanced account s lost bad)
    (found : s.loaded.find? (isOf i) = some l) :
    ∃ more, more.length = (account l.1).lostStop l.2 s.world.answers ∧
      Balanced account (step s (.stop i)) (more ++ lost) (bad + (account l.1).badStop l.2 s.world.answers) := by
  obtain ⟨here,before,after,split,apart⟩ := List.find?_eq_some_iff_append.mp found
  have kept : s.loaded.eraseP (isOf i) = before ++ after := by
    rw [split,List.eraseP_append_right _ (fun b mem => by simpa using apart b mem),List.eraseP_cons_of_pos here]
  have mine : (owned account s ++ lost).Perm
      ((account l.1).owned l.2 ++ (before.flatMap (fun l => (account l.1).owned l.2) ++
        after.flatMap (fun l => (account l.1).owned l.2) ++ lost)) := by
    unfold owned
    rw [split,List.flatMap_append,List.flatMap_cons,List.append_assoc,List.append_assoc,List.append_assoc]
    exact moreAhead _ _ _
  have still := balanced.sound l (split ▸ List.mem_append_right before List.mem_cons_self)
  obtain ⟨more,count,holding⟩ := (account l.1).stops l.2 s.world _ still (balanced.holding.held.trans mine)
  have misused := holding.misused
  rw [balanced.holding.misused] at misused
  refine ⟨more,count,?_⟩
  dsimp only [step]
  rw [found]
  dsimp only
  rw [kept]
  refine ⟨⟨?_,misused⟩,fun other mem => balanced.sound other ?_⟩
  · unfold owned
    rw [List.flatMap_append]
    exact holding.held.trans (moreAhead _ more lost)
  · rw [split]
    obtain front | back := List.mem_append.mp mem
    · exact List.mem_append_left _ front
    · exact List.mem_append_right before (List.mem_cons_of_mem l back)

theorem stepBalanced (op : Op ι) (balanced : Balanced account s lost bad) :
    ∃ more, more.length = lostBy account s op ∧
      Balanced account (step s op) (more ++ lost) (bad + misusedBy account s op) := by
  cases op with
  | start i =>
    cases fresh : s.loaded.any (isOf i) with
    | true => exact ⟨[],by simp [lostBy,fresh],by simpa [step,misusedBy,fresh] using balanced⟩
    | false => simpa [lostBy,misusedBy,fresh] using startBalanced i balanced fresh
  | stop i =>
    cases found : s.loaded.find? (isOf i) with
    | none => exact ⟨[],by simp [lostBy,found],by simpa [step,misusedBy,found] using balanced⟩
    | some l => simpa [lostBy,misusedBy,found] using stopBalanced balanced found

theorem runBalanced (ops : List (Op ι)) (balanced : Balanced account s lost bad) :
    ∃ more, more.length = total step (lostBy account) s ops ∧
      Balanced account (run step s ops) (more ++ lost) (bad + total step (misusedBy account) s ops) := by
  induction ops generalizing s lost bad with
  | nil => exact ⟨[],rfl,balanced⟩
  | cons op ops ih =>
    obtain ⟨first,count,here⟩ := stepBalanced op balanced
    obtain ⟨later,counts,whole⟩ := ih here
    refine ⟨later ++ first,?_,?_⟩
    · rw [List.length_append,counts,count]
      exact Nat.add_comm _ _
    · rw [List.append_assoc]
      have same : bad + misusedBy account s op + total step (misusedBy account) (step s op) ops =
          bad + total step (misusedBy account) s (op::ops) := Nat.add_assoc _ _ _
      rw [← same]
      exact whole

omit [DecidableEq ι] in
theorem startsBalanced (w : World κ) (none : w.held = []) (clean : w.misused = []) :
    Balanced account (⟨w,[]⟩ : System component) [] 0 :=
  ⟨⟨by rw [none]; exact .refl _,by rw [clean]; rfl⟩,fun l mem => nomatch mem⟩

end
end KernelTestTools.OwnedObjects
