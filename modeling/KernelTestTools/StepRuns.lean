import Mathlib.Data.List.Infix
import Mathlib.Data.List.Perm.Basic

/-! Runs of a total step function over a list of operations. A property of states is asked
of every state the run passes through, a property of steps of every operation in the state
it meets. -/
namespace KernelTestTools.StepRuns

section
variable {State Op : Type} (step : State → Op → State)

def run (s : State) (ops : List Op) : State := ops.foldl step s

def EachState (holds : State → Prop) (s : State) (ops : List Op) : Prop :=
  ∀ before after, ops = before ++ after → holds (run step s before)

def EachStep (meets : State → Op → Prop) (s : State) (ops : List Op) : Prop :=
  ∀ before op after, ops = before ++ op::after → meets (run step s before) op

variable {step}

theorem eachStateNil {holds : State → Prop} {s : State} : EachState step holds s [] ↔ holds s := by
  constructor
  · intro each
    exact each [] [] rfl
  · intro here before after split
    obtain ⟨rfl,_⟩ := List.append_eq_nil_iff.mp split.symm
    exact here

theorem eachStateCons {holds : State → Prop} {s : State} {op : Op} {ops : List Op} :
    EachState step holds s (op::ops) ↔ holds s ∧ EachState step holds (step s op) ops := by
  constructor
  · intro each
    exact ⟨each [] _ rfl,fun before after split => each (op::before) after (by rw [split,List.cons_append])⟩
  · intro both before after split
    cases before with
    | nil => exact both.1
    | cons first before =>
      obtain ⟨rfl,rest⟩ := List.cons.inj split
      exact both.2 before after rest

theorem eachStepNil {meets : State → Op → Prop} {s : State} : EachStep step meets s [] := by
  intro before op after split
  simp at split

theorem eachStepCons {meets : State → Op → Prop} {s : State} {op : Op} {ops : List Op} :
    EachStep step meets s (op::ops) ↔ meets s op ∧ EachStep step meets (step s op) ops := by
  constructor
  · intro each
    exact ⟨each [] op ops rfl,
      fun before next after split => each (op::before) next after (by rw [split,List.cons_append])⟩
  · intro both before next after split
    cases before with
    | nil =>
      obtain ⟨rfl,rfl⟩ := List.cons.inj split
      exact both.1
    | cons first before =>
      obtain ⟨rfl,rest⟩ := List.cons.inj split
      exact both.2 before next after rest

theorem eachStepIff {right meets : State → Op → Prop} (same : ∀ s op, right s op ↔ meets s op)
    (s : State) (ops : List Op) : EachStep step right s ops ↔ EachStep step meets s ops := by
  constructor
  · exact fun each before op after split => (same _ op).mp (each before op after split)
  · exact fun each before op after split => (same _ op).mpr (each before op after split)

theorem eachStepMember {meets : Op → Prop} {s : State} {ops : List Op} :
    EachStep step (fun _ op => meets op) s ops ↔ ∀ op ∈ ops, meets op := by
  constructor
  · intro each op mem
    obtain ⟨before,after,split⟩ := List.append_of_mem mem
    exact each before op after split
  · intro all before op after split
    exact all op (by simp [split])

/- Where a good state lets a step through rightly and into a good state exactly when the
step meets a condition, a run is right throughout exactly when all its steps meet it. -/
theorem rightExactly {holds : State → Prop} {right meets : State → Op → Prop}
    (exact' : ∀ s op, holds s → (right s op ∧ holds (step s op) ↔ meets s op))
    {s : State} (start : holds s) (ops : List Op) :
    EachStep step right s ops ∧ EachState step holds s ops ↔ EachStep step meets s ops := by
  induction ops generalizing s with
  | nil => exact iff_of_true ⟨eachStepNil,eachStateNil.mpr start⟩ eachStepNil
  | cons op ops ih =>
    rw [eachStepCons,eachStateCons,eachStepCons,← exact' s op start]
    constructor
    · intro all
      obtain ⟨⟨first,later⟩,_,states⟩ := all
      have next : holds (step s op) := states [] ops rfl
      exact ⟨⟨first,next⟩,(ih next).mp ⟨later,states⟩⟩
    · intro all
      obtain ⟨⟨first,next⟩,later⟩ := all
      obtain ⟨steps,states⟩ := (ih next).mpr later
      exact ⟨⟨first,steps⟩,start,states⟩

theorem runKeeps {holds : State → Prop} {ops : List Op} (kept : ∀ op ∈ ops, ∀ s, holds s → holds (step s op))
    {s : State} (start : holds s) : holds (run step s ops) := by
  induction ops generalizing s with
  | nil => exact start
  | cons op ops ih =>
    exact ih (fun next mem => kept next (List.mem_cons_of_mem _ mem)) (kept op List.mem_cons_self s start)

theorem runPerm {holds : State → Prop} {ops ops' : List Op} (perm : ops.Perm ops')
    (kept : ∀ op ∈ ops, ∀ s, holds s → holds (step s op))
    (commute : ∀ a ∈ ops, ∀ b ∈ ops, ∀ s, holds s → step (step s a) b = step (step s b) a)
    {s : State} (start : holds s) : run step s ops = run step s ops' := by
  induction perm generalizing s with
  | nil => rfl
  | cons op perm ih =>
    exact ih (fun next mem => kept next (List.mem_cons_of_mem _ mem))
      (fun a first b second => commute a (List.mem_cons_of_mem _ first) b (List.mem_cons_of_mem _ second))
      (kept op List.mem_cons_self s start)
  | swap a b rest =>
    have same := commute b List.mem_cons_self a (List.mem_cons_of_mem _ List.mem_cons_self) s start
    rw [run,run,List.foldl_cons,List.foldl_cons,List.foldl_cons,List.foldl_cons,same]
  | trans first second ih₁ ih₂ =>
    have back := first.symm.subset
    exact (ih₁ kept commute start).trans (ih₂ (fun op mem => kept op (back mem))
      (fun a mem b mem' => commute a (back mem) b (back mem')) start)

end
end KernelTestTools.StepRuns
