import KernelTestTools.LastWrite
import Mathlib.Data.Nat.Find

/-! Whole runs of Set_Return. A run visits, for each environment up to the first without a
global_id, the tests 001, 002, .. up to the first number that no XML file has; so an
environment's DAT files depend on the others only through that first one. -/
namespace KernelTestTools.SetReturn
open TextFile DatFiles Xml

theorem someTestMissing (functionName : Text) (env : Environment) :
    ∃ n, found functionName env (n+1) = false := by
  obtain ⟨bound,stop⟩ := notFoundLater functionName env
  exact ⟨bound,stop (bound+1) (Nat.le_succ _)⟩

def lastFound (functionName : Text) (env : Environment) : Nat :=
  Nat.find (someTestMissing functionName env)

def Reached (functionName : Text) (env : Environment) (index : Nat) : Prop :=
  ∀ j, 1 ≤ j → j ≤ index → found functionName env j = true

theorem reachedIff {functionName : Text} {env : Environment} {index : Nat} :
    Reached functionName env index ↔ index ≤ lastFound functionName env := by
  constructor
  · intro reached
    by_contra late
    have stop := Nat.find_spec (someTestMissing functionName env)
    have here := reached (lastFound functionName env + 1) (by omega) (by omega)
    rw [lastFound,stop] at here
    cases here
  · intro early j positive below
    have other : ¬ found functionName env (j-1+1) = false :=
      Nat.find_min (someTestMissing functionName env) (by unfold lastFound at early; omega)
    rw [Nat.sub_add_cancel positive] at other
    exact Bool.eq_true_of_not_eq_false other

def HasGlobalId (functionName : Text) (env : Environment) : Prop :=
  (getGlobalId env.param functionName).isSome

instance (functionName : Text) (env : Environment) : Decidable (HasGlobalId functionName env) :=
  inferInstanceAs (Decidable (_ = true))

def entered (functionName : Text) (envs : List Environment) : List Environment :=
  envs.takeWhile (fun env => HasGlobalId functionName env)

def environmentVisits (functionName : Text) (env : Environment) : List Visit :=
  match getGlobalId env.param functionName with
  | none => []
  | some globalId => if env.isDir then
      (List.range' 1 (lastFound functionName env)).flatMap (testVisits functionName globalId env)
    else []

section
variable {functionName newValue globalId : Text} {env : Environment}

theorem loopVisitsExact {fuel index : Nat} (positive : 1 ≤ index)
    (start : index ≤ lastFound functionName env + 1)
    (enough : lastFound functionName env + 1 - index < fuel) :
    loopVisits functionName globalId env fuel index = some ((List.range' index
      (lastFound functionName env + 1 - index)).flatMap (testVisits functionName globalId env)) := by
  induction fuel generalizing index with
  | zero => omega
  | succ fuel ih =>
    rw [loopVisits]
    rcases Nat.lt_or_ge index (lastFound functionName env + 1) with early | late
    · have here : found functionName env index = true :=
        reachedIff.mpr (Nat.le_of_lt_succ early) index positive (Nat.le_refl _)
      have count : lastFound functionName env + 1 - index =
          (lastFound functionName env + 1 - (index+1)) + 1 := by omega
      have tail := @ih (index+1) (by omega) (by omega) (by omega)
      rw [if_pos here,tail,count,List.range'_succ]
      rfl
    · have last : index = lastFound functionName env + 1 := by omega
      have stop : found functionName env index = false := by
        rw [last]
        exact Nat.find_spec (someTestMissing functionName env)
      rw [stop,last]
      simp

theorem environmentVisitsDir {v : Visit} (mem : v ∈ environmentVisits functionName env) :
    v.path.1 = env.stem := by
  unfold environmentVisits at mem
  split at mem
  · cases mem
  · split at mem
    · obtain ⟨index,_,inside⟩ := List.mem_flatMap.mp mem
      exact matchingDir inside
    · cases mem

end

theorem runVisitsExact (functionName : Text) (envs : List Environment) :
    ∃ enough, ∀ fuel, enough ≤ fuel → runVisits functionName fuel envs =
      some ((entered functionName envs).flatMap (environmentVisits functionName)) := by
  induction envs with
  | nil => exact ⟨0,fun _ _ => rfl⟩
  | cons env rest ih =>
    obtain ⟨enough,known⟩ := ih
    cases param : getGlobalId env.param functionName with
    | none =>
      have out : entered functionName (env::rest) = [] := by
        simp [entered,HasGlobalId,param]
      exact ⟨0,fun fuel _ => by simp only [runVisits,param,out,List.flatMap_nil]⟩
    | some globalId =>
      have into : entered functionName (env::rest) = env::entered functionName rest := by
        simp [entered,HasGlobalId,param]
      refine ⟨max enough (lastFound functionName env + 1),fun fuel h => ?_⟩
      have later := known fuel (by omega)
      rw [into,List.flatMap_cons]
      cases dir : env.isDir with
      | false => simp [runVisits,environmentVisits,param,dir,later]
      | true =>
        have loop := @loopVisitsExact functionName globalId env fuel 1 (Nat.le_refl _) (by omega) (by omega)
        simp only [Nat.add_sub_cancel] at loop
        simp [runVisits,environmentVisits,param,dir,later,loop]

theorem keysAtAppend (front back : List Visit) (path : Path) :
    keysAt (front ++ back) path = keysAt front path ++ keysAt back path := by
  simp [keysAt]

theorem keysElsewhere {visits : List Visit} {path : Path} (other : ∀ v ∈ visits, v.path ≠ path) :
    keysAt visits path = [] := by
  have none : visits.filter (fun v => v.path = path) = [] := by
    rw [List.filter_eq_nil_iff]
    intro v mem same
    exact other v mem (of_decide_eq_true same)
  rw [keysAt,none]
  rfl

theorem keysOutside {functionName : Text} {envs : List Environment} {stem : Text}
    (away : stem ∉ envs.map Environment.stem) (id : Text) :
    keysAt (envs.flatMap (environmentVisits functionName)) (stem,id) = [] := by
  refine keysElsewhere (fun v mem same => away ?_)
  obtain ⟨other,listed,visit⟩ := List.mem_flatMap.mp mem
  have dir := environmentVisitsDir visit
  rw [same] at dir
  exact List.mem_map.mpr ⟨other,listed,dir.symm⟩

theorem enteredSplit {functionName : Text} {before : List Environment} (rest : List Environment)
    (known : ∀ e ∈ before, HasGlobalId functionName e) :
    entered functionName (before ++ rest) = before ++ entered functionName rest :=
  List.takeWhile_append_of_pos (fun e mem => decide_eq_true (known e mem))

theorem enteredBefore {functionName : Text} {before : List Environment} (rest : List Environment)
    (exits : ∃ e ∈ before, ¬ HasGlobalId functionName e) : entered functionName (before ++ rest) <+: before := by
  induction before with
  | nil => simp at exits
  | cons head before ih =>
    by_cases known : HasGlobalId functionName head
    · have later : ∃ e ∈ before, ¬ HasGlobalId functionName e := by simpa [known] using exits
      have shape : entered functionName (head::before ++ rest) = head::entered functionName (before ++ rest) := by
        simp [entered,known]
      rw [shape]
      exact List.cons_prefix_cons.mpr ⟨rfl,ih later⟩
    · have shape : entered functionName (head::before ++ rest) = [] := by simp [entered,known]
      rw [shape]
      exact List.nil_prefix

theorem keysOfEnvironment {functionName : Text} {before after : List Environment} {env : Environment}
    (distinct : ((before ++ env::after).map Environment.stem).Nodup) (id : Text) :
    ((∀ e ∈ before, HasGlobalId functionName e) →
      keysAt ((entered functionName (before ++ env::after)).flatMap (environmentVisits functionName))
        (env.stem,id) = keysAt (environmentVisits functionName env) (env.stem,id)) ∧
    ((∃ e ∈ before, ¬ HasGlobalId functionName e) →
      keysAt ((entered functionName (before ++ env::after)).flatMap (environmentVisits functionName))
        (env.stem,id) = []) := by
  rw [List.map_append,List.map_cons,List.nodup_append] at distinct
  obtain ⟨_,own,apart⟩ := distinct
  have outBefore : env.stem ∉ before.map Environment.stem :=
    fun mem => apart _ mem _ List.mem_cons_self rfl
  have outAfter : env.stem ∉ (entered functionName after).map Environment.stem :=
    fun mem => (List.nodup_cons.mp own).1
      ((List.Sublist.map _ (List.takeWhile_sublist _)).subset mem)
  constructor
  · intro known
    rw [enteredSplit _ known,List.flatMap_append,keysAtAppend,keysOutside outBefore,List.nil_append]
    by_cases here : HasGlobalId functionName env
    · have shape : entered functionName (env::after) = env::entered functionName after := by
        simp [entered,here]
      rw [shape,List.flatMap_cons,keysAtAppend,keysOutside outAfter,List.append_nil]
    · have shape : entered functionName (env::after) = [] := by simp [entered,here]
      have none : environmentVisits functionName env = [] := by
        rw [HasGlobalId,Option.not_isSome_iff_eq_none] at here
        simp [environmentVisits,here]
      rw [shape,none]
      rfl
  · intro exits
    refine keysOutside (fun mem => outBefore ?_) id
    exact (List.Sublist.map _ (enteredBefore (env::after) exits).sublist).subset mem

theorem finalFile (functionName newValue : Text) (envs : List Environment) (dats : Dats) :
    ∃ enough, ∀ fuel, enough ≤ fuel → ∃ final, setReturn functionName newValue fuel envs dats = some final ∧
      ∀ path, final path = updates newValue
        (keysAt ((entered functionName envs).flatMap (environmentVisits functionName)) path) (dats path) := by
  obtain ⟨enough,known⟩ := runVisitsExact functionName envs
  refine ⟨enough,fun fuel h => ⟨_,by rw [setReturnVisits,known fuel h]; rfl,fun path => ?_⟩⟩
  exact foldAt newValue _ dats path

structure RunsBeside (functionName newValue : Text) (envs : List Environment) (env : Environment)
    (dats final alone : Dats) (fuel : Nat) : Prop where
  together : setReturn functionName newValue fuel envs dats = some final
  single : setReturn functionName newValue fuel [env] dats = some alone

theorem untilExit {functionName newValue : Text} {before after : List Environment} {env : Environment}
    (dats : Dats) (distinct : ((before ++ env::after).map Environment.stem).Nodup) :
    ∃ enough, ∀ fuel, enough ≤ fuel → ∃ final alone,
      RunsBeside functionName newValue (before ++ env::after) env dats final alone fuel ∧
      ((∀ e ∈ before, HasGlobalId functionName e) → ∀ id, final (env.stem,id) = alone (env.stem,id)) ∧
      ((∃ e ∈ before, ¬ HasGlobalId functionName e) → ∀ id, final (env.stem,id) = dats (env.stem,id)) := by
  obtain ⟨bound,together⟩ := finalFile functionName newValue (before ++ env::after) dats
  obtain ⟨bound',single⟩ := finalFile functionName newValue [env] dats
  refine ⟨max bound bound',fun fuel h => ?_⟩
  obtain ⟨final,done,files⟩ := together fuel (by omega)
  obtain ⟨alone,done',files'⟩ := single fuel (by omega)
  refine ⟨final,alone,⟨done,done'⟩,fun known id => ?_,fun exits id => ?_⟩
  · have reached := (@keysOfEnvironment functionName before after env distinct id).1 known
    have own := (@keysOfEnvironment functionName [] [] env (by simp) id).1 (by simp)
    rw [List.nil_append] at own
    rw [files,files',reached,own]
  · rw [files,(@keysOfEnvironment functionName before after env distinct id).2 exits]
    rfl

def lostEnvironment : Environment where
  stem := "HAL0".toList
  param := none
  isDir := true
  files := []
  rglob := fun _ => []
  listed := fun _ => List.Perm.refl _

theorem sampleUntilExit : ∃ enough, ∀ fuel, enough ≤ fuel → ∃ final alone,
    RunsBeside sampleFunction "1".toList [sampleEnvironment,lostEnvironment] sampleEnvironment
      (fun _ => none) final alone fuel ∧
    ((∀ e ∈ ([] : List Environment), HasGlobalId sampleFunction e) →
      ∀ id, final ("HAL1".toList,id) = alone ("HAL1".toList,id)) ∧
    ((∃ e ∈ ([] : List Environment), ¬ HasGlobalId sampleFunction e) →
      ∀ id, final ("HAL1".toList,id) = none) :=
  @untilExit sampleFunction "1".toList [] [lostEnvironment] sampleEnvironment (fun _ => none) (by decide)

/- Listed first, it ends the script before the other environment is entered. -/
theorem exitStopsOthers : ¬ ∃ enough, ∀ fuel, enough ≤ fuel → ∃ final alone,
    RunsBeside sampleFunction "1".toList [lostEnvironment,sampleEnvironment] sampleEnvironment
      (fun _ => none) final alone fuel ∧ ∀ id, final ("HAL1".toList,id) = alone ("HAL1".toList,id) := by
  intro independent
  obtain ⟨enough,independent⟩ := independent
  obtain ⟨final,alone,⟨together,single⟩,same⟩ := independent (enough+3) (by omega)
  have exited : setReturn sampleFunction "1".toList (enough+3) [lostEnvironment,sampleEnvironment]
      (fun _ => none) = some (fun _ => none) := by rfl
  have written : (setReturn sampleFunction "1".toList (enough+3) [sampleEnvironment] (fun _ => none)).map
      (fun dats => dats ("HAL1".toList,"1".toList)) = some (some (.text "0.1.2.7%1\n".toList)) := by rfl
  rw [exited] at together
  cases together
  rw [single,Option.map_some,← same] at written
  cases written

end KernelTestTools.SetReturn
