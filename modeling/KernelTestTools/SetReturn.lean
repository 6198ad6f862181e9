import KernelTestTools.DatFiles
import KernelTestTools.Xml
import Mathlib.Algebra.Order.BigOperators.Group.List
import Mathlib.Algebra.Order.Group.Nat

/-! Set_Return over the environments of a directory. Which XML files are visited, in which
order, does not depend on the DAT files, so a run is a list of visits applied in turn. -/
namespace KernelTestTools.SetReturn
open TextFile DatFiles Xml

structure Environment where
  stem : Text
  param : Option Element
  isDir : Bool
  files : List XmlFile
  rglob : Nat → List XmlFile
  listed : ∀ index, (rglob index).Perm files

/- while True, from an index; none when the fuel does not reach the last test. -/
def indexLoop (functionName newValue globalId : Text) (env : Environment) :
    Nat → Nat → Dats → Option Dats
  | 0,_,_ => none
  | fuel+1,index,dats =>
    let s := (env.rglob index).foldl
      (visitXml (applyVisit newValue) functionName globalId env.stem index) (false,dats)
    if s.1 then indexLoop functionName newValue globalId env fuel (index+1) s.2 else some s.2

def setReturn (functionName newValue : Text) (fuel : Nat) : List Environment → Dats → Option Dats
  | [],dats => some dats
  | env::rest,dats => match getGlobalId env.param functionName with
    | none => some dats
    | some globalId =>
      if env.isDir then do
        let after ← indexLoop functionName newValue globalId env fuel 1 dats
        setReturn functionName newValue fuel rest after
      else setReturn functionName newValue fuel rest dats

def testVisits (functionName globalId : Text) (env : Environment) (index : Nat) : List Visit :=
  matchingVisits functionName globalId env.stem index (env.rglob index)

def found (functionName : Text) (env : Environment) (index : Nat) : Bool :=
  (env.rglob index).any (inSomeLine (namePattern functionName index))

def loopVisits (functionName globalId : Text) (env : Environment) : Nat → Nat → Option (List Visit)
  | 0,_ => none
  | fuel+1,index =>
    if found functionName env index then do
      let rest ← loopVisits functionName globalId env fuel (index+1)
      some (testVisits functionName globalId env index ++ rest)
    else some []

def runVisits (functionName : Text) (fuel : Nat) : List Environment → Option (List Visit)
  | [] => some []
  | env::rest => match getGlobalId env.param functionName with
    | none => some []
    | some globalId =>
      if env.isDir then do
        let here ← loopVisits functionName globalId env fuel 1
        let later ← runVisits functionName fuel rest
        some (here ++ later)
      else runVisits functionName fuel rest

section
variable {functionName newValue globalId : Text} {env : Environment}

theorem indexLoopVisits (fuel index : Nat) (dats : Dats) :
    indexLoop functionName newValue globalId env fuel index dats =
      (loopVisits functionName globalId env fuel index).map
        (fun visits => visits.foldl (applyVisit newValue) dats) := by
  induction fuel generalizing index dats with
  | zero => rfl
  | succ fuel ih =>
    simp only [indexLoop,loopVisits,visitXmlFold,Bool.false_or]
    rw [← found]
    by_cases more : found functionName env index
    · rw [if_pos more,if_pos more,ih,← testVisits]
      cases loopVisits functionName globalId env fuel (index+1) <;> simp
    · have none : (env.rglob index).filter (inSomeLine (namePattern functionName index)) = [] := by
        rw [List.filter_eq_nil_iff]
        intro x mem here
        exact more (List.any_eq_true.mpr ⟨x,mem,here⟩)
      rw [if_neg more,if_neg more,matchingVisits,none]
      rfl

theorem setReturnVisits (fuel : Nat) (envs : List Environment) (dats : Dats) :
    setReturn functionName newValue fuel envs dats =
      (runVisits functionName fuel envs).map (fun visits => visits.foldl (applyVisit newValue) dats) := by
  induction envs generalizing dats with
  | nil => rfl
  | cons env rest ih =>
    simp only [setReturn,runVisits]
    cases getGlobalId env.param functionName with
    | none => rfl
    | some globalId =>
      simp only
      split
      · rw [indexLoopVisits]
        cases loopVisits functionName globalId env fuel 1 with
        | none => rfl
        | some here =>
          simp only [Option.map_some,bind,Option.bind,ih]
          cases runVisits functionName fuel rest <;> simp
      · exact ih dats

def documentSize (x : XmlFile) : Nat := match x.content with
  | none => 0
  | some content => (universalNewlines content).length

theorem patternFits {pattern : Text} {x : XmlFile} (here : inSomeLine pattern x = true) :
    pattern.length ≤ documentSize x := by
  unfold inSomeLine at here
  unfold documentSize
  cases h : x.content with
  | none => simp [h] at here
  | some content =>
    rw [h] at here
    obtain ⟨l,mem,inside⟩ := List.any_eq_true.mp here
    have fits := (of_decide_eq_true inside).length_le
    have line := (List.sublist_flatten_of_mem mem).length_le
    rw [linesJoin] at line
    exact le_trans fits line

theorem numberFits (functionName : Text) (index : Nat) :
    (Nat.toDigits 10 index).length ≤ (namePattern functionName index).length := by
  have padded : (Nat.toDigits 10 index).length ≤ (formatIndex index).length := by
    rw [formatIndex,List.length_leftpad]
    omega
  have suffix : (formatIndex index).length ≤ (fullFunction functionName index).length := by
    rw [fullFunction,List.length_append]
    omega
  have inside : fullFunction functionName index <:+: namePattern functionName index := ⟨_,_,rfl⟩
  exact le_trans padded (le_trans suffix inside.length_le)

theorem manyDigits {size index : Nat} (late : 10^size ≤ index) : size ≤ (Nat.toDigits 10 index).length := by
  by_contra short
  have positive : 0 < size := by omega
  have few : (Nat.toDigits 10 index).length ≤ size := by omega
  have below := (@Nat.length_toDigits_le_iff 10 index size (by omega) positive).mp few
  omega

/- Long enough test numbers cannot occur in the XML files any more. -/
theorem notFoundLater (functionName : Text) (env : Environment) :
    ∃ bound, ∀ index, bound ≤ index → found functionName env index = false := by
  refine ⟨10^((env.files.map documentSize).sum+1),fun index late => ?_⟩
  rw [found,Bool.eq_false_iff]
  intro some
  obtain ⟨x,mem,here⟩ := List.any_eq_true.mp some
  have inFiles : x ∈ env.files := (env.listed index).subset mem
  have small : documentSize x ≤ (env.files.map documentSize).sum :=
    List.le_sum_of_mem (List.mem_map_of_mem inFiles)
  have long := manyDigits late
  have fits := patternFits here
  have number := numberFits functionName index
  omega

theorem loopVisitsEnough {bound : Nat}
    (stop : ∀ index, bound ≤ index → found functionName env index = false) (distance : Nat) :
    ∀ index, bound ≤ index + distance → ∃ visits, ∀ fuel, distance < fuel →
      loopVisits functionName globalId env fuel index = some visits := by
  induction distance with
  | zero =>
    intro index near
    refine ⟨[],fun fuel enough => ?_⟩
    obtain ⟨fuel,rfl⟩ := Nat.exists_eq_succ_of_ne_zero (Nat.pos_iff_ne_zero.mp enough)
    rw [loopVisits,stop index near]
    rfl
  | succ distance ih =>
    intro index near
    obtain ⟨rest,known⟩ := ih (index+1) (by omega)
    cases more : found functionName env index with
    | false =>
      refine ⟨[],fun fuel enough => ?_⟩
      obtain ⟨fuel,rfl⟩ := Nat.exists_eq_succ_of_ne_zero (Nat.ne_zero_of_lt enough)
      rw [loopVisits,more]
      rfl
    | true =>
      refine ⟨testVisits functionName globalId env index ++ rest,fun fuel enough => ?_⟩
      obtain ⟨fuel,rfl⟩ := Nat.exists_eq_succ_of_ne_zero (Nat.ne_zero_of_lt enough)
      rw [loopVisits,more,known fuel (by omega)]
      rfl

theorem runVisitsEnough (functionName : Text) (envs : List Environment) :
    ∃ enough visits, ∀ fuel, enough ≤ fuel → runVisits functionName fuel envs = some visits := by
  induction envs with
  | nil => exact ⟨0,[],fun _ _ => rfl⟩
  | cons env rest ih =>
    obtain ⟨enough,later,known⟩ := ih
    cases param : getGlobalId env.param functionName with
    | none => exact ⟨0,[],fun fuel _ => by simp only [runVisits,param]⟩
    | some globalId =>
      cases dir : env.isDir with
      | false => exact ⟨enough,later,fun fuel h => by simp [runVisits,param,dir,known fuel h]⟩
      | true =>
        obtain ⟨bound,stop⟩ := notFoundLater functionName env
        obtain ⟨here,loop⟩ := @loopVisitsEnough functionName globalId env bound stop bound 1 (by omega)
        refine ⟨max enough (bound+1),here ++ later,fun fuel h => ?_⟩
        have loop' := loop fuel (by omega)
        have later' := known fuel (by omega)
        simp [runVisits,param,dir,loop',later']

theorem loopVisitsAll {P : Visit → Prop} (each : ∀ x v, visitOf env.stem globalId x = some v → P v)
    {fuel index : Nat} {visits : List Visit}
    (run : loopVisits functionName globalId env fuel index = some visits) : ∀ v ∈ visits, P v := by
  induction fuel generalizing index visits with
  | zero => cases run
  | succ fuel ih =>
    rw [loopVisits] at run
    split at run
    · obtain ⟨rest,later,same⟩ := Option.bind_eq_some_iff.mp run
      cases same
      intro v mem
      rcases List.mem_append.mp mem with here | there
      · obtain ⟨x,_,visit⟩ := List.mem_filterMap.mp here
        exact each x v visit
      · exact ih later v there
    · cases run
      simp

theorem runVisitsAll {P : Visit → Prop} {envs : List Environment}
    (each : ∀ env ∈ envs, ∀ globalId, getGlobalId env.param functionName = some globalId →
      ∀ x v, visitOf env.stem globalId x = some v → P v) {fuel : Nat} {visits : List Visit}
    (run : runVisits functionName fuel envs = some visits) : ∀ v ∈ visits, P v := by
  induction envs generalizing visits with
  | nil =>
    cases run
    simp
  | cons env rest ih =>
    have later := @ih (fun e mem => each e (List.mem_cons_of_mem _ mem))
    cases param : getGlobalId env.param functionName with
    | none =>
      simp only [runVisits,param,Option.some.injEq] at run
      simp [← run]
    | some globalId =>
      simp only [runVisits,param] at run
      split at run
      · obtain ⟨here,loop,run⟩ := Option.bind_eq_some_iff.mp run
        obtain ⟨after,tail,same⟩ := Option.bind_eq_some_iff.mp run
        cases same
        intro v mem
        rcases List.mem_append.mp mem with early | late
        · exact loopVisitsAll (each env List.mem_cons_self globalId param) loop v early
        · exact later tail v late
      · exact later run

end

def keysAt (visits : List Visit) (path : Path) : List (Option Text) :=
  (visits.filter (fun v => v.path = path)).map (·.key)

def updates (newValue : Text) (keys : List (Option Text)) (file : Option DatFile) : Option DatFile :=
  keys.foldl (fun f key => (updateDat newValue key f).1) file

theorem foldAt (newValue : Text) (visits : List Visit) (dats : Dats) (path : Path) :
    visits.foldl (applyVisit newValue) dats path = updates newValue (keysAt visits path) (dats path) := by
  induction visits generalizing dats with
  | nil => rfl
  | cons v visits ih =>
    rw [List.foldl_cons,ih]
    by_cases here : v.path = path
    · simp [keysAt,updates,applyVisit,write,here]
    · simp [keysAt,applyVisit,write,here,Ne.symm here]

end KernelTestTools.SetReturn
