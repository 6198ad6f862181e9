import Mathlib.Data.List.Count
import KernelTestTools.StepRuns

/-! /proc/perf_fd among the processes that use it. Descriptors of any process name open
files; a perf event belongs to its file, and closing the last descriptor of the file
releases it. A run is a sequence of whole calls. -/
namespace KernelTestTools.PerfFd
open StepRuns

abbrev Bytes := List UInt8

inductive Kind where
  | perfEvent
  | other (privateData : Bool)
  deriving DecidableEq, Repr

structure Descriptor where
  process : Nat
  fd : Nat
  file : Nat
  deriving DecidableEq, Repr

inductive Object where
  | event (file : Nat)
  | foreign (file : Nat)
  deriving DecidableEq, Repr

/- Files are numbered as they are opened; released lists an event once for each release.
The static variable of the module is event. -/
structure Sys where
  descriptors : List Descriptor
  kinds : List Kind
  released : List Nat
  event : Option Object
  opened : ∀ d ∈ descriptors, d.file < kinds.length
  past : ∀ e ∈ released, e < kinds.length

def initial : Sys := ⟨[],[],[],none,by simp,by simp⟩

def Owned (descriptors : List Descriptor) (file : Nat) : Prop := ∃ d ∈ descriptors, d.file = file

instance (descriptors file) : Decidable (Owned descriptors file) := by unfold Owned; infer_instance

def named (process : Nat) (fd : Int) (d : Descriptor) : Bool := decide (d.process = process ∧ (d.fd : Int) = fd)

def fget (s : Sys) (process : Nat) (fd : Int) : Option Descriptor := s.descriptors.find? (named process fd)

theorem fgetOpen {s : Sys} {process fd d} (found : fget s process fd = some d) : d ∈ s.descriptors :=
  List.mem_of_find?_eq_some found

def privateData (s : Sys) (file : Nat) : Option Object := match s.kinds[file]? with
  | some .perfEvent => some (.event file)
  | some (.other true) => some (.foreign file)
  | _ => none

/- perf_event_release_kernel: the owner's reference is dropped. -/
def releaseKernel (s : Sys) : Object → Sys
  | .event e => if known : e < s.kinds.length then
      { s with
        released := e::s.released
        past := by
          intro x mem
          rcases List.mem_cons.mp mem with rfl | earlier
          · exact known
          · exact s.past x earlier }
    else s
  | .foreign _ => s

def openFile (s : Sys) (process fd : Nat) (kind : Kind) : Sys :=
  if (fget s process fd).isSome then s
  else
    { s with
      descriptors := ⟨process,fd,s.kinds.length⟩::s.descriptors
      kinds := s.kinds ++ [kind]
      opened := by
        intro d mem
        rw [List.length_append]
        rcases List.mem_cons.mp mem with rfl | earlier
        · simp
        · exact Nat.lt_add_right _ (s.opened d earlier)
      past := by
        intro e mem
        rw [List.length_append]
        exact Nat.lt_add_right _ (s.past e mem) }

/- dup, fork or a passed descriptor: a free number, of the same or another process, is
bound to a file that is open. -/
def shareFile (s : Sys) (process fd toProcess toFd : Nat) : Sys :=
  if (fget s toProcess toFd).isSome then s
  else match found : fget s process fd with
    | none => s
    | some d =>
      { s with
        descriptors := ⟨toProcess,toFd,d.file⟩::s.descriptors
        opened := by
          intro x mem
          rcases List.mem_cons.mp mem with rfl | earlier
          · exact s.opened d (fgetOpen found)
          · exact s.opened x earlier }

def dropDescriptor (s : Sys) (process fd : Nat) : Sys :=
  { s with
    descriptors := s.descriptors.eraseP (named process fd)
    opened := fun d mem => s.opened d (List.mem_of_mem_eraseP mem) }

/- The last descriptor of a perf file releases its event. -/
def closeFd (s : Sys) (process fd : Nat) : Sys := match fget s process fd with
  | none => s
  | some d =>
    if Owned (dropDescriptor s process fd).descriptors d.file then dropDescriptor s process fd
    else match privateData s d.file with
      | some (.event e) => releaseKernel (dropDescriptor s process fd) (.event e)
      | _ => dropDescriptor s process fd

inductive Errno where
  | eperm
  | enoent
  | einval
  | efault
  deriving DecidableEq, Repr

structure Write where
  process : Nat
  buffer : Bytes
  copyFails : Bool
  begins : Bool
  deriving DecidableEq, Repr

structure Written where
  sys : Sys
  result : Except Errno Nat
  handed : Option Object

section
variable (kstrtoint : Bytes → Option Int)

def perfFdWrite (s : Sys) (w : Write) : Written :=
  if w.buffer.length > 15 then ⟨s,.error .einval,none⟩
  else if w.copyFails then ⟨s,.error .efault,none⟩
  else match kstrtoint (w.buffer.takeWhile (· != 0)) with
    | none => ⟨s,.error .einval,none⟩
    | some fd => match fget s w.process fd with
      | none => ⟨s,.error .enoent,none⟩
      | some f => match privateData s f.file with
        | none => ⟨s,.error .enoent,none⟩
        | some evt =>
          if w.begins then ⟨{ s with event := some evt },.ok w.buffer.length,some evt⟩
          else ⟨releaseKernel { s with event := some evt } evt,.error .eperm,some evt⟩

inductive Op where
  | open' (process fd : Nat) (kind : Kind)
  | share (process fd toProcess toFd : Nat)
  | close (process fd : Nat)
  | write (w : Write)

def step (s : Sys) : Op → Sys
  | .open' process fd kind => openFile s process fd kind
  | .share process fd toProcess toFd => shareFile s process fd toProcess toFd
  | .close process fd => closeFd s process fd
  | .write w => (perfFdWrite kstrtoint s w).sys

def Right (s : Sys) : Op → Prop
  | .write w => ∀ object, (perfFdWrite kstrtoint s w).handed = some object →
    ∃ e, object = .event e ∧ e ∉ s.released
  | _ => True

/- Every perf event: not released while a descriptor owns it, released once after that. -/
def Accounted (s : Sys) : Prop := ∀ e, s.kinds[e]? = some .perfEvent →
  s.released.count e = if Owned s.descriptors e then 0 else 1

/- A write that reaches an open file with private data names a perf event, and
perf_aux_output_begin succeeds. -/
def Meets (s : Sys) : Op → Prop
  | .write w => w.buffer.length ≤ 15 → w.copyFails = false →
    ∀ fd f evt, kstrtoint (w.buffer.takeWhile (· != 0)) = some fd → fget s w.process fd = some f →
      privateData s f.file = some evt → s.kinds[f.file]? = some .perfEvent ∧ w.begins = true
  | _ => True

end

theorem ownedCons {d : Descriptor} {descriptors : List Descriptor} {e : Nat} :
    Owned (d::descriptors) e ↔ d.file = e ∨ Owned descriptors e := by
  simp [Owned]

theorem ownedAppend {front back : List Descriptor} {e : Nat} :
    Owned (front ++ back) e ↔ Owned front e ∨ Owned back e := by
  simp only [Owned,List.mem_append,or_and_right,exists_or]

/- Kinds, releases and ownership of the perf events are all that the account looks at. -/
theorem accountedFrame {s t : Sys} (accounted : Accounted s) (kinds : t.kinds = s.kinds)
    (released : t.released = s.released)
    (owned : ∀ e, Owned t.descriptors e ↔ Owned s.descriptors e) : Accounted t := by
  simpa only [Accounted,kinds,released,owned] using accounted

theorem openAccounted {s : Sys} (accounted : Accounted s) (process fd : Nat) (kind : Kind) :
    Accounted (openFile s process fd kind) := by
  rw [openFile]
  split
  · exact accounted
  · intro e perf
    change (s.kinds ++ [kind])[e]? = _ at perf
    change s.released.count e = if Owned (_::s.descriptors) e then 0 else 1
    rcases Nat.lt_or_ge e s.kinds.length with earlier | here
    · rw [List.getElem?_append_left earlier] at perf
      have other : s.kinds.length ≠ e := by omega
      have owned : Owned (⟨process,fd,s.kinds.length⟩::s.descriptors) e ↔ Owned s.descriptors e :=
        ownedCons.trans (or_iff_right other)
      simp only [owned]
      exact accounted e perf
    · have inside : e < (s.kinds ++ [kind]).length := (List.getElem?_eq_some_iff.mp perf).1
      have last : s.kinds.length = e := by
        rw [List.length_append,List.length_singleton] at inside
        omega
      have owned : Owned (⟨process,fd,s.kinds.length⟩::s.descriptors) e := ownedCons.mpr (.inl last)
      have fresh : e ∉ s.released := fun mem => absurd (s.past e mem) (by omega)
      rw [if_pos owned,List.count_eq_zero.mpr fresh]

theorem shareAccounted {s : Sys} (accounted : Accounted s) (process fd toProcess toFd : Nat) :
    Accounted (shareFile s process fd toProcess toFd) := by
  rw [shareFile]
  split
  · exact accounted
  · split
    · exact accounted
    · rename_i d found
      refine accountedFrame accounted rfl rfl (fun e => ?_)
      change Owned (⟨toProcess,toFd,d.file⟩::s.descriptors) e ↔ Owned s.descriptors e
      rw [ownedCons]
      exact or_iff_right_of_imp (fun same => ⟨d,fgetOpen found,same⟩)

/- Closing takes away one descriptor, so it can orphan only that descriptor's file. -/
theorem ownedErase {descriptors : List Descriptor} {chosen : Descriptor → Bool} {d : Descriptor}
    (found : descriptors.find? chosen = some d) {e : Nat} (other : e ≠ d.file) :
    Owned (descriptors.eraseP chosen) e ↔ Owned descriptors e := by
  obtain ⟨here,front,back,rfl,skipped⟩ := List.find?_eq_some_iff_append.mp found
  have skip : ∀ x ∈ front, ¬ chosen x = true := fun x mem => by simpa using skipped x mem
  have erased : (front ++ d::back).eraseP chosen = front ++ back := by
    rw [List.eraseP_append_right _ skip,List.eraseP_cons_of_pos here]
  rw [erased,ownedAppend,ownedAppend,ownedCons,or_iff_right other.symm]

theorem privateEvent {s : Sys} {file : Nat} {e : Nat} :
    privateData s file = some (.event e) ↔ s.kinds[file]? = some .perfEvent ∧ file = e := by
  unfold privateData
  split <;> simp_all

theorem releasedEvent {s : Sys} {e : Nat} (known : e < s.kinds.length) :
    (releaseKernel s (.event e)).released = e::s.released ∧
      (releaseKernel s (.event e)).kinds = s.kinds ∧
      (releaseKernel s (.event e)).descriptors = s.descriptors := by
  simp [releaseKernel,known]

theorem closeAccounted {s : Sys} (accounted : Accounted s) (process fd : Nat) :
    Accounted (closeFd s process fd) := by
  rw [closeFd]
  split
  · exact accounted
  · rename_i d found
    have before : Owned s.descriptors d.file := ⟨d,fgetOpen found,rfl⟩
    have others : ∀ e, e ≠ d.file →
        (Owned (dropDescriptor s process fd).descriptors e ↔ Owned s.descriptors e) :=
      fun e other => ownedErase found other
    split
    · rename_i still
      refine accountedFrame accounted rfl rfl (fun e => ?_)
      by_cases same : e = d.file
      · rw [same]
        exact iff_of_true still before
      · exact others e same
    · rename_i gone
      split
      · rename_i e own
        obtain ⟨perf,same⟩ := privateEvent.mp own
        have known : e < (dropDescriptor s process fd).kinds.length := same ▸ s.opened d (fgetOpen found)
        obtain ⟨released,kinds,descriptors⟩ := releasedEvent known
        intro x event
        rw [kinds] at event
        rw [released,descriptors,List.count_cons]
        have count := accounted x event
        by_cases last : x = d.file
        · rw [last,if_pos before] at count
          rw [last,if_neg gone]
          change s.released.count d.file + _ = 1
          rw [count,same]
          simp
        · have other : e ≠ x := fun h => last (h ▸ same.symm)
          simp only [others x last]
          change s.released.count x + _ = _
          simp [count,other]
      · rename_i foreign
        intro x event
        have other : x ≠ d.file := by
          intro last
          rw [last] at event
          exact foreign d.file (privateEvent.mpr ⟨event,rfl⟩)
        simp only [others x other]
        exact accounted x event

theorem writeForms (kstrtoint : Bytes → Option Int) (s : Sys) (w : Write) :
    ((perfFdWrite kstrtoint s w).sys = s ∧ (perfFdWrite kstrtoint s w).handed = none ∧
      Meets kstrtoint s (.write w)) ∨
    ∃ f evt, f ∈ s.descriptors ∧ privateData s f.file = some evt ∧
      (perfFdWrite kstrtoint s w).handed = some evt ∧
      (perfFdWrite kstrtoint s w).sys = (if w.begins then { s with event := some evt }
        else releaseKernel { s with event := some evt } evt) ∧
      (Meets kstrtoint s (.write w) ↔ s.kinds[f.file]? = some .perfEvent ∧ w.begins = true) := by
  by_cases long : w.buffer.length > 15
  · left
    refine ⟨by simp [perfFdWrite,long],by simp [perfFdWrite,long],fun fits => ?_⟩
    omega
  by_cases fails : w.copyFails = true
  · left
    refine ⟨by simp [perfFdWrite,long,fails],by simp [perfFdWrite,long,fails],fun _ copies => ?_⟩
    rw [fails] at copies
    cases copies
  have fits : w.buffer.length ≤ 15 := by omega
  cases parsed : kstrtoint (w.buffer.takeWhile (· != 0)) with
  | none =>
    left
    refine ⟨by simp [perfFdWrite,long,fails,parsed],by simp [perfFdWrite,long,fails,parsed],?_⟩
    intro _ _ fd f evt number
    rw [parsed] at number
    cases number
  | some fd =>
    cases found : fget s w.process fd with
    | none =>
      left
      refine ⟨by simp [perfFdWrite,long,fails,parsed,found],
        by simp [perfFdWrite,long,fails,parsed,found],?_⟩
      intro _ _ n f evt number reached
      rw [← Option.some.inj (parsed.symm.trans number),found] at reached
      cases reached
    | some f =>
      cases data : privateData s f.file with
      | none =>
        left
        refine ⟨by simp [perfFdWrite,long,fails,parsed,found,data],
          by simp [perfFdWrite,long,fails,parsed,found,data],?_⟩
        intro _ _ n g evt number reached pointed
        rw [← Option.some.inj (parsed.symm.trans number),found] at reached
        cases reached
        rw [data] at pointed
        cases pointed
      | some evt =>
        right
        refine ⟨f,evt,fgetOpen found,data,?_,?_,?_⟩
        · cases begins : w.begins <;> simp [perfFdWrite,long,fails,parsed,found,data,begins]
        · cases begins : w.begins <;> simp [perfFdWrite,long,fails,parsed,found,data,begins]
        · constructor
          · intro meets
            exact meets fits (by simpa using fails) fd f evt parsed found data
          · intro both _ _ n g x number reached _
            rw [← Option.some.inj (parsed.symm.trans number),found] at reached
            cases reached
            exact both

theorem initialAccounted : Accounted initial := by
  intro e perf
  cases perf

theorem writeAccounted {kstrtoint : Bytes → Option Int} {s : Sys} (accounted : Accounted s) (w : Write) :
    Right kstrtoint s (.write w) ∧ Accounted (perfFdWrite kstrtoint s w).sys ↔
      Meets kstrtoint s (.write w) := by
  rcases writeForms kstrtoint s w with ⟨same,none,meets⟩ | ⟨f,evt,opened,data,handed,after,meets⟩
  · refine iff_of_true ⟨fun object some => ?_,by rw [same]; exact accounted⟩ meets
    rw [none] at some
    cases some
  rw [meets,after]
  have owned : Owned s.descriptors f.file := ⟨f,opened,rfl⟩
  constructor
  · intro both
    obtain ⟨right,kept⟩ := both
    obtain ⟨e,rfl,_⟩ := right evt handed
    obtain ⟨perf,same⟩ := privateEvent.mp data
    refine ⟨perf,?_⟩
    by_contra fails
    rw [if_neg fails] at kept
    have known : e < ({ s with event := some (.event e) } : Sys).kinds.length :=
      same ▸ s.opened f opened
    obtain ⟨released,kinds,descriptors⟩ := releasedEvent known
    have count := kept e (by rw [kinds]; exact same ▸ perf)
    rw [released,descriptors,List.count_cons_self,if_pos (same ▸ owned)] at count
    omega
  · intro both
    obtain ⟨perf,begins⟩ := both
    have event := data.symm.trans (privateEvent.mpr ⟨perf,rfl⟩)
    cases event
    have alive := accounted f.file perf
    rw [if_pos owned,List.count_eq_zero] at alive
    refine ⟨fun object some => ?_,?_⟩
    · rw [handed] at some
      cases some
      exact ⟨f.file,rfl,alive⟩
    · rw [if_pos begins]
      exact accountedFrame accounted rfl rfl (fun _ => Iff.rfl)

theorem stepExactly (kstrtoint : Bytes → Option Int) (s : Sys) (op : Op) (accounted : Accounted s) :
    Right kstrtoint s op ∧ Accounted (step kstrtoint s op) ↔ Meets kstrtoint s op := by
  cases op with
  | open' process fd kind => exact iff_of_true ⟨trivial,openAccounted accounted process fd kind⟩ trivial
  | share process fd toProcess toFd =>
    exact iff_of_true ⟨trivial,shareAccounted accounted process fd toProcess toFd⟩ trivial
  | close process fd => exact iff_of_true ⟨trivial,closeAccounted accounted process fd⟩ trivial
  | write w => exact writeAccounted accounted w

theorem ownershipExactly (kstrtoint : Bytes → Option Int) (ops : List Op) :
    EachStep (step kstrtoint) (Right kstrtoint) initial ops ∧
        EachState (step kstrtoint) Accounted initial ops ↔
      EachStep (step kstrtoint) (Meets kstrtoint) initial ops :=
  rightExactly (stepExactly kstrtoint) initialAccounted ops

def decimal (text : Bytes) : Option Int :=
  if text ≠ [] ∧ text.all (fun c => 48 ≤ c.toNat && c.toNat < 58) then
    some (text.foldl (fun n c => 10*n + (c.toNat - 48)) 0 : Nat)
  else none

/- The event of descriptor 3 is released by the module while the descriptor owns it, and
once more when it is closed. -/
def failedBegin : List Op :=
  [.open' 1 3 .perfEvent,.write ⟨1,[51],false,false⟩,.close 1 3]

theorem releasedTwice : ¬ (EachStep (step decimal) (Right decimal) initial failedBegin ∧
    EachState (step decimal) Accounted initial failedBegin) := by
  intro both
  have final := both.2 failedBegin [] rfl 0 (by decide)
  exact absurd final (by decide)

end KernelTestTools.PerfFd
