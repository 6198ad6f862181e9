import KernelTestTools.StepRuns

/-! /proc/cgfd and /proc/cgpath: what their write handlers do to the kernel's memory and to
references of cgroups, as a list of events. A ledger of the live buffers and of the held
references says which event is allowed next. -/
namespace KernelTestTools.CgroupWrites
open StepRuns

abbrev Bytes := List UInt8
abbrev Cgroup := Nat

def newline : UInt8 := 10

def cString (memory : Bytes) : Bytes := memory.takeWhile (· != 0)

inductive Errno where
  | enomem
  | efault
  | einval
  | cgroup (code : Nat)
  deriving DecidableEq, Repr

inductive Event where
  | kmalloc (buffer size : Nat)
  | store (buffer : Nat) (first : Int) (length : Nat)
  | kfree (buffer : Nat)
  | getFromFd (fd : Int)
  | getFromPath (path : Bytes)
  | get (cgrp : Cgroup)
  | put (cgrp : Cgroup)
  deriving DecidableEq, Repr

/- One write and how the kernel's functions answer in it. Of the new buffer, its last byte is
as kmalloc left it; the memory behind it holds a NUL somewhere. The kernel limits the count
of a write, so count + 1 does not wrap. -/
structure Write where
  bytes : Bytes
  allocated : Bool
  copied : Bool
  kstrtoint : Bytes → Option Int
  fromFd : Int → Except Errno Cgroup
  fromPath : Bytes → Except Errno Cgroup
  lastByte : UInt8
  behind : Bytes
  ends : 0 ∈ behind

def cgfdWrite (kbuf : Nat) (w : Write) : List Event × Except Errno Nat :=
  let count := w.bytes.length
  if !w.allocated then ([],.error .enomem)
  else
    let filled := [.kmalloc kbuf (count+1),.store kbuf 0 count]
    if !w.copied then (filled ++ [.kfree kbuf],.error .efault)
    else
      let terminated := filled ++ [.store kbuf count 1]
      match w.kstrtoint (cString (w.bytes ++ [0])) with
      | none => (terminated ++ [.kfree kbuf],.error .einval)
      | some fd =>
        let looked := terminated ++ [.kfree kbuf,.getFromFd fd]
        match w.fromFd fd with
        | .error e => (looked,.error e)
        | .ok cgrp => (looked ++ [.get cgrp,.put cgrp],.ok count)

/- kbuf_fpath[count-1] = '\0' and what follows it in memory; an empty buffer is not changed
by the store in front of it. -/
def pathMemory (w : Write) : Bytes := w.bytes.set (w.bytes.length-1) 0 ++ w.lastByte :: w.behind

def cgpathWrite (kbuf : Nat) (w : Write) : List Event × Except Errno Nat :=
  let count := w.bytes.length
  if !w.allocated then ([],.error .enomem)
  else
    let filled := [.kmalloc kbuf (count+1),.store kbuf 0 count]
    if !w.copied then (filled ++ [.kfree kbuf],.error .efault)
    else
      let path := cString (pathMemory w)
      let looked := filled ++ [.store kbuf ((count : Int)-1) 1,.getFromPath path]
      match w.fromPath path with
      | .error e => (looked,.error e)
      | .ok cgrp => (looked ++ [.get cgrp,.put cgrp,.kfree kbuf],.ok count)

structure Ledger where
  live : List (Nat × Nat)
  held : List Cgroup

def Ledger.apply (l : Ledger) : Event → Ledger
  | .kmalloc b size => { l with live := (b,size)::l.live }
  | .kfree b => { l with live := l.live.filter (fun buffer => buffer.1 ≠ b) }
  | .get c => { l with held := c::l.held }
  | .put c => { l with held := l.held.erase c }
  | _ => l

/- Stores stay inside a live buffer, only a live buffer is freed, and only a reference that
is held is put back. -/
def Allowed (l : Ledger) : Event → Prop
  | .kmalloc b _ => ∀ size, (b,size) ∉ l.live
  | .store b first length => ∃ size, (b,size) ∈ l.live ∧ 0 ≤ first ∧ first + length ≤ size
  | .kfree b => ∃ size, (b,size) ∈ l.live
  | .put c => c ∈ l.held
  | _ => True

inductive Call where
  | cgfd (w : Write)
  | cgpath (w : Write)

structure Kernel where
  calls : Nat
  ledger : Ledger

def initial : Kernel := ⟨0,⟨[],[]⟩⟩

def events (kbuf : Nat) : Call → List Event
  | .cgfd w => (cgfdWrite kbuf w).1
  | .cgpath w => (cgpathWrite kbuf w).1

def step (k : Kernel) (call : Call) : Kernel := ⟨k.calls+1,run Ledger.apply k.ledger (events k.calls call)⟩

def Clean (k : Kernel) : Prop := k.ledger.live = [] ∧ k.ledger.held = []

def Event.path? : Event → Option Bytes
  | .getFromPath path => some path
  | _ => none

def writtenPath (w : Write) : Bytes :=
  cString (if w.bytes.getLast? = some newline then w.bytes.dropLast else w.bytes)

def wantedPaths : Call → List Bytes
  | .cgfd _ => []
  | .cgpath w => if w.allocated ∧ w.copied then [writtenPath w] else []

structure RightCall (k : Kernel) (call : Call) : Prop where
  inside : EachStep Ledger.apply Allowed k.ledger (events k.calls call)
  freedOnce : ∀ b size, .kmalloc b size ∈ events k.calls call → (events k.calls call).count (.kfree b) = 1
  balanced : ∀ c, (events k.calls call).count (.get c) = (events k.calls call).count (.put c)
  paths : (events k.calls call).filterMap Event.path? = wantedPaths call

/- When cgpath works: there is a byte to be replaced, it is a line break or the path ends
before it anyhow, and the cgroup is found. -/
def Terminated (w : Write) : Prop := w.bytes ≠ [] ∧ (w.bytes.getLast? = some newline ∨ 0 ∈ w.bytes)

def Meets : Call → Prop
  | .cgfd _ => True
  | .cgpath w => w.allocated = false ∨ w.copied = false ∨
      (Terminated w ∧ ∃ cgrp, w.fromPath (writtenPath w) = .ok cgrp)

theorem cStringAppend (front rest : Bytes) :
    cString (front ++ rest) = if 0 ∈ front then cString front else front ++ cString rest := by
  induction front with
  | nil => rfl
  | cons b front ih =>
    unfold cString at ih ⊢
    by_cases nul : b = 0
    · simp [nul]
    · have more : (b != 0) = true := bne_iff_ne.mpr nul
      simp only [List.cons_append,List.takeWhile_cons,more,if_true,ih,List.mem_cons,Ne.symm nul,false_or]
      split <;> rfl

theorem cStringNul (front rest : Bytes) : cString (front ++ 0::rest) = cString front := by
  have whole := cStringAppend front []
  rw [List.append_nil] at whole
  rw [cStringAppend]
  split
  · rfl
  · rename_i plain
    rw [whole,if_neg plain]
    rfl

theorem cStringLonger (front : Bytes) (b : UInt8) :
    cString front = cString (front ++ [b]) ↔ 0 ∈ front ++ [b] := by
  rw [cStringAppend,List.mem_append]
  split
  · rename_i inside
    exact iff_of_true rfl (.inl inside)
  · rename_i plain
    have whole := cStringAppend front []
    rw [List.append_nil,if_neg plain] at whole
    rw [whole,List.append_cancel_left_eq,List.mem_singleton]
    by_cases nul : b = 0
    · simp [nul,cString]
    · simp [nul,cString,plain,Ne.symm nul]

theorem lookedPath {w : Write} (nonempty : w.bytes ≠ []) :
    cString (pathMemory w) = writtenPath w ↔ w.bytes.getLast? = some newline ∨ 0 ∈ w.bytes := by
  obtain empty | ⟨front,b,split⟩ := w.bytes.eq_nil_or_concat
  · exact absurd empty nonempty
  have last : pathMemory w = front ++ 0::(w.lastByte::w.behind) := by
    simp [pathMemory,split]
  rw [last,cStringNul,writtenPath,split,List.concat_eq_append,List.getLast?_concat,List.dropLast_concat]
  by_cases break' : b = newline
  · simp [break']
  · simp only [Option.some.injEq,break',if_false,false_or]
    exact cStringLonger front b

theorem cgfdEvents (kbuf : Nat) (w : Write) :
    let filled : List Event := [.kmalloc kbuf (w.bytes.length+1),.store kbuf 0 w.bytes.length]
    let freed : List Event := [.store kbuf w.bytes.length 1,.kfree kbuf]
    (cgfdWrite kbuf w).1 = [] ∨ (cgfdWrite kbuf w).1 = filled ++ [.kfree kbuf] ∨
      (cgfdWrite kbuf w).1 = filled ++ freed ∨
      (∃ fd, (cgfdWrite kbuf w).1 = filled ++ freed ++ [.getFromFd fd]) ∨
      ∃ fd cgrp, (cgfdWrite kbuf w).1 = filled ++ freed ++ [.getFromFd fd,.get cgrp,.put cgrp] := by
  intro filled freed
  unfold cgfdWrite
  split
  · exact .inl rfl
  right
  split
  · exact .inl rfl
  right
  split
  · exact .inl rfl
  rename_i fd _
  right
  split
  · exact .inl ⟨fd,rfl⟩
  · rename_i cgrp _
    exact .inr ⟨fd,cgrp,rfl⟩

theorem cgfdRight (n : Nat) (w : Write) :
    RightCall ⟨n,⟨[],[]⟩⟩ (.cgfd w) ∧ Clean (step ⟨n,⟨[],[]⟩⟩ (.cgfd w)) := by
  have same : events n (.cgfd w) = (cgfdWrite n w).1 := rfl
  have ways := cgfdEvents n w
  rw [← same] at ways
  obtain way | way | way | ⟨fd,way⟩ | ⟨fd,cgrp,way⟩ := ways
  all_goals
    refine ⟨⟨?_,?_,?_,?_⟩,?_⟩ <;>
      simp [way,eachStepCons,eachStepNil,Allowed,Ledger.apply,Event.path?,wantedPaths,List.count_cons,Clean,step,run]

section
variable {n : Nat} {w : Write}

theorem cgpathFails (fails : w.allocated = false ∨ w.copied = false) :
    RightCall ⟨n,⟨[],[]⟩⟩ (.cgpath w) ∧ Clean (step ⟨n,⟨[],[]⟩⟩ (.cgpath w)) := by
  have ways : events n (.cgpath w) = [] ∨ events n (.cgpath w) =
      [.kmalloc n (w.bytes.length+1),.store n 0 w.bytes.length,.kfree n] := by
    cases allocated : w.allocated with
    | false => exact .inl (by simp [events,cgpathWrite,allocated])
    | true =>
      have copied : w.copied = false := by simpa [allocated] using fails
      exact .inr (by simp [events,cgpathWrite,allocated,copied])
  have none : wantedPaths (.cgpath w) = [] := by
    rcases fails with fails | fails <;> simp [wantedPaths,fails]
  obtain way | way := ways
  all_goals
    refine ⟨⟨?_,?_,?_,?_⟩,?_⟩ <;>
      simp [way,none,eachStepCons,eachStepNil,Allowed,Ledger.apply,Event.path?,List.count_cons,Clean,step,run]

theorem cgpathEvents (allocated : w.allocated = true) (copied : w.copied = true) : events n (.cgpath w) =
    [.kmalloc n (w.bytes.length+1),.store n 0 w.bytes.length,.store n ((w.bytes.length : Int)-1) 1,
        .getFromPath (cString (pathMemory w))] ++
      (match w.fromPath (cString (pathMemory w)) with
        | .error _ => []
        | .ok cgrp => [.get cgrp,.put cgrp,.kfree n]) := by
  cases found : w.fromPath (cString (pathMemory w)) <;> simp [events,cgpathWrite,allocated,copied,found]

theorem cgpathFilled (allocated : w.allocated = true) (copied : w.copied = true) :
    RightCall ⟨n,⟨[],[]⟩⟩ (.cgpath w) ∧ Clean (step ⟨n,⟨[],[]⟩⟩ (.cgpath w)) ↔
      w.bytes ≠ [] ∧ cString (pathMemory w) = writtenPath w ∧
        ∃ cgrp, w.fromPath (cString (pathMemory w)) = .ok cgrp := by
  have shape := @cgpathEvents n w allocated copied
  have wanted : wantedPaths (.cgpath w) = [writtenPath w] := by simp [wantedPaths,allocated,copied]
  constructor
  · intro both
    obtain ⟨⟨inside,freed,_,paths⟩,_⟩ := both
    cases found : w.fromPath (cString (pathMemory w)) with
    | error e =>
      rw [found] at shape
      have once := freed n (w.bytes.length+1) (by simp [shape])
      simp [shape] at once
    | ok cgrp =>
      rw [found] at shape
      refine ⟨fun empty => ?_,?_,cgrp,rfl⟩
      · rw [shape,empty] at inside
        simp [eachStepCons,Allowed,Ledger.apply] at inside
      · rw [shape,wanted] at paths
        exact List.singleton_injective paths
  · intro all
    obtain ⟨nonempty,path,cgrp,found⟩ := all
    have some := List.length_pos_iff.mpr nonempty
    rw [found,path] at shape
    refine ⟨⟨?_,?_,?_,?_⟩,?_⟩
    · simp only [shape,List.cons_append,List.nil_append,eachStepCons,eachStepNil,Allowed,Ledger.apply]
      simp
      omega
    · simp [shape,List.count_cons]
    · simp [shape,List.count_cons]
    · rw [shape,wanted]
      rfl
    · simp [shape,Clean,step,run,Ledger.apply]

end

theorem stepExactly (k : Kernel) (call : Call) (clean : Clean k) :
    RightCall k call ∧ Clean (step k call) ↔ Meets call := by
  obtain ⟨n,⟨live,held⟩⟩ := k
  obtain ⟨rfl,rfl⟩ : live = [] ∧ held = [] := clean
  cases call with
  | cgfd w => exact iff_of_true (cgfdRight n w) trivial
  | cgpath w =>
    cases allocated : w.allocated with
    | false => exact iff_of_true (cgpathFails (.inl allocated)) (.inl allocated)
    | true =>
      cases copied : w.copied with
      | false => exact iff_of_true (cgpathFails (.inr copied)) (.inr (.inl copied))
      | true =>
        rw [cgpathFilled allocated copied]
        simp only [Meets,Terminated,allocated,copied,reduceCtorEq,false_or,and_assoc]
        refine and_congr_right (fun nonempty => ?_)
        rw [← lookedPath nonempty]
        exact and_congr_right (fun path => by rw [path])

theorem writesExactly (calls : List Call) :
    EachStep step RightCall initial calls ∧ EachState step Clean initial calls ↔ ∀ call ∈ calls, Meets call := by
  rw [rightExactly stepExactly ⟨rfl,rfl⟩]
  exact eachStepMember

def writeOf (bytes : Bytes) (found : Except Errno Cgroup) : Write :=
  ⟨bytes,true,true,fun _ => none,fun _ => found,fun _ => found,0,[0],List.mem_singleton_self 0⟩

/- /ab is looked up as /a. -/
theorem pathShortened :
    cgpathWrite 0 (writeOf [0x2f,0x61,0x62] (.ok 1)) = ([.kmalloc 0 4,.store 0 0 3,.store 0 2 1,
        .getFromPath [0x2f,0x61],.get 1,.put 1,.kfree 0],.ok 3) ∧
      ¬(EachStep step RightCall initial [.cgpath (writeOf [0x2f,0x61,0x62] (.ok 1))] ∧
        EachState step Clean initial [.cgpath (writeOf [0x2f,0x61,0x62] (.ok 1))]) := by
  refine ⟨by decide,fun both => ?_⟩
  have paths := (both.1 [] _ [] rfl).paths
  revert paths
  decide

example : (step initial (.cgpath (writeOf [0x2f,0x61,newline] (.error (.cgroup 2))))).ledger.live = [(0,4)] := by
  decide

end KernelTestTools.CgroupWrites
