import KernelTestTools.OwnedObjects

/-! The kernel modules of the tests: what module_init takes hold of and gives back on each of
its paths, and what module_exit gives back. The functions under test take and give nothing,
but for those that begin an output, count a user or allocate pages. Uses of an object with
no release between them are one use. -/
namespace KernelTestTools.KernelModules
open OwnedObjects

inductive Kind where
  | event
  | memory
  | page
  | folio
  | file
  | cgroup
  | pid
  | task
  | mmapLock
  | pmu
  | blkcgPolicy
  | guestCallbacks
  | notifier
  | procEntry
  | thread
  | workqueue
  | outputHandle
  | mm
  | vma
  | schedCallback
  deriving DecidableEq, Repr

abbrev Kernel := World Kind

def esrch : Int := -3
def enomem : Int := -12
def efault : Int := -14
def einval : Int := -22

def orNull (_ : Int) : Pointer := .null

/- A module that keeps one object: what init returns when it gets NULL (none where it gets an
error pointer and returns its code), whether it asks for event->ctx, whether the function
under test may fail and what init returns then (the code of that function or its own), whether
exit tests the pointer, and where the object is used. -/
structure HeldModule where
  kind : Kind := .event
  missing : Option Int := none
  used : Bool := true
  checksContext : Bool := false
  failed : Option (Option Int) := none
  guarded : Bool := false
  usedAtExit : Bool := false
  negative : ∀ code ∈ missing.toList ++ failed.join.toList, code < 0 := by decide

def HeldModule.refused (m : HeldModule) (p : Pointer) : Bool := match m.missing with
  | none => p.isErr
  | some _ => p = .null

def useIf (used : Bool) (kind : Kind) (p : Pointer) (w : Kernel) : Kernel := if used then w.use kind p else w

def HeldModule.test (m : HeldModule) (p : Pointer) (w : Kernel) : Started Kind Pointer := match m.failed with
  | none => ⟨0,p,useIf m.used m.kind p w⟩
  | some failed => (w.use m.kind p).call fun ret w =>
    if ret ≠ 0 then ⟨failed.getD ret,p,w.release m.kind p⟩ else ⟨0,p,w⟩

def HeldModule.init (m : HeldModule) (w : Kernel) : Started Kind Pointer :=
  w.grant m.kind (if m.missing.isSome then orNull else .error) fun p w =>
  if m.refused p then ⟨m.missing.getD p.code,p,w⟩
  else if m.checksContext then
    (w.use m.kind p).ask fun ctx w =>
    if ctx < 0 then ⟨einval,p,w.release m.kind p⟩ else m.test p w
  else m.test p w

def HeldModule.exit (m : HeldModule) (p : Pointer) (w : Kernel) : Kernel :=
  if m.guarded && p = .null then w else (useIf m.usedAtExit m.kind p w).release m.kind p

def perfEventCreateKernelCounterTst : HeldModule := { used := false, guarded := true }
def perfEventReadValueTst : HeldModule := { usedAtExit := true }
def koPerfEventRefresh : HeldModule := { failed := some none, guarded := true }
def koPerfEventEnable : HeldModule := { checksContext := true, guarded := true, usedAtExit := true }
def koPerfEventStop : HeldModule := {}
def koPerfEventMatch : HeldModule := { guarded := true, usedAtExit := true }
def koPerfEventInactive : HeldModule := { checksContext := true }
def koPerfRotateCtx : HeldModule := { checksContext := true }
def koPerfEventReadEvent : HeldModule := { guarded := true }
def koPerfEventReadLocal : HeldModule := { checksContext := true }
def koPerfGroupUpdateUserpage : HeldModule := { checksContext := true, failed := some (some einval) }
def koPerfEventFunctionLocal : HeldModule := {}
def koPerfEventAddrFiltersSync : HeldModule := { checksContext := true }
def perfMmapOpenTst : HeldModule := { kind := .memory, missing := some enomem }
def perfPmuUnregisterTst : HeldModule := { kind := .pmu, used := false }
def rawNotifierCallchainRobust : HeldModule := { kind := .notifier }
def procCreate : HeldModule := { kind := .procEntry, missing := some enomem, used := false }
def ctestTaskJoinStop : HeldModule := { kind := .thread, used := false, guarded := true }
def ctestSignalExitSignals : HeldModule := { kind := .workqueue, missing := some enomem, usedAtExit := true }

def borrow (kind : Kind) (w : Kernel) : Started Kind Unit :=
  w.grant kind .error fun p w =>
  if p.isErr then ⟨p.code,(),w⟩ else ⟨0,(),(w.use kind p).release kind p⟩

def cgroupv2FinalizeControl : Kernel → Started Kind Unit := borrow .cgroup
def ctestCgroupGetFromId : Kernel → Started Kind Unit := borrow .cgroup
def cgroupv2RmCftypes : Kernel → Started Kind Unit := borrow .blkcgPolicy

def koPerfSwapPtr (w : Kernel) : Started Kind Unit :=
  w.grant .memory orNull fun temp1 w =>
  if temp1 = .null then ⟨enomem,(),w⟩
  else w.grant .memory orNull fun temp2 w =>
    if temp2 = .null then ⟨enomem,(),w.free .memory temp1⟩
    else ⟨0,(),(w.free .memory temp1).free .memory temp2⟩

def perfLessGroupIdxTst (w : Kernel) : Started Kind Unit :=
  w.grant .memory orNull fun event1 w =>
  w.grant .memory orNull fun event2 w =>
  if event1 = .null ∨ event2 = .null then ⟨enomem,(),(w.free .memory event1).free .memory event2⟩
  else
    w.grant .memory orNull fun events w =>
    if events = .null then ⟨enomem,(),(w.free .memory event1).free .memory event2⟩
    else
      let w := ((w.use .memory event1).use .memory event2).use .memory events
      ⟨0,(),((w.free .memory events).free .memory event1).free .memory event2⟩

structure Notifiers where
  nb1 : Pointer
  nb2 : Pointer

def rawNotifierChainTst (w : Kernel) : Started Kind Notifiers :=
  w.grant .notifier .error fun nb1 w =>
  if nb1.isErr then ⟨nb1.code,⟨nb1,.null⟩,w⟩
  else w.grant .notifier .error fun nb2 w =>
    if nb2.isErr then ⟨nb2.code,⟨nb1,nb2⟩,w.release .notifier nb1⟩ else ⟨0,⟨nb1,nb2⟩,w⟩

def rawNotifierChainTstExit (s : Notifiers) (w : Kernel) : Kernel :=
  (w.release .notifier s.nb1).release .notifier s.nb2

structure RobustNotifiers where
  nb1 : Pointer
  nb2 : Pointer
  nb3 : Pointer

def rawNotifierCallChainRobustTst (w : Kernel) : Started Kind RobustNotifiers :=
  w.grant .notifier .error fun nb1 w =>
  if nb1.isErr then ⟨nb1.code,⟨nb1,.null,.null⟩,w⟩
  else w.grant .notifier .error fun nb2 w =>
    if nb2.isErr then ⟨nb2.code,⟨nb1,nb2,.null⟩,w.release .notifier nb1⟩
    else w.grant .notifier .error fun nb3 w =>
      if nb3.isErr then ⟨nb3.code,⟨nb1,nb2,nb3⟩,(w.release .notifier nb1).release .notifier nb2⟩
      else ⟨0,⟨nb1,nb2,nb3⟩,w⟩

def rawNotifierCallChainRobustTstExit (s : RobustNotifiers) (w : Kernel) : Kernel :=
  ((w.release .notifier s.nb1).release .notifier s.nb2).release .notifier s.nb3

structure SigtrapEvent where
  testEvent : Pointer
  ctx : Pointer

/- overflow_func is a constant address. -/
def perfSigtrap (w : Kernel) : Started Kind SigtrapEvent :=
  w.grant .memory orNull fun testEvent w =>
  if testEvent = .null then ⟨enomem,⟨testEvent,.null⟩,w⟩
  else (w.use .memory testEvent).grant .memory orNull fun ctx w =>
    if ctx = .null then ⟨enomem,⟨testEvent,ctx⟩,w.free .memory testEvent⟩
    else ⟨0,⟨testEvent,ctx⟩,(w.use .memory ctx).use .memory testEvent⟩

def perfSigtrapExit (s : SigtrapEvent) (w : Kernel) : Kernel :=
  ((w.use .memory s.testEvent).free .memory s.ctx).free .memory s.testEvent

/- The modules that follow lose or misuse something. -/

/- perf_aux_output_begin gives NULL where no output begins, which is not asked for; an output
that has begun is never ended. -/
def perfRingbufferAuxOpBegin (w : Kernel) : Started Kind Pointer :=
  w.grant .event orNull fun event w =>
  if event = .null then ⟨enomem,event,w⟩
  else (w.use .event event).grant .outputHandle orNull fun handle w => ⟨0,event,w.use .outputHandle handle⟩

def perfRingbufferAuxOpBeginExit (event : Pointer) (w : Kernel) : Kernel :=
  if event = .null then w else (w.use .event event).release .event event

/- perf_output_skip gets a handle that was never set. -/
def koPerfOutputSkip (w : Kernel) : Started Kind Unit :=
  w.grant .event .error fun event w =>
  if event.isErr then ⟨event.code,(),w⟩
  else ⟨0,(),(w.misuse .outputHandle .null).release .event event⟩

/- fd is the parameter of the module: what private_data leads to is an event only if the file
is an event's. -/
def koPerfPmuResched (w : Kernel) : Started Kind Unit :=
  w.grant .file orNull fun eventFile w =>
  if eventFile = .null then ⟨einval,(),w⟩
  else (w.use .file eventFile).ask fun event w =>
    if event < 0 then ⟨einval,(),w.release .file eventFile⟩
    else (w.expect .event).ask fun pmu w =>
      if pmu < 0 then ⟨einval,(),w.release .file eventFile⟩ else ⟨0,(),w.release .file eventFile⟩

/- &task->mm->mmap_lock, with no reference to the task or to its mm, which may be NULL. -/
def taskMm (w : Kernel) : Kernel := (w.expect .task).expect .mm

/- pid is the parameter of the module. vma->vm_policy is put back when the lock is released. -/
def ctestCgroupCpusetVmaAlloc (w : Kernel) : Started Kind Unit :=
  w.ask fun pid w =>
  if pid < 0 then ⟨einval,(),w⟩
  else w.ask fun task w =>
    if task < 0 then ⟨esrch,(),w⟩
    else (taskMm w).take .mmapLock fun lock w => (taskMm w).ask fun vma w =>
      if vma < 0 then ⟨-1,(),(taskMm w).release .mmapLock lock⟩
      else w.grant .memory orNull fun pol w =>
        if pol = .null then ⟨enomem,(),(taskMm w).release .mmapLock lock⟩
        else w.grant .folio orNull fun folio w =>
          if folio = .null then
            ⟨enomem,(),(((taskMm w).release .mmapLock lock).expect .vma).free .memory pol⟩
          else ⟨0,(),(((taskMm (w.release .folio folio)).release .mmapLock lock).expect .vma).free .memory pol⟩

/- The event is a local variable; event_file is never set. perf_sched_cb_inc counts a user of
the callbacks of pmu, and perf_sched_cb_dec, where it is called, takes it away. -/
def schedCallbacks (decreased : Bool) (w : Kernel) : Started Kind Unit :=
  w.grant .event .error fun event w =>
  if event.isErr then ⟨event.code,(),w⟩
  else (w.use .event event).ask fun pmu w =>
    if pmu < 0 then ⟨einval,(),w.misuse .file .null⟩
    else w.take .schedCallback fun user w => ⟨0,(),if decreased then w.release .schedCallback user else w⟩

def koPerfPmuSchedTask : Kernel → Started Kind Unit := schedCallbacks false
def koPerfSchedCbChange : Kernel → Started Kind Unit := schedCallbacks true

/- alloc_perf_event makes NULL of an error, which is not asked for. The pages that rb_alloc_aux
puts into my_rb stay there. -/
def rbAllocAux (w : Kernel) : Started Kind Unit :=
  w.grant .event orNull fun myEvent w =>
  (w.use .event myEvent).grant .page orNull fun _ w => ⟨0,(),w.release .event myEvent⟩

structure MatchedEvents where
  event : Pointer
  event2 : Pointer

def koExclusiveEventMatch (w : Kernel) : Started Kind MatchedEvents :=
  w.grant .event .error fun event w =>
  if event.isErr then ⟨event.code,⟨event,.null⟩,w⟩
  else w.grant .event .error fun event2 w =>
    if event2.isErr then ⟨event2.code,⟨event,event2⟩,w⟩
    else (w.use .event event).ask fun ctx w =>
      if ctx < 0 then ⟨einval,⟨event,event2⟩,w.release .event event⟩
      else ⟨0,⟨event,event2⟩,(w.use .event event).use .event event2⟩

def koExclusiveEventMatchExit (s : MatchedEvents) (w : Kernel) : Kernel :=
  (w.release .event s.event).release .event s.event2

/- event is still NULL when the buffer of the handle cannot be had. child_function ends by
itself, so nothing keeps the thread in place until it is stopped. -/
def koPerfOutputReadOne (w : Kernel) : Started Kind Unit :=
  w.grant .memory orNull fun rb w =>
  if rb = .null then ⟨Pointer.null.code,(),w⟩
  else (w.use .memory rb).grant .page orNull fun dataPage w =>
    if dataPage = .null then ⟨Pointer.null.code,(),w.free .memory rb⟩
    else w.grant .event .error fun event w =>
      if event.isErr then ⟨event.code,(),(w.release .page dataPage).free .memory rb⟩
      else w.ask fun childTask w =>
        if childTask < 0 then ⟨childTask,(),(w.release .page dataPage).free .memory rb⟩
        else
          let w := (((w.use .memory rb).use .event event).expect .thread).use .event event
          ⟨0,(),((w.release .event event).release .page dataPage).free .memory rb⟩

def koPerfHrtimer (w : Kernel) : Started Kind Pointer :=
  w.grant .pmu .error fun testPmu w =>
  if testPmu.isErr then ⟨testPmu.code,testPmu,w⟩
  else (w.use .pmu testPmu).call fun ret w =>
    if ret ≠ 0 then ⟨ret,testPmu,w⟩ else ⟨0,testPmu,w⟩

def koPerfHrtimerExit (testPmu : Pointer) (w : Kernel) : Kernel := w.release .pmu testPmu

structure ProcFiles where
  procFileFd : Pointer
  procFilePath : Pointer

def ctestCgroupGetFromFile (w : Kernel) : Started Kind ProcFiles :=
  w.grant .procEntry orNull fun procFileFd w =>
  if procFileFd = .null then ⟨enomem,⟨procFileFd,.null⟩,w⟩
  else w.grant .procEntry orNull fun procFilePath w =>
    if procFilePath = .null then ⟨enomem,⟨procFileFd,procFilePath⟩,w⟩ else ⟨0,⟨procFileFd,procFilePath⟩,w⟩

def ctestCgroupGetFromFileExit (s : ProcFiles) (w : Kernel) : Kernel :=
  (w.release .procEntry s.procFileFd).release .procEntry s.procFilePath

/- What proc_create returns is not asked for; the entry is removed by its name. -/
def perfRingbufferAuxOpFd (w : Kernel) : Started Kind Pointer :=
  w.grant .procEntry orNull fun entry w => ⟨0,entry,w⟩

def perfRingbufferAuxOpFdExit (entry : Pointer) (w : Kernel) : Kernel := w.release .procEntry entry

/- The reference that find_get_pid takes is never put. -/
def ctestTaskCgroupPath (w : Kernel) : Started Kind Unit :=
  w.ask fun pid w =>
  if pid = -1 then ⟨einval,(),w⟩
  else w.grant .pid orNull fun found w =>
    if found = .null then ⟨esrch,(),w⟩
    else w.grant .task orNull fun task w =>
      if task = .null then ⟨esrch,(),w⟩
      else w.grant .memory orNull fun buf w =>
        if buf = .null then ⟨enomem,(),w.release .task task⟩
        else
          let w := (w.use .task task).use .memory buf
          ⟨0,(),(w.free .memory buf).release .task task⟩

/- my_cgroupstats_build returns without the release where the file has no dentry; what it
returns is not asked for. -/
def myCgroupstatsBuild (file : Pointer) (w : Kernel) : Kernel :=
  (w.use .file file).grant .memory orNull fun stats w =>
  if stats = .null then w
  else w.ask fun dentry w =>
    if dentry < 0 then w else (w.use .memory stats).free .memory stats

def ctestCgroupv1StatsBuild (w : Kernel) : Started Kind Unit :=
  w.ask fun addr w =>
  if addr = 0 then ⟨efault,(),w⟩
  else w.grant .file .error fun file w =>
    if file.isErr then ⟨file.code,(),w⟩ else ⟨0,(),(myCgroupstatsBuild file w).release .file file⟩

def perfRegisterGuestInfoCallbacksTst (w : Kernel) : Started Kind Pointer :=
  w.grant .guestCallbacks orNull fun callbacks w => ⟨0,callbacks,w⟩

/- What is taken out was never put in. -/
def perfUnregisterGuestInfoCallbacksTst (w : Kernel) : Started Kind Unit :=
  ⟨0,(),w.release .guestCallbacks .null⟩

structure UserpageEvent where
  cgrp : Pointer
  event : Pointer
  ctx : Pointer
  userPage : Pointer

/- cgroup_get_from_path returns an error pointer, never NULL. -/
def koPerfEventUpdateUserpage (w : Kernel) : Started Kind UserpageEvent :=
  w.grant .cgroup .error fun cgrp w =>
  w.grant .memory orNull fun event w =>
  if event = .null then ⟨enomem,⟨cgrp,.null,.null,.null⟩,w.release .cgroup cgrp⟩
  else (w.use .memory event).grant .memory orNull fun ctx w =>
    if ctx = .null then
      ⟨enomem,⟨cgrp,event,ctx,.null⟩,
        (((w.free .memory .null).free .memory .null).free .memory event).release .cgroup cgrp⟩
    else (w.use .memory ctx).grant .memory orNull fun userPage w =>
      if userPage = .null then
        ⟨enomem,⟨cgrp,event,ctx,userPage⟩,((w.free .memory ctx).free .memory event).release .cgroup cgrp⟩
      else ⟨0,⟨cgrp,event,ctx,userPage⟩,(w.use .memory userPage).use .memory event⟩

/- event->cgrp is read from freed memory, where it may be found as it was or not. -/
def koPerfEventUpdateUserpageExit (s : UserpageEvent) (w : Kernel) : Kernel :=
  let w := ((w.use .memory s.event).free .memory s.ctx).free .memory s.userPage
  ((w.free .memory s.event).use .memory s.event).ask fun overwritten w =>
  if overwritten < 0 then w.misuse .cgroup .null else w.release .cgroup s.cgrp

end KernelTestTools.KernelModules
