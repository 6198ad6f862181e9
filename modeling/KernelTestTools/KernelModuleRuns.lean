import KernelTestTools.KernelModules

/-! The kernel modules loaded and unloaded in any order, with any answers of the kernel: what
each of them loses or misuses, and with it what a run leaves behind. -/
namespace KernelTestTools.KernelModules
open StepRuns OwnedObjects

def objects (kind : Kind) : Pointer → List (Object Kind)
  | .object n => [⟨kind,n⟩]
  | _ => []

section
variable {w : Kernel} {p : Pointer} {kind : Kind} {rest : List (Object Kind)} {bad : Nat}

theorem useIfHeld {n : Nat} {used : Bool} (holding : Holding w (⟨kind,n⟩::rest) bad) :
    useIf used kind (.object n) w = w := by
  unfold useIf
  split
  · exact useHeld (mineHeld holding)
  · rfl

theorem failedNegative (m : HeldModule) {failed : Option Int} (call : m.failed = some failed) {ret : Int}
    (negative : ret < 0) : failed.getD ret < 0 := by
  cases failed with
  | none => exact negative
  | some code => exact m.negative code (by simp [call])

theorem testKeeps (m : HeldModule) {n : Nat} (holding : Holding w (⟨m.kind,n⟩::rest) bad) :
    Leaves (objects m.kind) (fun p => ∃ n, p = .object n) rest 0 bad (m.test (.object n) w) := by
  unfold HeldModule.test
  cases call : m.failed with
  | none =>
    dsimp only
    rw [useIfHeld holding]
    exact cleanStays (by decide) ⟨n,rfl⟩ holding
  | some failed =>
    dsimp only [World.call]
    rw [useHeld (mineHeld holding)]
    split
    · exact cleanFailed (failedNegative m call (by omega)) (holdingReleased (holdingLater holding))
    · exact cleanStays (by decide) ⟨n,rfl⟩ (holdingLater holding)

theorem startKeeps (m : HeldModule) (w : Kernel) :
    Leaves (objects m.kind) (fun p => ∃ n, p = .object n) w.held 0 w.misused.length (m.init w) := by
  have granted : Holding (w.later.acquired m.kind) (⟨m.kind,w.next⟩::w.held) w.misused.length := ⟨.refl _,rfl⟩
  have present : m.refused (.object w.next) = false := by
    unfold HeldModule.refused
    cases m.missing with
    | none => rfl
    | some code => rfl
  dsimp only [HeldModule.init,World.grant]
  split
  · rename_i refused
    cases null : m.missing with
    | none =>
      simp only [HeldModule.refused,null,Option.isSome_none,Bool.false_eq_true,if_false,Pointer.isErr,if_true]
      exact cleanFailed refused ⟨.refl _,rfl⟩
    | some code =>
      simp only [HeldModule.refused,null,Option.isSome_some,if_true,orNull,decide_true]
      exact cleanFailed (m.negative code (by simp [null])) ⟨.refl _,rfl⟩
  · rw [present]
    simp only [Bool.false_eq_true,if_false]
    split
    · rw [useHeld (mineHeld granted)]
      dsimp only [World.ask]
      split
      · exact cleanFailed (by decide) (holdingReleased (holdingLater granted))
      · exact testKeeps m (holdingLater granted)
    · exact testKeeps m granted

theorem exitReleases (m : HeldModule) {n : Nat} (holding : Holding w (⟨m.kind,n⟩::rest) bad) :
    Holding (m.exit (.object n) w) rest bad := by
  unfold HeldModule.exit
  rw [if_neg (by simp),useIfHeld holding]
  exact holdingReleased holding

def keepAccount {σ : Type} {init : Kernel → Started Kind σ} {exit : σ → Kernel → Kernel} (owned : σ → List (Object Kind))
    (sound : σ → Prop) (lost : (Nat → Int) → Nat)
    (starts : ∀ w, Leaves owned sound w.held (lost w.answers) w.misused.length (init w))
    (stops : ∀ s w rest, sound s → w.held.Perm (owned s ++ rest) → Holding (exit s w) rest w.misused.length) :
    Account ⟨σ,init,exit⟩ where
  owned := owned
  sound := sound
  lostStart := lost
  badStart := fun _ => 0
  lostStop := fun _ _ => 0
  badStop := fun _ _ => 0
  starts := starts
  stops := fun s w rest right held => ⟨[],rfl,stops s w rest right held⟩

def HeldModule.account (m : HeldModule) : Account ⟨Pointer,m.init,m.exit⟩ :=
  keepAccount (objects m.kind) (fun p => ∃ n, p = .object n) (fun _ => 0) (startKeeps m) (fun p w rest sound held => by
    obtain ⟨n,rfl⟩ := sound
    exact exitReleases m ⟨held,rfl⟩)

def initOnly (init : Kernel → Started Kind Unit) : Component Kind := ⟨Unit,init,fun _ w => w⟩

def initAccount (init : Kernel → Started Kind Unit) (lost bad : (Nat → Int) → Nat)
    (starts : ∀ w, Leaves (fun _ => []) (fun _ => True) w.held (lost w.answers)
      (w.misused.length + bad w.answers) (init w)) : Account (initOnly init) where
  owned := fun _ => []
  sound := fun _ => True
  lostStart := lost
  badStart := bad
  lostStop := fun _ _ => 0
  badStop := fun _ _ => 0
  starts := starts
  stops := fun _ _ _ _ held => ⟨[],rfl,held,rfl⟩

theorem swapPtrStarts (w : Kernel) :
    Leaves (fun _ => []) (fun _ => True) w.held 0 w.misused.length (koPerfSwapPtr w) := by
  simp only [koPerfSwapPtr,World.grant,orNull,reduceCtorEq,if_true,if_false]
  split_ifs
  · exact cleanFailed (by decide) ⟨by simp,by simp⟩
  · exact cleanFailed (by decide) ⟨by simp,by simp⟩
  · exact cleanStays (by decide) trivial ⟨by simp,by simp⟩

theorem borrowStarts (kind : Kind) (w : Kernel) :
    Leaves (fun _ => []) (fun _ => True) w.held 0 w.misused.length (borrow kind w) := by
  simp only [borrow,World.grant,Pointer.isErr,if_true,if_false,Bool.false_eq_true]
  split_ifs with refused
  · exact cleanFailed refused ⟨by simp,by simp⟩
  · exact cleanStays (by decide) trivial ⟨by simp,by simp⟩

theorem lessGroupIdxStarts (w : Kernel) :
    Leaves (fun _ => []) (fun _ => True) w.held 0 w.misused.length (perfLessGroupIdxTst w) := by
  simp only [perfLessGroupIdxTst,World.grant,orNull,reduceCtorEq,or_true,true_or,or_self,if_true,if_false]
  split_ifs
  · exact cleanFailed (by decide) ⟨by simp,by simp⟩
  · exact cleanFailed (by decide) ⟨by simp,by simp⟩
  · exact cleanFailed (by decide) ⟨by simp,by simp⟩
  · exact cleanFailed (by decide) ⟨by simp,by simp⟩
  · exact cleanStays (by decide) trivial ⟨by simp,by simp⟩

theorem notifierChainStarts (w : Kernel) :
    Leaves (fun s => objects .notifier s.nb2 ++ objects .notifier s.nb1)
      (fun s => ∃ n m, s = ⟨.object n,.object m⟩) w.held 0 w.misused.length (rawNotifierChainTst w) := by
  simp only [rawNotifierChainTst,World.grant,Pointer.isErr,if_true,if_false,Bool.false_eq_true]
  split_ifs with refused refused2
  · exact cleanFailed refused ⟨by simp,by simp⟩
  · exact cleanFailed refused2 ⟨by simp,by simp⟩
  · exact cleanStays (by decide) ⟨_,_,rfl⟩ ⟨by simp [objects],by simp⟩

theorem robustChainStarts (w : Kernel) :
    Leaves (fun s => objects .notifier s.nb3 ++ (objects .notifier s.nb2 ++ objects .notifier s.nb1))
      (fun s => ∃ n m k, s = ⟨.object n,.object m,.object k⟩) w.held 0 w.misused.length
      (rawNotifierCallChainRobustTst w) := by
  simp only [rawNotifierCallChainRobustTst,World.grant,Pointer.isErr,if_true,if_false,Bool.false_eq_true]
  split_ifs with refused refused2 refused3
  · exact cleanFailed refused ⟨by simp,by simp⟩
  · exact cleanFailed refused2 ⟨by simp,by simp⟩
  · exact cleanFailed refused3 ⟨by simp,by simp⟩
  · exact cleanStays (by decide) ⟨_,_,_,rfl⟩ ⟨by simp [objects],by simp⟩

theorem sigtrapStarts (w : Kernel) :
    Leaves (fun s => objects .memory s.ctx ++ objects .memory s.testEvent)
      (fun s => ∃ n m, s = ⟨.object n,.object m⟩) w.held 0 w.misused.length (perfSigtrap w) := by
  simp only [perfSigtrap,World.grant,orNull,reduceCtorEq,if_true,if_false]
  split_ifs
  · exact cleanFailed (by decide) ⟨by simp,by simp⟩
  · exact cleanFailed (by decide) ⟨by simp,by simp⟩
  · exact cleanStays (by decide) ⟨_,_,rfl⟩ ⟨by simp [objects],by simp⟩

def auxBeginLost (a : Nat → Int) : Nat := if a 0 < 0 then 0 else if a 1 < 0 then 0 else 1
def auxBeginBad (a : Nat → Int) : Nat := if a 0 < 0 then 0 else absent (a 1)

theorem auxBeginStarts (w : Kernel) :
    Leaves (objects .event) (fun p => ∃ n, p = .object n) w.held (auxBeginLost w.answers)
      (w.misused.length + auxBeginBad w.answers) (perfRingbufferAuxOpBegin w) := by
  simp only [perfRingbufferAuxOpBegin,World.grant,orNull,reduceCtorEq,if_true,if_false,laterAnswers,
    acquiredAnswers,usedAnswers,Nat.zero_add]
  split_ifs with refused noOutput
  · exact startFailed [] (by simp [auxBeginLost,refused]) (by decide) ⟨by simp,by simp [auxBeginBad,refused]⟩
  · exact startStays [] (by simp [auxBeginLost,refused,noOutput]) (by decide) ⟨_,rfl⟩
      ⟨by simp [objects],by simp [auxBeginBad,absent,refused,noOutput]⟩
  · have begun : List.Perm (⟨Kind.outputHandle,w.next + 1⟩::⟨.event,w.next⟩::w.held)
        (objects .event (.object w.next) ++ ([⟨.outputHandle,w.next + 1⟩] ++ w.held)) := List.Perm.swap _ _ _
    exact startStays [⟨.outputHandle,w.next + 1⟩] (by simp [auxBeginLost,refused,noOutput]) (by decide) ⟨_,rfl⟩
      ⟨by simpa using begun,by simp [auxBeginBad,absent,refused,noOutput]⟩

theorem auxBeginStops {n : Nat} (holding : Holding w (⟨.event,n⟩::rest) bad) :
    Holding (perfRingbufferAuxOpBeginExit (.object n) w) rest bad := by
  unfold perfRingbufferAuxOpBeginExit
  rw [if_neg (by simp),useHeld (mineHeld holding)]
  exact holdingReleased holding

def outputSkipBad (a : Nat → Int) : Nat := if a 0 < 0 then 0 else 1

theorem outputSkipStarts (w : Kernel) :
    Leaves (fun _ => []) (fun _ => True) w.held 0 (w.misused.length + outputSkipBad w.answers)
      (koPerfOutputSkip w) := by
  simp only [koPerfOutputSkip,World.grant,Pointer.isErr,if_true,if_false,Bool.false_eq_true]
  split_ifs with refused
  · exact cleanFailed refused ⟨by simp,by simp [outputSkipBad,refused]⟩
  · exact cleanStays (by decide) trivial ⟨by simp,by simp [outputSkipBad,refused]⟩

/- event->pmu is read from whatever the file has for its private data. -/
def pmuReschedBad (a : Nat → Int) : Nat := if a 0 < 0 then 0 else if a 1 < 0 then 0 else absent (a 2)

theorem pmuReschedStarts (w : Kernel) :
    Leaves (fun _ => []) (fun _ => True) w.held 0 (w.misused.length + pmuReschedBad w.answers)
      (koPerfPmuResched w) := by
  simp only [koPerfPmuResched,World.grant,World.ask,orNull,reduceCtorEq,if_true,if_false,laterAnswers,
    acquiredAnswers,usedAnswers,Nat.zero_add]
  split_ifs with noFile noEvent
  · exact cleanFailed (by decide) ⟨by simp,by simp [pmuReschedBad,noFile]⟩
  · exact cleanFailed (by decide) ⟨by simp,by simp [pmuReschedBad,noFile,noEvent]⟩
  · exact cleanFailed (by decide) ⟨by simp,by simp [pmuReschedBad,noFile,noEvent]⟩
  · exact cleanStays (by decide) trivial ⟨by simp,by simp [pmuReschedBad,noFile,noEvent]⟩

/- The task and its mm are used at both ends of the lock and under it, and the vma behind it. -/
def vmaAllocBad (a : Nat → Int) : Nat :=
  if a 0 < 0 then 0 else if a 1 < 0 then 0 else
  absent (a 2) + absent (a 3) + absent (a 4) + absent (a 5) +
    if a 6 < 0 then absent (a 7) + absent (a 8)
    else if a 7 < 0 then absent (a 8) + absent (a 9)
    else absent (a 9) + absent (a 10) + absent (a 11)

theorem vmaAllocStarts (w : Kernel) :
    Leaves (fun _ => []) (fun _ => True) w.held 0 (w.misused.length + vmaAllocBad w.answers)
      (ctestCgroupCpusetVmaAlloc w) := by
  simp only [ctestCgroupCpusetVmaAlloc,World.grant,World.ask,World.take,orNull,reduceCtorEq,if_true,if_false,
    laterAnswers,acquiredAnswers,taskMm,expectAnswers,Nat.zero_add,Nat.reduceAdd]
  split_ifs with noPid gone noVma noPol noFolio
  · exact cleanFailed (by decide) ⟨by simp,by simp [vmaAllocBad,noPid]⟩
  · exact cleanFailed (by decide) ⟨by simp,by simp [vmaAllocBad,noPid,gone]⟩
  · exact cleanFailed (by decide) ⟨by simp,by simp [vmaAllocBad,noPid,gone,noVma,Nat.add_assoc]⟩
  · exact cleanFailed (by decide) ⟨by simp,by simp [vmaAllocBad,noPid,gone,noVma,noPol,Nat.add_assoc]⟩
  · exact cleanFailed (by decide) ⟨by simp,by simp [vmaAllocBad,noPid,gone,noVma,noPol,Nat.add_assoc]⟩
  · exact cleanStays (by decide) trivial ⟨by simp,by simp [vmaAllocBad,noPid,gone,noVma,noPol,Nat.add_assoc]⟩

/- The event of a start is lost, and the user where it is not taken away; a file that was never
set is put where event->pmu is NULL. -/
def schedLost (decreased : Bool) (a : Nat → Int) : Nat :=
  if a 0 < 0 then 0 else if a 1 < 0 ∨ decreased = true then 1 else 2
def schedBad (a : Nat → Int) : Nat := if a 0 < 0 then 0 else if a 1 < 0 then 1 else 0

theorem schedStarts (decreased : Bool) (w : Kernel) :
    Leaves (fun _ => []) (fun _ => True) w.held (schedLost decreased w.answers)
      (w.misused.length + schedBad w.answers) (schedCallbacks decreased w) := by
  simp only [schedCallbacks,World.grant,World.ask,World.take,Pointer.isErr,if_true,if_false,Bool.false_eq_true,
    laterAnswers,acquiredAnswers,usedAnswers,Nat.zero_add]
  split_ifs with refused noPmu both
  · exact startFailed [] (by simp [schedLost,refused]) refused ⟨by simp,by simp [schedBad,refused]⟩
  · exact startFailed [⟨.event,w.next⟩] (by simp [schedLost,refused,noPmu]) (by decide)
      ⟨by simp,by simp [schedBad,refused,noPmu]⟩
  · exact startStays [⟨.event,w.next⟩] (by simp [schedLost,refused,both]) (by decide) trivial
      ⟨by simp,by simp [schedBad,refused,noPmu]⟩
  · exact startStays [⟨.schedCallback,w.next + 1⟩,⟨.event,w.next⟩] (by simp [schedLost,refused,noPmu,both])
      (by decide) trivial ⟨by simp,by simp [schedBad,refused,noPmu]⟩

/- NULL is used and released where there is no event. -/
def rbAllocBad (a : Nat → Int) : Nat := if a 0 < 0 then 2 else 0
def rbAllocLost (a : Nat → Int) : Nat := if a 1 < 0 then 0 else 1

theorem rbAllocStarts (w : Kernel) :
    Leaves (fun _ => []) (fun _ => True) w.held (rbAllocLost w.answers) (w.misused.length + rbAllocBad w.answers)
      (rbAllocAux w) := by
  simp only [rbAllocAux,World.grant,orNull,laterAnswers,acquiredAnswers,usedAnswers,Nat.zero_add]
  split_ifs with refused noPages noPages
  · exact startStays [] (by simp [rbAllocLost,noPages]) (by decide) trivial
      ⟨by simp,by simp [rbAllocBad,refused]⟩
  · exact startStays [⟨.page,w.next⟩] (by simp [rbAllocLost,noPages]) (by decide) trivial
      ⟨by simp,by simp [rbAllocBad,refused]⟩
  · exact startStays [] (by simp [rbAllocLost,noPages]) (by decide) trivial
      ⟨by simp,by simp [rbAllocBad,refused]⟩
  · exact startStays [⟨.page,w.next + 1⟩] (by simp [rbAllocLost,noPages]) (by decide) trivial
      ⟨by simp,by simp [rbAllocBad,refused]⟩

/- The first event is lost where the second cannot be had, the second where event->ctx is
NULL. -/
def matchLost (a : Nat → Int) : Nat := if a 0 < 0 then 0 else if a 1 < 0 then 1 else if a 2 < 0 then 1 else 0

theorem matchStarts (w : Kernel) :
    Leaves (fun s => objects .event s.event2 ++ objects .event s.event)
      (fun s => ∃ n m, s = ⟨.object n,.object m⟩) w.held (matchLost w.answers) w.misused.length
      (koExclusiveEventMatch w) := by
  simp only [koExclusiveEventMatch,World.grant,World.ask,Pointer.isErr,if_true,if_false,Bool.false_eq_true,
    laterAnswers,acquiredAnswers,usedAnswers,Nat.zero_add,Nat.reduceAdd]
  split_ifs with refused refused2 noCtx
  · exact startFailed [] (by simp [matchLost,refused]) refused ⟨by simp,by simp⟩
  · exact startFailed [⟨.event,w.next⟩] (by simp [matchLost,refused,refused2]) refused2 ⟨by simp,by simp⟩
  · exact startFailed [⟨.event,w.next + 1⟩] (by simp [matchLost,refused,refused2,noCtx]) (by decide)
      ⟨by simp,by simp⟩
  · exact startStays [] (by simp [matchLost,refused,refused2,noCtx]) (by decide) ⟨_,_,rfl⟩
      ⟨by simp [objects],by simp⟩

def readOneLost (a : Nat → Int) : Nat :=
  if a 0 < 0 then 0 else if a 1 < 0 then 0 else if a 2 < 0 then 0 else if a 3 < 0 then 1 else 0
def readOneBad (a : Nat → Int) : Nat :=
  if a 0 < 0 then 0 else if a 1 < 0 then 0 else if a 2 < 0 then 0 else if a 3 < 0 then 0 else absent (a 4)

theorem readOneStarts (w : Kernel) :
    Leaves (fun _ => []) (fun _ => True) w.held (readOneLost w.answers) (w.misused.length + readOneBad w.answers)
      (koPerfOutputReadOne w) := by
  simp only [koPerfOutputReadOne,World.grant,World.ask,orNull,Pointer.isErr,reduceCtorEq,if_true,if_false,
    Bool.false_eq_true,laterAnswers,acquiredAnswers,usedAnswers,Nat.zero_add,Nat.reduceAdd]
  split_ifs with noRb noPage refused noChild
  · exact startStays [] (by simp [readOneLost,noRb]) (by decide) trivial ⟨by simp,by simp [readOneBad,noRb]⟩
  · exact startStays [] (by simp [readOneLost,noPage]) (by decide) trivial
      ⟨by simp,by simp [readOneBad,noRb,noPage]⟩
  · exact startFailed [] (by simp [readOneLost,refused]) refused ⟨by simp,by simp [readOneBad,noRb,noPage,refused]⟩
  · exact startFailed [⟨.event,w.next + 2⟩] (by simp [readOneLost,noRb,noPage,refused,noChild]) noChild
      ⟨by simp,by simp [readOneBad,noRb,noPage,refused,noChild]⟩
  · exact startStays [] (by simp [readOneLost,noChild]) (by decide) trivial
      ⟨by simp,by simp [readOneBad,noRb,noPage,refused,noChild]⟩

theorem codeNegativeIff {a : Int} : min a 0 ≠ 0 ↔ a < 0 := by omega

theorem codeNegative {a : Int} (failed : min a 0 ≠ 0) : min a 0 < 0 := by omega

def hrtimerLost (a : Nat → Int) : Nat := if a 0 < 0 then 0 else if a 1 < 0 then 1 else 0

theorem hrtimerStarts (w : Kernel) :
    Leaves (objects .pmu) (fun p => ∃ n, p = .object n) w.held (hrtimerLost w.answers) w.misused.length
      (koPerfHrtimer w) := by
  simp only [koPerfHrtimer,World.grant,World.call,Pointer.isErr,if_true,if_false,Bool.false_eq_true,laterAnswers,
    acquiredAnswers,usedAnswers,Nat.zero_add]
  split_ifs with refused failed
  · exact startFailed [] (by simp [hrtimerLost,refused]) refused ⟨by simp,by simp⟩
  · have code := codeNegative failed
    exact startFailed [⟨.pmu,w.next⟩] (by simp [hrtimerLost,refused,codeNegativeIff.mp failed]) code ⟨by simp,by simp⟩
  · have positive : ¬w.answers 1 < 0 := fun negative => failed (codeNegativeIff.mpr negative)
    exact startStays [] (by simp [hrtimerLost,positive]) (by decide) ⟨_,rfl⟩ ⟨by simp [objects],by simp⟩

def fromFileLost (a : Nat → Int) : Nat := if a 0 < 0 then 0 else if a 1 < 0 then 1 else 0

theorem fromFileStarts (w : Kernel) :
    Leaves (fun s => objects .procEntry s.procFilePath ++ objects .procEntry s.procFileFd)
      (fun s => ∃ n m, s = ⟨.object n,.object m⟩) w.held (fromFileLost w.answers) w.misused.length
      (ctestCgroupGetFromFile w) := by
  simp only [ctestCgroupGetFromFile,World.grant,orNull,reduceCtorEq,if_true,if_false,laterAnswers,
    acquiredAnswers,Nat.zero_add]
  split_ifs with refused refused2
  · exact startFailed [] (by simp [fromFileLost,refused]) (by decide) ⟨by simp,by simp⟩
  · exact startFailed [⟨.procEntry,w.next⟩] (by simp [fromFileLost,refused,refused2]) (by decide)
      ⟨by simp,by simp⟩
  · exact startStays [] (by simp [fromFileLost,refused2]) (by decide) ⟨_,_,rfl⟩ ⟨by simp [objects],by simp⟩

theorem perfFdStarts (w : Kernel) :
    Leaves (objects .procEntry) (fun p => p = .null ∨ ∃ n, p = .object n) w.held 0 w.misused.length
      (perfRingbufferAuxOpFd w) := by
  simp only [perfRingbufferAuxOpFd,World.grant,orNull]
  split_ifs
  · exact cleanStays (by decide) (.inl rfl) ⟨by simp [objects],by simp⟩
  · exact cleanStays (by decide) (.inr ⟨_,rfl⟩) ⟨by simp [objects],by simp⟩

def cgroupPathLost (a : Nat → Int) : Nat := if a 0 = -1 then 0 else if a 1 < 0 then 0 else 1

theorem cgroupPathStarts (w : Kernel) :
    Leaves (fun _ => []) (fun _ => True) w.held (cgroupPathLost w.answers) w.misused.length
      (ctestTaskCgroupPath w) := by
  simp only [ctestTaskCgroupPath,World.grant,World.ask,orNull,reduceCtorEq,if_true,if_false,laterAnswers,
    acquiredAnswers,Nat.zero_add,Nat.reduceAdd]
  split_ifs with noPid gone
  · exact startFailed [] (by simp [cgroupPathLost,noPid]) (by decide) ⟨by simp,by simp⟩
  · exact startFailed [] (by simp [cgroupPathLost,gone]) (by decide) ⟨by simp,by simp⟩
  · exact startFailed [⟨.pid,w.next⟩] (by simp [cgroupPathLost,noPid,gone]) (by decide) ⟨by simp,by simp⟩
  · exact startFailed [⟨.pid,w.next⟩] (by simp [cgroupPathLost,noPid,gone]) (by decide) ⟨by simp,by simp⟩
  · exact startStays [⟨.pid,w.next⟩] (by simp [cgroupPathLost,noPid,gone]) (by decide) trivial ⟨by simp,by simp⟩

def statsLost (a : Nat → Int) : Nat :=
  if a 0 = 0 then 0 else if a 1 < 0 then 0 else if a 2 < 0 then 0 else if a 3 < 0 then 1 else 0

theorem statsStarts (w : Kernel) :
    Leaves (fun _ => []) (fun _ => True) w.held (statsLost w.answers) w.misused.length
      (ctestCgroupv1StatsBuild w) := by
  simp only [ctestCgroupv1StatsBuild,World.grant,World.ask,Pointer.isErr,if_true,if_false,Bool.false_eq_true,
    laterAnswers,Nat.zero_add]
  split_ifs with noAddr refused
  · exact startFailed [] (by simp [statsLost,noAddr]) (by decide) ⟨by simp,by simp⟩
  · exact startFailed [] (by simp [statsLost,refused]) refused ⟨by simp,by simp⟩
  · simp only [myCgroupstatsBuild,World.grant,World.ask,orNull,reduceCtorEq,if_true,if_false,laterAnswers,
      acquiredAnswers,usedAnswers,Nat.zero_add,Nat.reduceAdd]
    split_ifs with noStats noDentry
    · exact startStays [] (by simp [statsLost,noStats]) (by decide) trivial ⟨by simp,by simp⟩
    · exact startStays [⟨.memory,w.next + 1⟩] (by simp [statsLost,noAddr,refused,noStats,noDentry]) (by decide)
        trivial ⟨by simp,by simp⟩
    · exact startStays [] (by simp [statsLost,noDentry]) (by decide) trivial ⟨by simp,by simp⟩

def perfFdStopBad (p : Pointer) (_ : Nat → Int) : Nat := if p = .null then 1 else 0

theorem perfFdStops (p : Pointer) (w : Kernel) (rest : List (Object Kind)) (sound : p = .null ∨ ∃ n, p = .object n)
    (held : w.held.Perm (objects .procEntry p ++ rest)) :
    ∃ lost, lost.length = 0 ∧
      Holding (perfRingbufferAuxOpFdExit p w) (lost ++ rest) (w.misused.length + perfFdStopBad p w.answers) := by
  refine ⟨[],rfl,?_⟩
  obtain rfl | ⟨n,rfl⟩ := sound
  · exact holdingMisuse ⟨held,rfl⟩
  · exact holdingReleased ⟨held,rfl⟩

theorem registerStarts (w : Kernel) :
    Leaves (objects .guestCallbacks) (fun p => p = .null ∨ ∃ n, p = .object n) w.held 0 w.misused.length
      (perfRegisterGuestInfoCallbacksTst w) := by
  simp only [perfRegisterGuestInfoCallbacksTst,World.grant,orNull]
  split_ifs
  · exact cleanStays (by decide) (.inl rfl) ⟨by simp [objects],by simp⟩
  · exact cleanStays (by decide) (.inr ⟨_,rfl⟩) ⟨by simp [objects],by simp⟩

theorem unregisterStarts (w : Kernel) :
    Leaves (fun _ => []) (fun _ => True) w.held 0 (w.misused.length + 1) (perfUnregisterGuestInfoCallbacksTst w) :=
  cleanStays (by decide) trivial ⟨by simp,by simp⟩

/- The cgroup that was not found is put where something else cannot be had. -/
def userpageBad (a : Nat → Int) : Nat :=
  if a 0 < 0 then if a 1 < 0 ∨ a 2 < 0 ∨ a 3 < 0 then 1 else 0 else 0

def UserpageEvent.Sound (s : UserpageEvent) : Prop :=
  ((∃ code, s.cgrp = .error code) ∨ ∃ n, s.cgrp = .object n) ∧
    ∃ event ctx userPage, s.event = .object event ∧ s.ctx = .object ctx ∧ s.userPage = .object userPage

def UserpageEvent.owned (s : UserpageEvent) : List (Object Kind) :=
  objects .memory s.userPage ++ (objects .memory s.ctx ++ (objects .memory s.event ++ objects .cgroup s.cgrp))

theorem userpageStarts (w : Kernel) :
    Leaves UserpageEvent.owned UserpageEvent.Sound w.held 0 (w.misused.length + userpageBad w.answers)
      (koPerfEventUpdateUserpage w) := by
  simp only [koPerfEventUpdateUserpage,World.grant,orNull,reduceCtorEq,if_true,if_false,laterAnswers,
    acquiredAnswers,usedAnswers,Nat.zero_add,Nat.reduceAdd]
  split_ifs with noCgroup noEvent noCtx noPage noEvent noCtx noPage
  · exact startFailed [] rfl (by decide) ⟨by simp,by simp [userpageBad,noCgroup,noEvent]⟩
  · exact startFailed [] rfl (by decide) ⟨by simp,by simp [userpageBad,noCgroup,noCtx]⟩
  · exact startFailed [] rfl (by decide) ⟨by simp,by simp [userpageBad,noCgroup,noPage]⟩
  · exact startStays [] rfl (by decide) ⟨.inl ⟨_,rfl⟩,_,_,_,rfl,rfl,rfl⟩
      ⟨by simp [UserpageEvent.owned,objects],by simp [userpageBad,noCgroup,noEvent,noCtx,noPage]⟩
  · exact startFailed [] rfl (by decide) ⟨by simp,by simp [userpageBad,noCgroup]⟩
  · exact startFailed [] rfl (by decide) ⟨by simp,by simp [userpageBad,noCgroup]⟩
  · exact startFailed [] rfl (by decide) ⟨by simp,by simp [userpageBad,noCgroup]⟩
  · exact startStays [] rfl (by decide) ⟨.inr ⟨_,rfl⟩,_,_,_,rfl,rfl,rfl⟩
      ⟨by simp [UserpageEvent.owned,objects],by simp [userpageBad,noCgroup]⟩

theorem twoReleased {n m : Nat} {kind : Kind} (holding : Holding w (⟨kind,m⟩::⟨kind,n⟩::rest) bad) :
    Holding ((w.release kind (.object n)).release kind (.object m)) rest bad :=
  holdingReleased (holdingReleased (holdingPerm holding (List.Perm.swap _ _ _)))

theorem robustExit {n m k : Nat} (holding : Holding w (⟨.notifier,k⟩::⟨.notifier,m⟩::⟨.notifier,n⟩::rest) bad) :
    Holding (rawNotifierCallChainRobustTstExit ⟨.object n,.object m,.object k⟩ w) rest bad := by
  have first : Holding (w.release .notifier (.object n)) (⟨.notifier,k⟩::⟨.notifier,m⟩::rest) bad :=
    holdingReleased (holdingPerm holding (((List.Perm.swap _ _ _).cons _).trans (List.Perm.swap _ _ _)))
  exact twoReleased first

theorem sigtrapExit {n m : Nat} (holding : Holding w (⟨.memory,m⟩::⟨.memory,n⟩::rest) bad) :
    Holding (perfSigtrapExit ⟨.object n,.object m⟩ w) rest bad := by
  have here : ⟨.memory,n⟩ ∈ w.held := holding.held.mem_iff.mpr (by simp)
  unfold perfSigtrapExit
  simp only [useHeld here,freeObject]
  exact holdingReleased (holdingReleased holding)

def userpageStopLost (s : UserpageEvent) (a : Nat → Int) : Nat := if a 0 < 0 then (objects .cgroup s.cgrp).length else 0
def userpageStopBad (s : UserpageEvent) (a : Nat → Int) : Nat := if a 0 < 0 ∨ s.cgrp.isErr then 2 else 1

theorem userpageStops {s : UserpageEvent} (sound : s.Sound) (held : w.held.Perm (s.owned ++ rest)) :
    ∃ lost, lost.length = userpageStopLost s w.answers ∧
      Holding (koPerfEventUpdateUserpageExit s w) (lost ++ rest) (w.misused.length + userpageStopBad s w.answers) := by
  obtain ⟨cgrp,event,ctx,userPage⟩ := s
  obtain ⟨form,n,m,k,rfl,rfl,rfl⟩ := sound
  have start : Holding w (⟨.memory,k⟩::⟨.memory,m⟩::⟨.memory,n⟩::(objects .cgroup cgrp ++ rest)) w.misused.length :=
    ⟨held,rfl⟩
  have present : ⟨.memory,n⟩ ∈ w.held := start.held.mem_iff.mpr (by simp)
  have last := holdingReleased (holdingReleased (holdingPerm start (List.Perm.swap _ _ _)))
  have gone : ⟨.memory,n⟩ ∉ objects .cgroup cgrp ++ rest := (List.nodup_cons.mp (holdingNodup last)).1
  have freed := holdingUsedWrongly (p := .object n) (holdingReleased last) (fun i same => by
    cases same
    exact gone)
  have answers := @usedAnswers Kind (((w.release .memory (.object m)).release .memory (.object k)).release
    .memory (.object n)) .memory _ (.object n)
  rw [releasedAnswers,releasedAnswers,releasedAnswers] at answers
  unfold koPerfEventUpdateUserpageExit userpageStopLost userpageStopBad
  simp only [useHeld present,freeObject,World.ask,answers]
  split
  · rename_i overwritten
    refine ⟨objects .cgroup cgrp,rfl,?_⟩
    rw [if_pos (.inl overwritten)]
    exact holdingMisuse (holdingLater freed)
  · rename_i intact
    obtain ⟨code,rfl⟩ | ⟨c,rfl⟩ := form
    · refine ⟨[],rfl,?_⟩
      rw [if_pos (.inr rfl)]
      exact holdingMisuse (holdingLater freed)
    · refine ⟨[],rfl,?_⟩
      rw [if_neg (by simp [intact,Pointer.isErr])]
      exact holdingReleased (holdingLater freed)

end

inductive Module where
  | perfEventCreateKernelCounterTst
  | perfEventReadValueTst
  | koPerfEventRefresh
  | koPerfEventEnable
  | koPerfEventStop
  | koPerfEventMatch
  | koPerfEventInactive
  | koPerfRotateCtx
  | koPerfEventReadEvent
  | koPerfEventReadLocal
  | koPerfGroupUpdateUserpage
  | koPerfEventFunctionLocal
  | koPerfEventAddrFiltersSync
  | perfRingbufferAuxOpBegin
  | perfMmapOpenTst
  | perfPmuUnregisterTst
  | rawNotifierCallchainRobust
  | procCreate
  | ctestTaskJoinStop
  | ctestSignalExitSignals
  | koPerfOutputSkip
  | cgroupv2FinalizeControl
  | ctestCgroupGetFromId
  | cgroupv2RmCftypes
  | koPerfSwapPtr
  | perfLessGroupIdxTst
  | koPerfPmuResched
  | ctestCgroupCpusetVmaAlloc
  | rawNotifierChainTst
  | rawNotifierCallChainRobustTst
  | perfSigtrap
  | koPerfPmuSchedTask
  | koPerfSchedCbChange
  | rbAllocAux
  | koExclusiveEventMatch
  | koPerfOutputReadOne
  | koPerfHrtimer
  | ctestCgroupGetFromFile
  | perfRingbufferAuxOpFd
  | ctestTaskCgroupPath
  | ctestCgroupv1StatsBuild
  | perfRegisterGuestInfoCallbacksTst
  | perfUnregisterGuestInfoCallbacksTst
  | koPerfEventUpdateUserpage
  deriving DecidableEq, Repr

def HeldModule.component (m : HeldModule) : Component Kind := ⟨Pointer,m.init,m.exit⟩

def component : Module → Component Kind
  | .perfEventCreateKernelCounterTst => KernelModules.perfEventCreateKernelCounterTst.component
  | .perfEventReadValueTst => KernelModules.perfEventReadValueTst.component
  | .koPerfEventRefresh => KernelModules.koPerfEventRefresh.component
  | .koPerfEventEnable => KernelModules.koPerfEventEnable.component
  | .koPerfEventStop => KernelModules.koPerfEventStop.component
  | .koPerfEventMatch => KernelModules.koPerfEventMatch.component
  | .koPerfEventInactive => KernelModules.koPerfEventInactive.component
  | .koPerfRotateCtx => KernelModules.koPerfRotateCtx.component
  | .koPerfEventReadEvent => KernelModules.koPerfEventReadEvent.component
  | .koPerfEventReadLocal => KernelModules.koPerfEventReadLocal.component
  | .koPerfGroupUpdateUserpage => KernelModules.koPerfGroupUpdateUserpage.component
  | .koPerfEventFunctionLocal => KernelModules.koPerfEventFunctionLocal.component
  | .koPerfEventAddrFiltersSync => KernelModules.koPerfEventAddrFiltersSync.component
  | .perfMmapOpenTst => KernelModules.perfMmapOpenTst.component
  | .perfPmuUnregisterTst => KernelModules.perfPmuUnregisterTst.component
  | .rawNotifierCallchainRobust => KernelModules.rawNotifierCallchainRobust.component
  | .procCreate => KernelModules.procCreate.component
  | .ctestTaskJoinStop => KernelModules.ctestTaskJoinStop.component
  | .ctestSignalExitSignals => KernelModules.ctestSignalExitSignals.component
  | .koPerfOutputSkip => initOnly KernelModules.koPerfOutputSkip
  | .cgroupv2FinalizeControl => initOnly KernelModules.cgroupv2FinalizeControl
  | .ctestCgroupGetFromId => initOnly KernelModules.ctestCgroupGetFromId
  | .cgroupv2RmCftypes => initOnly KernelModules.cgroupv2RmCftypes
  | .koPerfSwapPtr => initOnly KernelModules.koPerfSwapPtr
  | .perfLessGroupIdxTst => initOnly KernelModules.perfLessGroupIdxTst
  | .koPerfPmuResched => initOnly KernelModules.koPerfPmuResched
  | .ctestCgroupCpusetVmaAlloc => initOnly KernelModules.ctestCgroupCpusetVmaAlloc
  | .koPerfPmuSchedTask => initOnly KernelModules.koPerfPmuSchedTask
  | .koPerfSchedCbChange => initOnly KernelModules.koPerfSchedCbChange
  | .rbAllocAux => initOnly KernelModules.rbAllocAux
  | .koPerfOutputReadOne => initOnly KernelModules.koPerfOutputReadOne
  | .ctestTaskCgroupPath => initOnly KernelModules.ctestTaskCgroupPath
  | .ctestCgroupv1StatsBuild => initOnly KernelModules.ctestCgroupv1StatsBuild
  | .perfUnregisterGuestInfoCallbacksTst => initOnly KernelModules.perfUnregisterGuestInfoCallbacksTst
  | .rawNotifierChainTst => ⟨Notifiers,KernelModules.rawNotifierChainTst,rawNotifierChainTstExit⟩
  | .rawNotifierCallChainRobustTst => ⟨RobustNotifiers,KernelModules.rawNotifierCallChainRobustTst,rawNotifierCallChainRobustTstExit⟩
  | .perfSigtrap => ⟨SigtrapEvent,KernelModules.perfSigtrap,perfSigtrapExit⟩
  | .koExclusiveEventMatch => ⟨MatchedEvents,KernelModules.koExclusiveEventMatch,koExclusiveEventMatchExit⟩
  | .koPerfHrtimer => ⟨Pointer,KernelModules.koPerfHrtimer,koPerfHrtimerExit⟩
  | .ctestCgroupGetFromFile => ⟨ProcFiles,KernelModules.ctestCgroupGetFromFile,ctestCgroupGetFromFileExit⟩
  | .perfRingbufferAuxOpBegin => ⟨Pointer,KernelModules.perfRingbufferAuxOpBegin,perfRingbufferAuxOpBeginExit⟩
  | .perfRingbufferAuxOpFd => ⟨Pointer,KernelModules.perfRingbufferAuxOpFd,perfRingbufferAuxOpFdExit⟩
  | .koPerfEventUpdateUserpage => ⟨UserpageEvent,KernelModules.koPerfEventUpdateUserpage,koPerfEventUpdateUserpageExit⟩
  | .perfRegisterGuestInfoCallbacksTst => ⟨Pointer,KernelModules.perfRegisterGuestInfoCallbacksTst,fun _ w => w⟩

def account : ∀ m, Account (component m)
  | .perfEventCreateKernelCounterTst => KernelModules.perfEventCreateKernelCounterTst.account
  | .perfEventReadValueTst => KernelModules.perfEventReadValueTst.account
  | .koPerfEventRefresh => KernelModules.koPerfEventRefresh.account
  | .koPerfEventEnable => KernelModules.koPerfEventEnable.account
  | .koPerfEventStop => KernelModules.koPerfEventStop.account
  | .koPerfEventMatch => KernelModules.koPerfEventMatch.account
  | .koPerfEventInactive => KernelModules.koPerfEventInactive.account
  | .koPerfRotateCtx => KernelModules.koPerfRotateCtx.account
  | .koPerfEventReadEvent => KernelModules.koPerfEventReadEvent.account
  | .koPerfEventReadLocal => KernelModules.koPerfEventReadLocal.account
  | .koPerfGroupUpdateUserpage => KernelModules.koPerfGroupUpdateUserpage.account
  | .koPerfEventFunctionLocal => KernelModules.koPerfEventFunctionLocal.account
  | .koPerfEventAddrFiltersSync => KernelModules.koPerfEventAddrFiltersSync.account
  | .perfMmapOpenTst => KernelModules.perfMmapOpenTst.account
  | .perfPmuUnregisterTst => KernelModules.perfPmuUnregisterTst.account
  | .rawNotifierCallchainRobust => KernelModules.rawNotifierCallchainRobust.account
  | .procCreate => KernelModules.procCreate.account
  | .ctestTaskJoinStop => KernelModules.ctestTaskJoinStop.account
  | .ctestSignalExitSignals => KernelModules.ctestSignalExitSignals.account
  | .koPerfOutputSkip => initAccount _ (fun _ => 0) outputSkipBad outputSkipStarts
  | .cgroupv2FinalizeControl => initAccount _ (fun _ => 0) (fun _ => 0) (borrowStarts .cgroup)
  | .ctestCgroupGetFromId => initAccount _ (fun _ => 0) (fun _ => 0) (borrowStarts .cgroup)
  | .cgroupv2RmCftypes => initAccount _ (fun _ => 0) (fun _ => 0) (borrowStarts .blkcgPolicy)
  | .koPerfSwapPtr => initAccount _ (fun _ => 0) (fun _ => 0) swapPtrStarts
  | .perfLessGroupIdxTst => initAccount _ (fun _ => 0) (fun _ => 0) lessGroupIdxStarts
  | .koPerfPmuResched => initAccount _ (fun _ => 0) pmuReschedBad pmuReschedStarts
  | .ctestCgroupCpusetVmaAlloc => initAccount _ (fun _ => 0) vmaAllocBad vmaAllocStarts
  | .koPerfPmuSchedTask => initAccount _ (schedLost false) schedBad (schedStarts false)
  | .koPerfSchedCbChange => initAccount _ (schedLost true) schedBad (schedStarts true)
  | .rbAllocAux => initAccount _ rbAllocLost rbAllocBad rbAllocStarts
  | .koPerfOutputReadOne => initAccount _ readOneLost readOneBad readOneStarts
  | .ctestTaskCgroupPath => initAccount _ cgroupPathLost (fun _ => 0) cgroupPathStarts
  | .ctestCgroupv1StatsBuild => initAccount _ statsLost (fun _ => 0) statsStarts
  | .perfUnregisterGuestInfoCallbacksTst => initAccount _ (fun _ => 0) (fun _ => 1) unregisterStarts
  | .rawNotifierChainTst => keepAccount _ _ (fun _ => 0) notifierChainStarts (fun s w rest sound held => by
      obtain ⟨n,m,rfl⟩ := sound
      exact twoReleased ⟨held,rfl⟩)
  | .rawNotifierCallChainRobustTst => keepAccount _ _ (fun _ => 0) robustChainStarts (fun s w rest sound held => by
      obtain ⟨n,m,k,rfl⟩ := sound
      exact robustExit ⟨held,rfl⟩)
  | .perfSigtrap => keepAccount _ _ (fun _ => 0) sigtrapStarts (fun s w rest sound held => by
      obtain ⟨n,m,rfl⟩ := sound
      exact sigtrapExit ⟨held,rfl⟩)
  | .koExclusiveEventMatch => keepAccount _ _ matchLost matchStarts (fun s w rest sound held => by
      obtain ⟨n,m,rfl⟩ := sound
      exact twoReleased ⟨held,rfl⟩)
  | .koPerfHrtimer => keepAccount _ _ hrtimerLost hrtimerStarts (fun s w rest sound held => by
      obtain ⟨n,rfl⟩ := sound
      exact holdingReleased ⟨held,rfl⟩)
  | .ctestCgroupGetFromFile => keepAccount _ _ fromFileLost fromFileStarts (fun s w rest sound held => by
      obtain ⟨n,m,rfl⟩ := sound
      exact twoReleased ⟨held,rfl⟩)
  | .perfRingbufferAuxOpBegin =>
    { owned := objects .event
      sound := fun p => ∃ n, p = .object n
      lostStart := auxBeginLost
      badStart := auxBeginBad
      lostStop := fun _ _ => 0
      badStop := fun _ _ => 0
      starts := auxBeginStarts
      stops := fun p w rest sound held => by
        obtain ⟨n,rfl⟩ := sound
        exact ⟨[],rfl,auxBeginStops ⟨held,rfl⟩⟩ }
  | .perfRingbufferAuxOpFd =>
    { owned := objects .procEntry
      sound := fun p => p = .null ∨ ∃ n, p = .object n
      lostStart := fun _ => 0
      badStart := fun _ => 0
      lostStop := fun _ _ => 0
      badStop := perfFdStopBad
      starts := perfFdStarts
      stops := perfFdStops }
  | .perfRegisterGuestInfoCallbacksTst =>
    { owned := objects .guestCallbacks
      sound := fun p => p = .null ∨ ∃ n, p = .object n
      lostStart := fun _ => 0
      badStart := fun _ => 0
      lostStop := fun p _ => (objects .guestCallbacks p).length
      badStop := fun _ _ => 0
      starts := registerStarts
      stops := fun p w rest _ held => ⟨objects .guestCallbacks p,rfl,held,rfl⟩ }
  | .koPerfEventUpdateUserpage =>
    { owned := UserpageEvent.owned
      sound := UserpageEvent.Sound
      lostStart := fun _ => 0
      badStart := userpageBad
      lostStop := userpageStopLost
      badStop := userpageStopBad
      starts := userpageStarts
      stops := fun s w rest sound held => userpageStops sound held }

def boot (answers : Nat → Int) : Kernel := ⟨answers,0,[],[],List.nodup_nil,by simp⟩

def loading (answers : Nat → Int) (ops : List (Op Module)) : System component := run step ⟨boot answers,[]⟩ ops

def Clean (s : System component) : Prop := s.world.held.Perm (owned account s) ∧ s.world.misused = []

def opModule : Op Module → Module
  | .start m => m
  | .stop m => m

def leaky : List Module :=
  [.koPerfPmuSchedTask,.koPerfSchedCbChange,.rbAllocAux,.koExclusiveEventMatch,.koPerfOutputReadOne,
    .koPerfHrtimer,.ctestCgroupGetFromFile,.perfRingbufferAuxOpFd,.ctestTaskCgroupPath,
    .ctestCgroupv1StatsBuild,.perfRegisterGuestInfoCallbacksTst,.perfUnregisterGuestInfoCallbacksTst,
    .koPerfEventUpdateUserpage,.koPerfOutputSkip,.koPerfPmuResched,.ctestCgroupCpusetVmaAlloc,
    .perfRingbufferAuxOpBegin]

theorem bootBalanced (answers : Nat → Int) : Balanced account (⟨boot answers,[]⟩ : System component) [] 0 :=
  startsBalanced (boot answers) rfl rfl

/- What is held after any run is what the loaded modules own and what the steps lost, one by
one; and every misuse is that of a step. -/
theorem runAccounted (answers : Nat → Int) (ops : List (Op Module)) :
    ∃ lost, (loading answers ops).world.held.Perm (owned account (loading answers ops) ++ lost) ∧
      lost.length = total step (lostBy account) ⟨boot answers,[]⟩ ops ∧
      (loading answers ops).world.misused.length = total step (misusedBy account) ⟨boot answers,[]⟩ ops := by
  obtain ⟨lost,count,balanced⟩ := runBalanced ops (bootBalanced answers)
  rw [List.append_nil,Nat.zero_add] at balanced
  exact ⟨lost,balanced.holding.held,count,balanced.holding.misused⟩

theorem quietAccount {m : Module} (quiet : m ∉ leaky) : (∀ a, (account m).lostStart a = 0) ∧
    (∀ a, (account m).badStart a = 0) ∧ (∀ s a, (account m).lostStop s a = 0) ∧
    ∀ s a, (account m).badStop s a = 0 := by
  cases m <;> first
    | exact ⟨fun _ => rfl,fun _ => rfl,fun _ _ => rfl,fun _ _ => rfl⟩
    | exact absurd (by decide) quiet

theorem quietStep {s : System component} {op : Op Module} (quiet : opModule op ∉ leaky) :
    lostBy account s op = 0 ∧ misusedBy account s op = 0 := by
  cases op with
  | start m =>
    obtain ⟨lost,bad,_⟩ := @quietAccount m quiet
    simp only [lostBy,misusedBy,lost,bad,ite_self,and_self]
  | stop m =>
    simp only [lostBy,misusedBy]
    cases found : s.loaded.find? (isOf m) with
    | none => exact ⟨rfl,rfl⟩
    | some l =>
      have same : l.1 = m := by simpa [isOf] using List.find?_some found
      obtain ⟨_,_,lost,bad⟩ := @quietAccount l.1 (by rw [same]; exact quiet)
      exact ⟨lost _ _,bad _ _⟩

theorem quietRun {s : System component} {ops : List (Op Module)} (quiet : ∀ op ∈ ops, opModule op ∉ leaky) :
    total step (lostBy account) s ops = 0 ∧ total step (misusedBy account) s ops = 0 := by
  induction ops generalizing s with
  | nil => exact ⟨rfl,rfl⟩
  | cons op ops ih =>
    obtain ⟨lost,bad⟩ := @quietStep s op (quiet op List.mem_cons_self)
    obtain ⟨lostLater,badLater⟩ := @ih (step s op) (fun next mem => quiet next (List.mem_cons_of_mem op mem))
    exact ⟨by rw [total,lost,lostLater],by rw [total,bad,badLater]⟩

def failing (i : Nat) (k : Nat) : Int := if k = i then -1 else 0

theorem runClean (answers : Nat → Int) {ops : List (Op Module)} (quiet : ∀ op ∈ ops, opModule op ∉ leaky) :
    Clean (loading answers ops) := by
  obtain ⟨lost,count,balanced⟩ := runBalanced ops (bootBalanced answers)
  obtain ⟨none,clean⟩ := @quietRun ⟨boot answers,[]⟩ ops quiet
  rw [none,List.length_eq_zero_iff] at count
  rw [count,clean] at balanced
  have held := balanced.holding.held
  rw [List.append_nil,List.append_nil] at held
  exact ⟨held,List.length_eq_zero_iff.mp balanced.holding.misused⟩

/- The failures that each of these modules does not stand; the last ones need none. -/
def badAnswers : Module → Nat → Int
  | .rbAllocAux => failing 0
  | .perfRingbufferAuxOpFd => failing 0
  | .koExclusiveEventMatch => failing 1
  | .koPerfHrtimer => failing 1
  | .ctestCgroupGetFromFile => failing 1
  | .koPerfPmuResched => failing 2
  | .ctestCgroupCpusetVmaAlloc => failing 2
  | .koPerfOutputReadOne => failing 3
  | .ctestCgroupv1StatsBuild => fun k => if k = 0 then 1 else failing 3 k
  | _ => fun _ => 0

theorem leftBehind : ∀ m ∈ leaky, (loading (badAnswers m) [.start m,.stop m]).loaded = [] ∧
    ((loading (badAnswers m) [.start m,.stop m]).world.held ≠ [] ∨
      (loading (badAnswers m) [.start m,.stop m]).world.misused ≠ []) := by decide

/- The other modules may be loaded and unloaded in any order, whatever fails: they hold what
they own and misuse nothing. Each of the listed ones does otherwise when it is loaded and
unloaded once. -/
theorem leakyExactly :
    (∀ answers ops, (∀ op ∈ ops, opModule op ∉ leaky) → Clean (loading answers ops)) ∧
    ∀ m ∈ leaky, ∃ answers, ¬Clean (loading answers [.start m,.stop m]) := by
  refine ⟨fun answers _ quiet => runClean answers quiet,fun m listed => ⟨badAnswers m,fun clean => ?_⟩⟩
  obtain ⟨gone,held | misused⟩ := leftBehind m listed
  · have same := clean.1
    rw [owned,gone] at same
    exact held (List.perm_nil.mp same)
  · exact misused clean.2

theorem sampleClean : Clean (loading (failing 2)
    [.start .rawNotifierCallchainRobust,.start .koPerfEventInactive,.stop .rawNotifierCallchainRobust]) :=
  leakyExactly.1 (failing 2) _ (by decide)

end KernelTestTools.KernelModules
