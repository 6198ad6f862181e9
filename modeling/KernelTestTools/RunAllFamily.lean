import KernelTestTools.RunAll
import Mathlib.Data.Char
import Mathlib.Data.List.Count
import Mathlib.Data.List.Lex

/-! The five run_all.sh scripts as one script with its lists: programs started by name in
front of the loops, the two loops, and the kernel modules that are loaded and unloaded one
after the other, until one cannot be unloaded. -/
namespace KernelTestTools.RunAll
open TextFile ShellText StepRuns

structure Runner where
  early : List Text
  earlyModules : List Text
  nowantScript : NameList
  nowantExe : NameList
  scriptArgs : List (Text × Text)
  oneByOne : Bool
  modulesToLoad : List Text
  specialSh : List Text
  startsSpecial : Bool

/- ${script_args[$script]}: its words in one run, or each word in a run of its own. -/
def Runner.arguments (r : Runner) (script : Text) : List (List Text) :=
  let args := (r.scriptArgs.lookup script).getD []
  if args ≠ [] then
    if r.oneByOne then (splitWords args).map (fun arg => [arg]) else [splitWords args]
  else [[]]

def Runner.scriptStep (r : Runner) (h : Host) (s : State) (script : Text) : State :=
  if scriptWanted h r.nowantScript s.directory script then
    (r.arguments script).foldl (fun s arguments => execute h s script arguments) s
  else s

def Runner.scripts (r : Runner) (h : Host) (d : Directory) : State :=
  run (r.scriptStep h) ⟨d,[]⟩ (glob h.collation shellName "*.sh".toList d.names)

def Runner.exes (r : Runner) (h : Host) (d : Directory) : State := exeLoop h r.nowantExe (r.scripts h d).directory

def Runner.starts (r : Runner) (h : Host) (d : Directory) : List Command :=
  r.early.map plainRun ++ (r.scripts h d).commands ++ (r.exes h d).commands

inductive ModuleEvent where
  | insmod (module : Text) (loaded : Bool)
  | rmmod (module : Text) (unloaded : Bool)
  deriving DecidableEq, Repr

/- Which modules start when they are loaded, and which ones nothing holds when they are to be
unloaded. A module is known by the name of its file. -/
structure Modules where
  starts : Text → Bool
  stops : Text → Bool

structure ModuleRun where
  events : List ModuleEvent
  loaded : List Text
  succeeded : Bool
  deriving DecidableEq, Repr

/- insmod "$module"; rmmod "$module": a loaded module is not loaded again, and one that is not
loaded cannot be unloaded. -/
def loadUnload (m : Modules) (loaded : List Text) (module : Text) : ModuleRun :=
  let inserted := !loaded.contains module && m.starts module
  let now := if inserted then module::loaded else loaded
  let removed := now.contains module && m.stops module
  ⟨[.insmod module inserted,.rmmod module removed],
    if removed then now.filter (fun x => x != module) else now,removed⟩

def moduleLoop (m : Modules) (d : Directory) (loaded : List Text) : List Text → ModuleRun
  | [] => ⟨[],loaded,true⟩
  | module::modules =>
    if d.isFile module then
      let here := loadUnload m loaded module
      if here.succeeded then
        let rest := moduleLoop m d here.loaded modules
        ⟨here.events ++ rest.events,rest.loaded,rest.succeeded⟩
      else here
    else moduleLoop m d loaded modules

def earlyLoop (m : Modules) (loaded : List Text) : List Text → List ModuleEvent × List Text
  | [] => ([],loaded)
  | module::modules =>
    let here := loadUnload m loaded module
    let rest := earlyLoop m here.loaded modules
    (here.events ++ rest.1,rest.2)

structure Ended where
  commands : List Command
  events : List ModuleEvent
  loaded : List Text
  status : Nat
  deriving DecidableEq, Repr

/- effect is what a program that is started does to the modules that are loaded. -/
def Runner.runAll (r : Runner) (h : Host) (m : Modules) (effect : List Text → Command → List Text)
    (d : Directory) (loaded : List Text) : Ended :=
  let early := earlyLoop m ((r.early.map plainRun).foldl effect loaded) r.earlyModules
  let now := ((r.scripts h d).commands ++ (r.exes h d).commands).foldl effect early.2
  let modules := moduleLoop m (r.exes h d).directory now r.modulesToLoad
  if modules.succeeded then
    let special := if r.startsSpecial then (r.specialSh.filter (r.exes h d).directory.isFile).map plainRun else []
    ⟨r.starts h d ++ special,early.1 ++ modules.events,special.foldl effect modules.loaded,0⟩
  else ⟨r.starts h d,early.1 ++ modules.events,modules.loaded,1⟩

def plainList (names : List String) (plain : (names.map String.toList).all (fun n => n.all (fun c => !blank c)) = true) :
    NameList := ⟨names.map String.toList,blankFreeAll plain⟩

def perfEventsRunner : Runner where
  early := []
  earlyModules := []
  nowantScript := plainList ["copy_gcov.sh","test_notifier_reboot.sh","test_signal_trap.sh"] rfl
  nowantExe := plainList ["cgroup_fork_process","signal_nopmn_receiver","signal_nopmn_sender"] rfl
  scriptArgs := [("perf.sh".toList,"1".toList)]
  oneByOne := false
  modulesToLoad := ["raw_notifier_callchain_robust.ko","perf_ringbuffer_aux_op_begin.ko",
    "ko_perf_aux_output_end.ko"].map String.toList
  specialSh := []
  startsSpecial := false

def coreRunner : Runner where
  early := ["ctest_perf_fasync".toList]
  earlyModules := []
  nowantScript := plainList ["perf_events_perf.sh","test_perf_event_min_heap.sh"] rfl
  nowantExe := plainList ["ctest_perf_event_min_heap","ctest_perf_fasync"] rfl
  scriptArgs := []
  oneByOne := true
  modulesToLoad := ["ko_perf_event_enable.ko","ko_perf_event_addr_filters_sync.ko",
    "ko_perf_event_refresh.ko"].map String.toList
  specialSh := []
  startsSpecial := true

def eventsRunner : Runner where
  early := ["bpf_ioctl","bpf_fd","bpf_link"].map String.toList
  earlyModules := ["perf_mmap_open_tst.ko".toList]
  nowantScript := plainList [] rfl
  nowantExe := plainList ["bpf_ioctl","bpf_fd","bpf_link","perf_fasync_tst"] rfl
  scriptArgs := []
  oneByOne := false
  modulesToLoad := ["perf_less_group_idx_tst.ko","perf_event_read_value_tst.ko",
    "perf_register_guest_info_callbacks_tst.ko","perf_sigtrap.ko","perf_pmu_unregister_tst.ko",
    "perf_event_create_kernel_counter_tst.ko"].map String.toList
  specialSh := []
  startsSpecial := true

def cgroupRunner (isCgroupV2 : Bool) : Runner where
  early := []
  earlyModules := []
  nowantScript := ownNowantScript isCgroupV2
  nowantExe := ownNowantExe isCgroupV2
  scriptArgs := scriptArgs
  oneByOne := true
  modulesToLoad := []
  specialSh := []
  startsSpecial := false

def suppNowantScript (isCgroupV2 : Bool) : List String :=
  if isCgroupV2 then
    ["test_cgroupv1_tasks_write.sh","test_debug_inforead.sh","test_legacy_freezing_read.sh"]
  else
    ["test_cgroupv2_e_css.sh","test_cgroupv2_reconfigure.sh","test_cgroupv2_cpuset_initfs.sh",
      "test_task_cgroup_path.sh","test_cgroupv2_finalize_control.sh","test_cgroupv2_irq_pressure_rw.sh",
      "test_cgroupv2_kill.sh","cgroupv2_rm_cftypes.ko","test_cgroupv2_threads_rw.sh",
      "test_cgroup_get_from_id.sh","test_cgroup_get_from_file.sh","test_ns_cgroupns_owner.sh",
      "test_pids_cancel_attach.sh","rstat_root_cputime.sh"]

def suppNowantExe (isCgroupV2 : Bool) : List String :=
  ["cgroup_fork_process","ctest_cgroupv2_clone_into"] ++
    if isCgroupV2 then ["ctest_cgroupstat_build_netlink"] else []

def suppRunner (isCgroupV2 : Bool) : Runner where
  early := []
  earlyModules := []
  nowantScript := plainList (suppNowantScript isCgroupV2) (by cases isCgroupV2 <;> rfl)
  nowantExe := plainList (suppNowantExe isCgroupV2) (by cases isCgroupV2 <;> rfl)
  scriptArgs := []
  oneByOne := true
  modulesToLoad := ["cgroupv2_rm_cftypes.ko".toList]
  specialSh := []
  startsSpecial := false

def ownRunners (isCgroupV2 : Bool) : List Runner :=
  [perfEventsRunner,coreRunner,eventsRunner,cgroupRunner isCgroupV2,suppRunner isCgroupV2]

def Runner.commands (r : Runner) (script : Text) : List Command :=
  (r.arguments script).map (fun arguments => ⟨script,arguments⟩)

section
variable {r : Runner} {h : Host} {d : Directory}

theorem executeKept {s : State} {script : Text} (shell : suffix <:+ script) (kept : Kept d s)
    (arguments : List Text) : Kept d (execute h s script arguments) := by
  refine keptTrans kept ?_
  unfold execute
  split
  · exact chmodKept shell _
  · exact keptStart _ _

theorem executedKept {script : Text} (shell : suffix <:+ script) (lists : List (List Text)) {s : State}
    (kept : Kept d s) : Kept d (lists.foldl (fun s arguments => execute h s script arguments) s) := by
  induction lists generalizing s with
  | nil => exact kept
  | cons arguments lists ih => exact ih (executeKept shell kept arguments)

theorem executedCommands (script : Text) (lists : List (List Text)) (s : State) :
    (lists.foldl (fun s arguments => execute h s script arguments) s).commands =
      s.commands ++ lists.map (fun arguments => ⟨script,arguments⟩) := by
  induction lists generalizing s with
  | nil => simp
  | cons arguments lists ih =>
    rw [List.foldl_cons,ih]
    simp [execute]

theorem argumentStepKept {s : State} {script : Text} (shell : suffix <:+ script) (kept : Kept d s) :
    Kept d (r.scriptStep h s script) := by
  unfold Runner.scriptStep
  split
  · exact executedKept shell _ kept
  · exact kept

theorem argumentStepCommands (x : Text) (s : State) (kept : Kept d s) : (r.scriptStep h s x).commands =
    s.commands ++ if scriptWanted h r.nowantScript d x then r.commands x else [] := by
  have same : scriptWanted h r.nowantScript s.directory x = scriptWanted h r.nowantScript d x := by
    unfold scriptWanted
    rw [kept.files x]
  unfold Runner.scriptStep
  rw [same]
  split
  · exact executedCommands x _ s
  · rw [List.append_nil]

theorem loopAppends {step : State → Text → State} {wanted : Text → Bool} {added : Text → List Command}
    {holds : State → Prop} {names : List Text} (kept : ∀ x ∈ names, ∀ s, holds s → holds (step s x))
    (runs : ∀ x s, holds s → (step s x).commands = s.commands ++ if wanted x then added x else [])
    {s : State} (start : holds s) :
    (run step s names).commands = s.commands ++ (names.filter wanted).flatMap added := by
  induction names generalizing s with
  | nil => simp [run]
  | cons x names ih =>
    have here := runs x s start
    have later := ih (fun y mem => kept y (List.mem_cons_of_mem x mem)) (kept x List.mem_cons_self s start)
    have next : run step s (x::names) = run step (step s x) names := rfl
    rw [next,later,here,List.append_assoc]
    cases test : wanted x with
    | true => simp [test]
    | false => simp [test]

theorem runnerKept (r : Runner) (h : Host) (d : Directory) : Kept d (r.scripts h d) := by
  unfold Runner.scripts
  have shell := globbedShell h.collation d.names
  exact runKeeps (fun x mem s kept => argumentStepKept (shell x mem) kept) (keptStart d [])

theorem runnerScripts (r : Runner) (h : Host) (d : Directory) :
    ∃ scripts, (r.scripts h d).commands = scripts.flatMap r.commands ∧
      Selected h.collation (WantedScript r.nowantScript d) scripts := by
  have shell := globbedShell h.collation d.names
  have runs := @loopAppends (r.scriptStep h) _ r.commands (Kept d) _
    (fun x mem s kept => argumentStepKept (shell x mem) kept) argumentStepCommands ⟨d,[]⟩ (keptStart d [])
  have inside (x : Text) (wanted : scriptWanted h r.nowantScript d x = true) : x ∈ d.names := by
    unfold scriptWanted at wanted
    rw [Bool.and_eq_true,Bool.and_eq_true] at wanted
    exact (fileNamed wanted.1.1).1
  refine ⟨_,runs,?_⟩
  exact selectedSame (wantedScriptIff h r.nowantScript d) (selectedGlob h.collation d.distinct inside (by decide))

theorem keptExes (nowantExe : NameList) {s : State} (kept : Kept d s) :
    ∃ exes, (exeLoop h nowantExe s.directory).commands = exes.map plainRun ∧
      Selected h.collation (WantedExe nowantExe d) exes := by
  have runs := @loopCommands (exeStep nowantExe) _ (fun t => t.directory = s.directory)
    (glob h.collation (fun x => !hidden x) "*".toList s.directory.names)
    (fun x _ t same => (exeStepDirectory nowantExe t x).trans same) (exeStepCommands nowantExe) ⟨_,[]⟩ rfl
  have wanted : exeWanted nowantExe s.directory = exeWanted nowantExe d := funext (exeWantedKept nowantExe kept)
  have inside (x : Text) (wanted : exeWanted nowantExe d x = true) : x ∈ d.names := by
    unfold exeWanted at wanted
    simp only [Bool.and_eq_true] at wanted
    exact (fileNamed wanted.1.1.1.1).1
  rw [wanted,kept.names] at runs
  unfold exeLoop
  rw [kept.names]
  refine ⟨_,runs,?_⟩
  exact selectedSame (wantedExeIff nowantExe d) (selectedGlob h.collation d.distinct inside (by decide))

theorem runnerExes (r : Runner) (h : Host) (d : Directory) :
    ∃ exes, (r.exes h d).commands = exes.map plainRun ∧ Selected h.collation (WantedExe r.nowantExe d) exes :=
  keptExes r.nowantExe (runnerKept r h d)

def startsOf (x : Text) (commands : List Command) : Nat := (commands.map Command.program).count x

theorem startsAppend (x : Text) (front back : List Command) :
    startsOf x (front ++ back) = startsOf x front + startsOf x back := by
  simp [startsOf]

theorem startsPlain (x : Text) (files : List Text) : startsOf x (files.map plainRun) = files.count x := by
  have same : Command.program ∘ plainRun = id := rfl
  rw [startsOf,List.map_map,same,List.map_id]

theorem startsCommands (x script : Text) :
    startsOf x (r.commands script) = if script = x then (r.arguments script).length else 0 := by
  have programs : (r.commands script).map Command.program = List.replicate (r.arguments script).length script := by
    rw [Runner.commands,List.map_map]
    exact List.map_const
  rw [startsOf,programs,List.count_replicate]
  simp

theorem startsScripts (x : Text) {scripts : List Text} (once : scripts.Nodup) :
    startsOf x (scripts.flatMap r.commands) = if x ∈ scripts then (r.arguments x).length else 0 := by
  induction scripts with
  | nil => rfl
  | cons script scripts ih =>
    obtain ⟨fresh,once⟩ := List.nodup_cons.mp once
    rw [List.flatMap_cons,startsAppend,ih once,startsCommands]
    by_cases here : script = x
    · subst here
      simp [fresh]
    · simp [here,Ne.symm here]

/- How often a run starts a file up to the end of the second loop: as often as it is named in
front, and once for each list of its arguments, or once, if a loop wants it. -/
theorem startsExactly (r : Runner) (h : Host) (d : Directory) (x : Text) :
    (WantedScript r.nowantScript d x →
      startsOf x (r.starts h d) = r.early.count x + (r.arguments x).length) ∧
    (WantedExe r.nowantExe d x → startsOf x (r.starts h d) = r.early.count x + 1) ∧
    (¬WantedScript r.nowantScript d x → ¬WantedExe r.nowantExe d x →
      startsOf x (r.starts h d) = r.early.count x) := by
  obtain ⟨scripts,first,scriptsSelected⟩ := runnerScripts r h d
  obtain ⟨exes,second,exesSelected⟩ := runnerExes r h d
  have count : startsOf x (r.starts h d) = r.early.count x +
      (if x ∈ scripts then (r.arguments x).length else 0) + exes.count x := by
    rw [Runner.starts,first,second,startsAppend,startsAppend,startsPlain,startsPlain,
      startsScripts x scriptsSelected.once]
  have apart (script : WantedScript r.nowantScript d x) : ¬WantedExe r.nowantExe d x :=
    fun exe => exe.2.2.1 (.inr script.2.2.1)
  refine ⟨fun script => ?_,fun exe => ?_,fun script exe => ?_⟩
  · have out : x ∉ exes := fun mem => apart script ((exesSelected.exactly x).mp mem)
    rw [count,if_pos ((scriptsSelected.exactly x).mpr script),List.count_eq_zero.mpr out,Nat.add_zero]
  · have out : x ∉ scripts := fun mem => apart ((scriptsSelected.exactly x).mp mem) exe
    have one := List.count_eq_one_of_mem exesSelected.once ((exesSelected.exactly x).mpr exe)
    rw [count,if_neg out,one,Nat.add_zero]
  · have outScripts : x ∉ scripts := fun mem => script ((scriptsSelected.exactly x).mp mem)
    have outExes : x ∉ exes := fun mem => exe ((exesSelected.exactly x).mp mem)
    rw [count,if_neg outScripts,List.count_eq_zero.mpr outExes,Nat.add_zero]

structure StartsOnce (r : Runner) : Prop where
  distinct : r.early.Nodup
  excluded : ∀ x ∈ r.early, x ∈ r.nowantExe.names ∧ ¬suffix <:+ x
  single : ∀ x, (r.arguments x).length = 1

theorem startedOnce (once : StartsOnce r) (x : Text) :
    (x ∈ r.early ∨ WantedScript r.nowantScript d x ∨ WantedExe r.nowantExe d x → startsOf x (r.starts h d) = 1) ∧
    (¬(x ∈ r.early ∨ WantedScript r.nowantScript d x ∨ WantedExe r.nowantExe d x) →
      startsOf x (r.starts h d) = 0) := by
  obtain ⟨script,exe,neither⟩ := startsExactly r h d x
  constructor
  · intro started
    by_cases named : x ∈ r.early
    · obtain ⟨unwanted,other⟩ := once.excluded x named
      rw [neither (fun wanted => other wanted.2.2.1) (fun wanted => wanted.2.2.2.2 unwanted)]
      exact List.count_eq_one_of_mem once.distinct named
    · rcases started with here | wanted | wanted
      · exact absurd here named
      · rw [script wanted,once.single,List.count_eq_zero.mpr named]
      · rw [exe wanted,List.count_eq_zero.mpr named]
  · intro idle
    simp only [not_or] at idle
    rw [neither idle.2.1 idle.2.2,List.count_eq_zero.mpr idle.1]

theorem ownStartsOnce {isCgroupV2 : Bool} (own : r ∈ ownRunners isCgroupV2) : StartsOnce r := by
  have noArguments (r : Runner) (none : r.scriptArgs = []) (x : Text) : (r.arguments x).length = 1 := by
    simp [Runner.arguments,none]
  have noneEarly (r : Runner) (none : r.early = []) (single : ∀ x, (r.arguments x).length = 1) : StartsOnce r :=
    ⟨by simp [none],by simp [none],single⟩
  unfold ownRunners at own
  simp only [List.mem_cons,List.not_mem_nil,or_false] at own
  rcases own with rfl | rfl | rfl | rfl | rfl
  · refine noneEarly _ rfl (fun x => ?_)
    simp only [Runner.arguments,perfEventsRunner,Bool.false_eq_true,if_false]
    split <;> rfl
  · refine ⟨List.nodup_singleton _,?_,noArguments _ rfl⟩
    intro x mem
    rw [List.mem_singleton.mp mem]
    decide
  · refine ⟨by decide,?_,noArguments _ rfl⟩
    intro x mem
    simp only [eventsRunner,List.map_cons,List.map_nil,List.mem_cons,List.not_mem_nil,or_false] at mem
    rcases mem with rfl | rfl | rfl <;> decide
  · exact noneEarly _ rfl (noArguments _ rfl)
  · exact noneEarly _ rfl (noArguments _ rfl)

theorem ownCommands {isCgroupV2 : Bool} (own : r ∈ ownRunners isCgroupV2) (m : Modules)
    (effect : List Text → Command → List Text) (loaded : List Text) :
    (r.runAll h m effect d loaded).commands = r.starts h d := by
  have special : r.specialSh = [] := by
    unfold ownRunners at own
    simp only [List.mem_cons,List.not_mem_nil,or_false] at own
    rcases own with rfl | rfl | rfl | rfl | rfl <;> rfl
  unfold Runner.runAll
  rw [special]
  simp only [List.filter_nil,List.map_nil,ite_self,List.append_nil]
  split <;> rfl

theorem ownRunsStartOnce {isCgroupV2 : Bool} (own : r ∈ ownRunners isCgroupV2) (m : Modules)
    (effect : List Text → Command → List Text) (loaded : List Text) (x : Text) :
    (x ∈ r.early ∨ WantedScript r.nowantScript d x ∨ WantedExe r.nowantExe d x →
      startsOf x (r.runAll h m effect d loaded).commands = 1) ∧
    (¬(x ∈ r.early ∨ WantedScript r.nowantScript d x ∨ WantedExe r.nowantExe d x) →
      startsOf x (r.runAll h m effect d loaded).commands = 0) := by
  rw [ownCommands own]
  exact startedOnce (ownStartsOnce own) x

end

theorem namedByWords {entries : List Entry}
    (plain : entries.all (fun e => !e.name.isEmpty && e.name.all (fun c => !blank c)) = true) :
    ∀ e ∈ entries, Word e.name := by
  intro e mem
  have here := List.all_eq_true.mp plain e mem
  rw [Bool.and_eq_true,Bool.not_eq_true',List.isEmpty_eq_false_iff] at here
  exact ⟨here.1,blankFree here.2⟩

theorem charactersTrans (a b c : Text) (h : decide (a ≤ b) = true) (k : decide (b ≤ c) = true) :
    decide (a ≤ c) = true :=
  decide_eq_true (le_trans (of_decide_eq_true h) (of_decide_eq_true k))

theorem charactersTotal (a b : Text) : (decide (a ≤ b) || decide (b ≤ a)) = true := by
  rw [Bool.or_eq_true,decide_eq_true_eq,decide_eq_true_eq]
  exact le_total a b

def plainHost : Host where
  front := "./".toList
  frontEnds := .inr ⟨['.'],rfl⟩
  collation := ⟨fun a b => decide (a ≤ b),charactersTrans,charactersTotal⟩
  chmodWorks := fun _ => true

def coreFiles : Directory where
  entries := [⟨"ctest_perf_event_freq".toList,true,true⟩,⟨"ctest_perf_fasync".toList,true,true⟩,
    ⟨"perf_events_perf.sh".toList,true,false⟩,⟨"run_all.sh".toList,true,true⟩]
  distinct := by decide
  words := namedByWords rfl

def noModules : Modules := ⟨fun _ => false,fun _ => false⟩

theorem coreFilesStarted :
    startsOf "ctest_perf_fasync".toList
        (coreRunner.runAll plainHost noModules (fun loaded _ => loaded) coreFiles []).commands = 1 ∧
      startsOf "perf_events_perf.sh".toList
        (coreRunner.runAll plainHost noModules (fun loaded _ => loaded) coreFiles []).commands = 0 := by
  have own : coreRunner ∈ ownRunners false := List.mem_cons_of_mem _ List.mem_cons_self
  refine ⟨(ownRunsStartOnce own noModules _ [] _).1 (.inl (List.mem_singleton_self _)),
    (ownRunsStartOnce own noModules _ [] _).2 ?_⟩
  intro started
  obtain named | wanted | wanted := started
  · revert named
    decide
  · have unwanted : "perf_events_perf.sh".toList ∈ coreRunner.nowantScript.names := List.mem_cons_self
    exact wanted.2.2.2.2 unwanted
  · exact wanted.2.2.1 (.inr (by decide))

def unloadable (m : Modules) (loaded : List Text) (x : Text) : Bool := (loaded.contains x || m.starts x) && m.stops x

def attempt (m : Modules) (loaded : List Text) (x : Text) : List ModuleEvent :=
  [.insmod x (!loaded.contains x && m.starts x),.rmmod x (unloadable m loaded x)]

def without (loaded gone : List Text) : List Text := loaded.filter (fun y => !gone.contains y)

section
variable {m : Modules} {d : Directory} {loaded : List Text} {x : Text}

theorem loadUnloaded (passes : unloadable m loaded x = true) :
    loadUnload m loaded x = ⟨attempt m loaded x,loaded.filter (fun y => y != x),true⟩ := by
  unfold unloadable at passes
  unfold loadUnload attempt unloadable
  cases here : loaded.contains x with
  | true => simp_all
  | false => simp_all

theorem loadStuck (stuck : unloadable m loaded x = false) : loadUnload m loaded x =
    ⟨attempt m loaded x,if !loaded.contains x && m.starts x then x::loaded else loaded,false⟩ := by
  unfold unloadable at stuck
  unfold loadUnload attempt unloadable
  cases here : loaded.contains x with
  | true => simp_all
  | false => cases starts : m.starts x <;> simp_all

theorem containsOther {y : Text} (other : y ≠ x) :
    (loaded.filter (fun y => y != x)).contains y = loaded.contains y := by
  rw [Bool.eq_iff_iff]
  simp [other]

theorem attemptOther {y : Text} (other : y ≠ x) :
    unloadable m (loaded.filter (fun y => y != x)) y = unloadable m loaded y ∧
      attempt m (loaded.filter (fun y => y != x)) y = attempt m loaded y := by
  unfold attempt unloadable
  rw [containsOther other]
  exact ⟨rfl,rfl⟩

theorem withoutCons (loaded gone : List Text) (x : Text) :
    without (loaded.filter (fun y => y != x)) gone = without loaded (x::gone) := by
  unfold without
  rw [List.filter_filter]
  refine List.filter_congr (fun y _ => ?_)
  by_cases same : y = x <;> simp [same]

theorem moduleLoopFront {before : List Text} (distinct : before.Nodup)
    (passes : ∀ x ∈ before, unloadable m loaded x = true) {modules rest : List Text}
    (split : modules.filter d.isFile = before ++ rest) :
    ∃ later, later.filter d.isFile = rest ∧ moduleLoop m d loaded modules =
      ⟨before.flatMap (attempt m loaded) ++ (moduleLoop m d (without loaded before) later).events,
        (moduleLoop m d (without loaded before) later).loaded,
        (moduleLoop m d (without loaded before) later).succeeded⟩ := by
  induction modules generalizing before loaded with
  | nil =>
    obtain ⟨rfl,rfl⟩ := List.append_eq_nil_iff.mp split.symm
    have same : without loaded [] = loaded := by simp [without]
    exact ⟨[],rfl,by rw [same]; rfl⟩
  | cons module modules ih =>
    cases file : d.isFile module with
    | false =>
      rw [List.filter_cons_of_neg (by simp [file])] at split
      obtain ⟨later,here,same⟩ := ih distinct passes split
      exact ⟨later,here,by simp only [moduleLoop,file,Bool.false_eq_true,if_false,same]⟩
    | true =>
      cases before with
      | nil =>
        have same : without loaded [] = loaded := by simp [without]
        exact ⟨module::modules,split,by rw [same]; rfl⟩
      | cons x before =>
        rw [List.filter_cons_of_pos file,List.cons_append] at split
        obtain ⟨rfl,tail⟩ := List.cons.inj split
        obtain ⟨fresh,distinct⟩ := List.nodup_cons.mp distinct
        have apart (y : Text) (mem : y ∈ before) : y ≠ module := fun same => fresh (same ▸ mem)
        obtain ⟨later,here,same⟩ := @ih (loaded.filter (fun y => y != module)) before distinct
          (fun y mem => by
            rw [(attemptOther (apart y mem)).1]
            exact passes y (List.mem_cons_of_mem _ mem)) tail
        have attempts : before.flatMap (attempt m (loaded.filter (fun y => y != module))) =
            before.flatMap (attempt m loaded) :=
          List.flatMap_congr (fun y mem => (attemptOther (apart y mem)).2)
        rw [withoutCons,attempts] at same
        refine ⟨later,here,?_⟩
        simp only [moduleLoop,file,if_true,loadUnloaded (passes module List.mem_cons_self),same]
        simp

theorem moduleLoopNone {modules : List Text} (none : modules.filter d.isFile = []) :
    moduleLoop m d loaded modules = ⟨[],loaded,true⟩ := by
  induction modules with
  | nil => rfl
  | cons module modules ih =>
    have file : d.isFile module = false := by
      cases here : d.isFile module with
      | false => rfl
      | true =>
        rw [List.filter_cons_of_pos here] at none
        cases none
    rw [List.filter_cons_of_neg (by simp [file])] at none
    simp only [moduleLoop,file,Bool.false_eq_true,if_false,ih none]

theorem moduleLoopStop {modules after : List Text} (split : modules.filter d.isFile = x::after)
    (stuck : unloadable m loaded x = false) : moduleLoop m d loaded modules =
      ⟨attempt m loaded x,if !loaded.contains x && m.starts x then x::loaded else loaded,false⟩ := by
  induction modules with
  | nil => cases split
  | cons module modules ih =>
    cases file : d.isFile module with
    | false =>
      rw [List.filter_cons_of_neg (by simp [file])] at split
      simp only [moduleLoop,file,Bool.false_eq_true,if_false,ih split]
    | true =>
      rw [List.filter_cons_of_pos file] at split
      obtain ⟨rfl,_⟩ := List.cons.inj split
      simp only [moduleLoop,file,if_true,loadStuck stuck,Bool.false_eq_true,if_false]

theorem withoutContains {before : List Text} (fresh : x ∉ before) :
    (without loaded before).contains x = loaded.contains x := by
  rw [Bool.eq_iff_iff]
  simp [without,fresh]

theorem moduleLoopExactly {modules : List Text} (distinct : modules.Nodup) :
    ((∀ x ∈ modules.filter d.isFile, unloadable m loaded x = true) → moduleLoop m d loaded modules =
      ⟨(modules.filter d.isFile).flatMap (attempt m loaded),without loaded (modules.filter d.isFile),true⟩) ∧
    ∀ before x after, modules.filter d.isFile = before ++ x::after →
      (∀ y ∈ before, unloadable m loaded y = true) → unloadable m loaded x = false →
      moduleLoop m d loaded modules = ⟨(before ++ [x]).flatMap (attempt m loaded),
        if !loaded.contains x && m.starts x then x::without loaded before else without loaded before,false⟩ := by
  have present := distinct.filter d.isFile
  constructor
  · intro passes
    obtain ⟨later,none,whole⟩ := @moduleLoopFront m d loaded _ present passes modules [] (by simp)
    rw [whole,moduleLoopNone none,List.append_nil]
  · intro before x after split passes stuck
    rw [split,List.nodup_append] at present
    obtain ⟨front,_,apart⟩ := present
    have fresh : x ∉ before := fun mem => apart x mem x List.mem_cons_self rfl
    have kept := @withoutContains loaded x before fresh
    have still : unloadable m (without loaded before) x = unloadable m loaded x := by
      unfold unloadable
      rw [kept]
    have tried : attempt m (without loaded before) x = attempt m loaded x := by
      unfold attempt
      rw [kept,still]
    obtain ⟨later,rest,whole⟩ := moduleLoopFront front passes split
    rw [whole,moduleLoopStop rest (still.trans stuck),kept,tried,List.flatMap_append,List.flatMap_singleton]

end

def heldSecond : Modules := ⟨fun _ => true,fun x => x != "b.ko".toList⟩

def threeModules : Directory where
  entries := [⟨"a.ko".toList,true,false⟩,⟨"b.ko".toList,true,false⟩,⟨"c.ko".toList,true,false⟩]
  distinct := by decide
  words := namedByWords rfl

/- The first module had been loaded before; the third is not tried. -/
theorem heldModuleStays : moduleLoop heldSecond threeModules ["a.ko".toList]
    ["a.ko".toList,"b.ko".toList,"c.ko".toList] =
      ⟨[.insmod "a.ko".toList false,.rmmod "a.ko".toList true,.insmod "b.ko".toList true,
        .rmmod "b.ko".toList false],["b.ko".toList],false⟩ :=
  ((moduleLoopExactly (by decide)).2 ["a.ko".toList] "b.ko".toList ["c.ko".toList] (by decide) (by decide)
    (by decide)).trans (by decide)

section
variable {r : Runner} {h : Host} {d : Directory}

theorem sameScripts {list : NameList} (agree : ∀ x, suffix <:+ x → (x ∈ r.nowantScript.names ↔ x ∈ list.names)) :
    ({ r with nowantScript := list } : Runner).scripts h d = r.scripts h d := by
  unfold Runner.scripts run
  refine List.foldl_ext _ _ _ (fun s x mem => ?_)
  have shell := globbedShell h.collation d.names x mem
  have wanted : scriptWanted h list s.directory x = scriptWanted h r.nowantScript s.directory x := by
    unfold scriptWanted
    cases file : s.directory.isFile x with
    | false => rfl
    | true =>
      have word := (fileNamed file).2
      have same : list.lists x = r.nowantScript.lists x := by
        rw [Bool.eq_iff_iff,listsIff list word,listsIff r.nowantScript word]
        exact (agree x shell).symm
      rw [same]
  unfold Runner.scriptStep
  rw [wanted]
  rfl

theorem sameRun {list : NameList} (agree : ∀ x, suffix <:+ x → (x ∈ r.nowantScript.names ↔ x ∈ list.names))
    (m : Modules) (effect : List Text → Command → List Text) (loaded : List Text) :
    ({ r with nowantScript := list } : Runner).runAll h m effect d loaded = r.runAll h m effect d loaded := by
  have scripts := @sameScripts r h d list agree
  have exes : ({ r with nowantScript := list } : Runner).exes h d = r.exes h d := by
    unfold Runner.exes
    rw [scripts]
  have starts : ({ r with nowantScript := list } : Runner).starts h d = r.starts h d := by
    unfold Runner.starts
    rw [scripts,exes]
  unfold Runner.runAll
  rw [scripts,exes,starts]

theorem exesDirectory : (r.exes h d).directory = (r.scripts h d).directory := by
  unfold Runner.exes exeLoop
  exact @runKeeps _ _ (exeStep r.nowantExe) (fun s => s.directory = (r.scripts h d).directory) _
    (fun x _ s same => (exeStepDirectory r.nowantExe s x).trans same) ⟨_,[]⟩ rfl

theorem oneModule {m : Modules} {loaded : List Text} {x : Text} :
    (moduleLoop m d loaded [x]).events = if d.isFile x then attempt m loaded x else [] := by
  cases file : d.isFile x with
  | false => rw [moduleLoopNone (by simp [file])]; rfl
  | true =>
    have present : [x].filter d.isFile = [] ++ x::[] := by simp [file]
    cases passes : unloadable m loaded x with
    | true => rw [(moduleLoopExactly (List.nodup_singleton x)).1 (by simp [file,passes])]; simp [file]
    | false => rw [moduleLoopStop present passes]; rfl

/- The module that supp/run_all.sh means to pass over. -/
def rmCftypes : Text := "cgroupv2_rm_cftypes.ko".toList

def suppListed (isCgroupV2 : Bool) : NameList where
  names := (suppRunner isCgroupV2).nowantScript.names.filter (fun n => n != rmCftypes)
  plain := fun n mem => (suppRunner isCgroupV2).nowantScript.plain n (List.mem_filter.mp mem).1

theorem rmCftypesSame (isCgroupV2 : Bool) (x : Text) (shell : suffix <:+ x) :
    x ∈ (suppRunner isCgroupV2).nowantScript.names ↔ x ∈ (suppListed isCgroupV2).names := by
  have other : x ≠ rmCftypes := by
    rintro rfl
    revert shell
    decide
  simp [suppListed,other]

theorem suppEvents (isCgroupV2 : Bool) (h : Host) (m : Modules) (effect : List Text → Command → List Text)
    (d : Directory) (loaded : List Text) :
    ((suppRunner isCgroupV2).runAll h m effect d loaded).events =
      if d.isFile rmCftypes then
        attempt m (((suppRunner isCgroupV2).starts h d).foldl effect loaded) rmCftypes
      else [] := by
  have file : ((suppRunner isCgroupV2).exes h d).directory.isFile rmCftypes = d.isFile rmCftypes := by
    rw [exesDirectory,(runnerKept (suppRunner isCgroupV2) h d).files]
  have tried := @oneModule ((suppRunner isCgroupV2).exes h d).directory m
    (((suppRunner isCgroupV2).starts h d).foldl effect loaded) rmCftypes
  rw [file] at tried
  rw [← tried]
  unfold Runner.runAll
  dsimp only
  split
  · rfl
  · rfl

/- The module's entry in nowant_script does nothing: without it the run is the same, and with
either version of cgroups insmod is run for the module if its file is there. -/
theorem listedModuleLoaded (isCgroupV2 : Bool) (h : Host) (m : Modules)
    (effect : List Text → Command → List Text) (d : Directory) (loaded : List Text) :
    ({ suppRunner isCgroupV2 with nowantScript := suppListed isCgroupV2 } : Runner).runAll h m effect d loaded =
        (suppRunner isCgroupV2).runAll h m effect d loaded ∧
      (d.isFile rmCftypes = true →
        ((suppRunner isCgroupV2).runAll h m effect d loaded).events =
          attempt m (((suppRunner isCgroupV2).starts h d).foldl effect loaded) rmCftypes ∧
        (m.starts rmCftypes = true → rmCftypes ∉ ((suppRunner isCgroupV2).starts h d).foldl effect loaded →
          .insmod rmCftypes true ∈ ((suppRunner isCgroupV2).runAll h m effect d loaded).events)) := by
  constructor
  · exact sameRun (rmCftypesSame isCgroupV2) m effect loaded
  · intro file
    have events := suppEvents isCgroupV2 h m effect d loaded
    rw [if_pos file] at events
    refine ⟨events,fun starts fresh => ?_⟩
    rw [events]
    simp [attempt,starts,fresh]

end

def suppFiles : Directory where
  entries := [⟨rmCftypes,true,false⟩,⟨"test_cgroupv2_kill.sh".toList,true,false⟩]
  distinct := by decide
  words := namedByWords rfl

def startingModules : Modules := ⟨fun _ => true,fun _ => true⟩

theorem suppFilesLoaded : .insmod rmCftypes true ∈
    ((suppRunner false).runAll plainHost startingModules (fun loaded _ => loaded) suppFiles []).events := by
  refine ((listedModuleLoaded false plainHost startingModules _ suppFiles []).2 (by decide)).2 rfl ?_
  rw [List.foldl_fixed]
  exact List.not_mem_nil

theorem cgroupRunnerStarts (isCgroupV2 : Bool) (h : Host) (d : Directory) :
    (cgroupRunner isCgroupV2).starts h d = (runAll h isCgroupV2 d).1 ++ (runAll h isCgroupV2 d).2 := by
  have scripts : (cgroupRunner isCgroupV2).scripts h d = scriptLoop h (ownNowantScript isCgroupV2) d := by
    unfold Runner.scripts scriptLoop run
    refine List.foldl_ext _ _ _ (fun s x _ => ?_)
    have same : (cgroupRunner isCgroupV2).nowantScript = ownNowantScript isCgroupV2 := rfl
    unfold Runner.scriptStep scriptStep
    rw [same]
    split
    · simp [Runner.arguments,cgroupRunner,scriptArgs]
    · rfl
  unfold Runner.starts Runner.exes
  rw [scripts]
  rfl

end KernelTestTools.RunAll
