import KernelTestTools.SymbolLookup
import KernelTestTools.ModuleParameters

/-! From /proc/kallsyms to the function pointers of the test modules: a script's lookups, the
arguments of insmod, the parameters of the module it loads and the functions that the module
calls through them. -/
namespace KernelTestTools.SymbolPointers
open TextFile ShellText SymbolLookup ModuleParameters

/- A call of module_init through the address in a parameter, made unless module_init returns
before it; guarded, if a null pointer is not called. -/
structure Call where
  parameter : Text
  function : Text
  guarded : Bool
  deriving DecidableEq, Repr

structure TestModule where
  parameters : List Parameter
  calls : List Call
  deriving DecidableEq, Repr

/- A script with the module it loads: words of insmod that are not addresses, and addresses that
are checked but not passed on. -/
structure Loader where
  module : TestModule
  lookups : List Lookup
  front : List Text
  behind : List Text
  alsoChecked : List Wanted

inductive Outcome where
  | exits
  | refused
  | loaded (s : Settings)

def Loader.checked (p : Loader) : List Wanted := p.lookups.map (·.wanted) ++ p.alsoChecked

def Loader.run (p : Loader) (file : Text) : Outcome :=
  if p.alsoChecked.all (fun w => checkAddr (funcAddress w file)) then
    match testScript p.lookups file with
    | none => .exits
    | some arguments =>
      match insmod p.module.parameters (p.front ++ arguments ++ p.behind) with
      | none => .refused
      | some s => .loaded s
  else .exits

/- A string parameter is read by the module itself, in base 16. -/
def pointer : Setting → Option Address
  | .number n => some n
  | .int _ => none
  | .text s => kstrtoul 16 s

def ulong (name : String) : Parameter := ⟨name.toList,.ulong⟩

def callOf (call : String × String × Bool) : Call := ⟨call.1.toList,call.2.1.toList,call.2.2⟩

def calling (calls : List (String × String × Bool)) : TestModule :=
  ⟨calls.map (fun c => ulong c.1),calls.map callOf⟩

def ctestCgroupv1StatsBuild : TestModule := calling [("addr","cgroupstats_build",true)]
def ctestCpusetFallback : TestModule := calling [("addr","cpuset_cpus_allowed_fallback",true)]
def ctestCgroupPathKfsId : TestModule := calling [("addr","cgroup_path_from_kernfs_id",true)]
def ctestCpusetMemSpreadNode : TestModule := calling [("addr","cpuset_slab_spread_node",false)]
def ctestCgroupCancelFork : TestModule := calling [("addr","cgroup_cancel_fork",false),
    ("addr2","cgroup_can_fork",false)]
def ctestCgroupParseFloat : TestModule := calling [("addr","cgroup_parse_float",true)]
def ctestCpusetMems : TestModule := calling [("addr1","cpuset_print_current_mems_allowed",true),
    ("addr2","__cpuset_memory_pressure_bump",true)]
def pidsCancelAttach : TestModule := calling [("addr","pids_cancel_attach",false)]
def cgroupv2ECss : TestModule := calling [("addr","cgroup_e_css",false)]
def cgroupv2FinalizeControl : TestModule := calling [("addr","cgroup_finalize_control",false)]
def koRbFreeAux : TestModule := calling [("addr1","rb_free_aux",false)]
def koSignalNoRestartSyscall : TestModule := calling [("addr1","do_no_restart_syscall",false)]
def ctestSignalIgnore : TestModule := calling [("addr1","ignore_signals",false),
    ("addr2","flush_itimer_signals",false),("addr3","unhandled_signal",false)]
def signalCopyFromUser32 : TestModule := calling [("addr1","copy_siginfo_from_user32",false)]
def ctestSignalForceSigOther : TestModule := calling [("addr1","force_sig_seccomp",false),
    ("addr2","force_sig_ptrace_errno_trap",false),("addr3","force_sig_fault_trapno",false),
    ("addr4","send_sig_fault_trapno",false)]
def ctestTaskJoinStop : TestModule := calling [("addr1","task_join_group_stop",false)]
def rbAllocAux : TestModule := calling [("addr1","rb_alloc_aux",false)]
def koPerfOutputSkip : TestModule := calling [("addr2","perf_output_skip",false)]
def ctestSignalSendSigPerf : TestModule := calling [("addr1","send_sig_perf",false)]
def ctestSignalSigPend : TestModule := calling [("addr1","calculate_sigpending",false),
    ("addr2","recalc_sigpending_and_wake",false)]
def ctestSignalSetupDone : TestModule := calling [("addr1","signal_setup_done",false),
    ("addr2","force_exit_sig",false)]
def koSigFaultSend : TestModule := calling [("addr1","force_sig_fault",false),("addr2","send_sig_fault",false)]
def koPerfEventFunctionLocal : TestModule := calling [("addr1","event_function_local.constprop.0",false),
    ("addr2","__perf_event_disable",false)]
def koPerfEventMatch : TestModule := calling [("addr1","exclusive_event_installable",false)]
def koPerfPendingTask : TestModule := calling [("addr1","perf_pending_task",false)]
def koPerfGetPageSize : TestModule := calling [("addr1","perf_get_page_size",false)]
def koPerfEventReadEvent : TestModule := calling [("addr1","perf_event_read_event",false)]
def koPerfRotateCtx : TestModule := calling [("addr1","rotate_ctx",false)]
def koPerfSchedCbChange : TestModule := calling [("addr1","perf_sched_cb_inc",false),
    ("addr2","perf_sched_cb_dec",false)]
def koPerfGroupUpdateUserpage : TestModule := calling [("addr1","merge_sched_in",false)]
def koPerfEventReadLocal : TestModule := calling [("addr1","perf_event_read_local",false)]
def koPerfOutputReadOne : TestModule := calling [("addr1","perf_output_read",false)]
def koPerfHrtimer : TestModule := calling [("addr1","perf_mux_hrtimer_restart",false)]
def koPerfEventStop : TestModule := calling [("addr1","perf_event_stop",false)]

/- test_cgroup_id is a ullong, which is read as a ulong is. -/
def ctestCgroupGetFromId : TestModule :=
  ⟨[ulong "test_cgroup_id",ulong "addr"],[callOf ("addr","css_from_id",true)]⟩

/- The call through addr2 is commented out. -/
def koPerfPmuSchedTask : TestModule :=
  ⟨[ulong "addr1",ulong "addr2"],[callOf ("addr1","perf_sched_cb_inc",false)]⟩

def ctestSignalForceSigMceerr : TestModule := calling [("addr1","force_sig_mceerr",false),
    ("addr2","force_sig_bnderr",false),("addr3","force_sig_pkuerr",false)]

def notifier : TestModule := ⟨[⟨"addr".toList,.string 20⟩],[callOf ("addr","notify_die",true)]⟩

section
variable (parameter name : String)
  (plain : name.toList.all (fun c => c.isAlphanum || c == '_' || c == '.') = true)
  (word : (parameter.toList.all (fun c => !blank c) && parameter.toList != []) = true)

theorem parameterWord (word : (parameter.toList.all (fun c => !blank c) && parameter.toList != []) = true) :
    Word parameter.toList := by
  obtain ⟨free,some⟩ := Bool.and_eq_true_iff.mp word
  exact ⟨by simpa using some,blankFree free⟩

/- name=0x$address, name="0x$address" and name=$address -/
def unquoted : Lookup := ⟨⟨name.toList,plain⟩,parameter.toList,true,false,parameterWord parameter word⟩
def quoted : Lookup := ⟨⟨name.toList,plain⟩,parameter.toList,true,true,parameterWord parameter word⟩
def bare : Lookup := ⟨⟨name.toList,plain⟩,parameter.toList,false,false,parameterWord parameter word⟩

end

def passing (module : TestModule) (lookups : List Lookup) : Loader := ⟨module,lookups,[],[],[]⟩

def testCgroupv1StatsBuild : Loader := passing ctestCgroupv1StatsBuild [
    quoted "addr" "cgroupstats_build" rfl rfl]
def testCpusetFallback : Loader := passing ctestCpusetFallback [
    quoted "addr" "cpuset_cpus_allowed_fallback" rfl rfl]
def testCgroupPathKfsId : Loader := passing ctestCgroupPathKfsId [
    quoted "addr" "cgroup_path_from_kernfs_id" rfl rfl]
def testCpusetSpreadNode : Loader := passing ctestCpusetMemSpreadNode [
    quoted "addr" "cpuset_slab_spread_node" rfl rfl]
def testCgroupCancelFork : Loader := passing ctestCgroupCancelFork [quoted "addr" "cgroup_cancel_fork" rfl rfl,
    quoted "addr2" "cgroup_can_fork" rfl rfl]
def testCgroupParseFloat : Loader := passing ctestCgroupParseFloat [quoted "addr" "cgroup_parse_float" rfl rfl]
def testCpusetMems : Loader := passing ctestCpusetMems [cpusetPrintMems,cpusetMemPressure]
def testPidsCancelAttach : Loader := passing pidsCancelAttach [quoted "addr" "pids_cancel_attach" rfl rfl]
def testCgroupv2ECss : Loader := passing cgroupv2ECss [quoted "addr" "cgroup_e_css" rfl rfl]
def testCgroupv2FinalizeControl : Loader := passing cgroupv2FinalizeControl [
    quoted "addr" "cgroup_finalize_control" rfl rfl]
def testRbFreeAux : Loader := passing koRbFreeAux [unquoted "addr1" "rb_free_aux" rfl rfl]
def testSignalNoRestartSyscall : Loader := passing koSignalNoRestartSyscall [
    unquoted "addr1" "do_no_restart_syscall" rfl rfl]
def testSignalIgnore : Loader := passing ctestSignalIgnore [unquoted "addr1" "ignore_signals" rfl rfl,
    unquoted "addr2" "flush_itimer_signals" rfl rfl,unquoted "addr3" "unhandled_signal" rfl rfl]
def testSignalCopyFormUser32 : Loader := passing signalCopyFromUser32 [
    unquoted "addr1" "copy_siginfo_from_user32" rfl rfl]
def testSignalForceSigOther : Loader := passing ctestSignalForceSigOther [
    unquoted "addr1" "force_sig_seccomp" rfl rfl,unquoted "addr2" "force_sig_ptrace_errno_trap" rfl rfl,
    unquoted "addr3" "force_sig_fault_trapno" rfl rfl,unquoted "addr4" "send_sig_fault_trapno" rfl rfl]
def testTaskJoinStop : Loader := passing ctestTaskJoinStop [unquoted "addr1" "task_join_group_stop" rfl rfl]
def testRbAuxAlloc : Loader := passing rbAllocAux [unquoted "addr1" "rb_alloc_aux" rfl rfl]
def testPerfOutputSkip : Loader := passing koPerfOutputSkip [unquoted "addr2" "perf_output_skip" rfl rfl]
def testSignalSendSigpf : Loader := passing ctestSignalSendSigPerf [unquoted "addr1" "send_sig_perf" rfl rfl]
def testSignalSigPending : Loader := passing ctestSignalSigPend [
    unquoted "addr1" "calculate_sigpending" rfl rfl,unquoted "addr2" "recalc_sigpending_and_wake" rfl rfl]
def testSignalSetupDone : Loader := passing ctestSignalSetupDone [unquoted "addr1" "signal_setup_done" rfl rfl,
    unquoted "addr2" "force_exit_sig" rfl rfl]
def testSigFaultSend : Loader := passing koSigFaultSend [unquoted "addr1" "force_sig_fault" rfl rfl,
    unquoted "addr2" "send_sig_fault" rfl rfl]
def testPerfEventFunctionLocal : Loader := passing koPerfEventFunctionLocal [
    unquoted "addr1" "event_function_local.constprop.0" rfl rfl,unquoted "addr2" "__perf_event_disable" rfl rfl]
def testPerfEventMatch : Loader := passing koPerfEventMatch [
    unquoted "addr1" "exclusive_event_installable" rfl rfl]
def testPerfPendingTask : Loader := passing koPerfPendingTask [unquoted "addr1" "perf_pending_task" rfl rfl]
def testPerfGetPageSize : Loader := passing koPerfGetPageSize [perfGetPageSize]
def testPerfEventReadEvent : Loader := passing koPerfEventReadEvent [
    unquoted "addr1" "perf_event_read_event" rfl rfl]
def testPerfRotateCtx : Loader := passing koPerfRotateCtx [unquoted "addr1" "rotate_ctx" rfl rfl]
def testPerfSchedCbChange : Loader := passing koPerfSchedCbChange [unquoted "addr1" "perf_sched_cb_inc" rfl rfl,
    unquoted "addr2" "perf_sched_cb_dec" rfl rfl]
def testPerfGroupUpdateUserpage : Loader := passing koPerfGroupUpdateUserpage [
    unquoted "addr1" "merge_sched_in" rfl rfl]
def testPerfEventReadLocal : Loader := passing koPerfEventReadLocal [
    unquoted "addr1" "perf_event_read_local" rfl rfl]
def testPerfOutputReadOne : Loader := passing koPerfOutputReadOne [unquoted "addr1" "perf_output_read" rfl rfl]
def testPerfHrtimer : Loader := passing koPerfHrtimer [unquoted "addr1" "perf_mux_hrtimer_restart" rfl rfl]
def testPerfEventStop : Loader := passing koPerfEventStop [unquoted "addr1" "perf_event_stop" rfl rfl]

def testPerfPmuSchedTask : Loader := passing koPerfPmuSchedTask [unquoted "addr1" "perf_sched_cb_inc" rfl rfl]

/- The line of insmod ends in an escaped blank, so addr4 stands on a line of its own. -/
def testSignalForceMcerr : Loader where
  module := ctestSignalForceSigMceerr
  lookups := [unquoted "addr1" "force_sig_mceerr" rfl rfl,unquoted "addr2" "force_sig_bnderr" rfl rfl,
    unquoted "addr3" "force_sig_pkuerr" rfl rfl]
  front := []
  behind := [[' ']]
  alsoChecked := [⟨"send_sig_perf".toList,rfl⟩]

def testNotifier : Loader := passing notifier [bare "addr" "notify_die" rfl rfl]
def testNotifierReboot : Loader := passing notifier [bare "addr" "notify_die" rfl rfl]

/- The last word that get_cgroup_id prints with %lu: the inode number of user.slice, or nothing
if it cannot be opened. -/
def inodeText (inode : Option (BitVec 64)) : Text := (inode.map (fun n => Nat.toDigits 10 n.toNat)).getD []

def testCgroupGetFromId (inode : Option (BitVec 64)) : Loader where
  module := ctestCgroupGetFromId
  lookups := [quoted "addr" "css_from_id" rfl rfl]
  front := ["test_cgroup_id=".toList ++ inodeText inode]
  behind := []
  alsoChecked := []

def plainLoaders : List Loader :=
  [testCgroupv1StatsBuild,testCpusetFallback,testCgroupPathKfsId,testCpusetSpreadNode,testCgroupCancelFork,
    testCgroupParseFloat,testCpusetMems,testPidsCancelAttach,testCgroupv2ECss,testCgroupv2FinalizeControl,
    testRbFreeAux,testSignalNoRestartSyscall,testSignalIgnore,testSignalCopyFormUser32,testSignalForceSigOther,
    testTaskJoinStop,testRbAuxAlloc,testPerfOutputSkip,testSignalSendSigpf,testSignalSigPending,
    testSignalSetupDone,testSigFaultSend,testPerfEventFunctionLocal,testPerfEventMatch,testPerfPendingTask,
    testPerfGetPageSize,testPerfEventReadEvent,testPerfRotateCtx,testPerfSchedCbChange,
    testPerfGroupUpdateUserpage,testPerfEventReadLocal,testPerfOutputReadOne,testPerfHrtimer,testPerfEventStop,
    testPerfPmuSchedTask,testSignalForceMcerr,testNotifier,testNotifierReboot]

def ownLoaders (inode : Option (BitVec 64)) : List Loader := testCgroupGetFromId inode::plainLoaders

def listed (name : Text) (symbols : List Symbol) : List Symbol :=
  symbols.filter (fun s => s.module = none ∧ matchesAll name s.name = true)

/- No full stop where a blank or the bracket of a module could match it. -/
def Anchored (name : Text) : Prop := name[1]? ≠ some '.' ∧ name.getLast? ≠ some '.'

theorem matchesSome {p : Char} {w t : Text} (same : matchesAll (p::w) t = true) :
    ∃ c u, t = c::u ∧ (p = '.' ∨ p = c) ∧ matchesAll w u = true := by
  cases t with
  | nil => cases same
  | cons c u =>
    simp only [matchesAll,Bool.and_eq_true,Bool.or_eq_true,beq_iff_eq] at same
    exact ⟨c,u,rfl,same.1,same.2⟩

theorem matchesLast {w t : Text} {c : Char} (same : matchesAll w (t ++ [c]) = true) :
    ∃ p, w.getLast? = some p ∧ (p = '.' ∨ p = c) := by
  induction t generalizing w with
  | nil =>
    cases w with
    | nil => cases same
    | cons p w =>
      obtain ⟨d,u,split,own,rest⟩ := matchesSome same
      obtain ⟨rfl,rfl⟩ := List.cons.inj split
      cases w with
      | nil => exact ⟨p,rfl,own⟩
      | cons q w => cases rest
  | cons d t ih =>
    cases w with
    | nil => cases same
    | cons p w =>
      obtain ⟨e,u,split,_,rest⟩ := matchesSome same
      obtain ⟨rfl,rfl⟩ := List.cons.inj split
      obtain ⟨q,last,own⟩ := ih rest
      cases w with
      | nil => cases last
      | cons k w => exact ⟨q,by rw [List.getLast?_cons_cons]; exact last,own⟩

theorem endsBehind {wanted line : Text} :
    endsMatching wanted line = true ↔ ∃ u t, line = u ++ ' '::t ∧ matchesAll wanted t = true := by
  rw [endsMatching,List.any_eq_true]
  constructor
  · intro found
    obtain ⟨t,mem,same⟩ := found
    obtain ⟨u,split⟩ := (List.mem_tails t line).mp mem
    obtain ⟨c,rest,rfl,own,later⟩ := matchesSome same
    obtain rfl : ' ' = c := own.resolve_left (by decide)
    exact ⟨u,rest,split.symm,later⟩
  · intro behind
    obtain ⟨u,t,split,same⟩ := behind
    refine ⟨' '::t,(List.mem_tails _ _).mpr ⟨u,split.symm⟩,?_⟩
    simp [matchesAll,same]

theorem blankSplit {a b u t : Text} (free : ' ' ∉ a) (split : a ++ ' '::b = u ++ ' '::t) :
    u = a ∧ t = b ∨ ∃ v, u = a ++ ' '::v ∧ b = v ++ ' '::t := by
  rcases List.append_eq_append_iff.mp split with ⟨v,longer,rest⟩ | ⟨v,shorter,rest⟩
  · cases v with
    | nil => exact .inl ⟨by simpa using longer,((List.cons.inj rest).2).symm⟩
    | cons c v =>
      obtain ⟨rfl,later⟩ := List.cons.inj rest
      exact .inr ⟨v,longer,later⟩
  · cases v with
    | nil => exact .inl ⟨by simpa using shorter.symm,(List.cons.inj rest).2⟩
    | cons c v =>
      obtain ⟨rfl,later⟩ := List.cons.inj rest
      exact absurd (by rw [shorter]; simp) free

theorem wantedPlain (w : Wanted) : ∀ c ∈ w.name, c ≠ ' ' ∧ c ≠ ']' := by
  intro c mem
  have plain := List.all_eq_true.mp w.plain c mem
  refine ⟨?_,?_⟩ <;> intro same <;> rw [same] at plain <;> revert plain <;> decide

theorem symbolNamed (w : Wanted) (anchored : Anchored w.name) {s : Symbol} {u t : Text}
    (split : symbolLine s = u ++ ' '::t) (same : matchesAll w.name t = true) : t = s.name ++ moduleText s.module := by
  have space : blank ' ' = true := rfl
  have visible : ' ' ∉ [s.kind] := by
    intro mem
    have own := s.kindVisible
    rw [← List.mem_singleton.mp mem] at own
    cases own
  have behind : ' ' ∉ s.name ++ moduleText s.module := by
    have name := blankAbsent space s.nameWord.2
    cases here : s.module with
    | none => simpa [moduleText] using name
    | some m =>
      have module := blankAbsent space (s.moduleWord m here).2
      simp [moduleText,name,module]
  rcases blankSplit (blankAbsent space (addressWord s.address).2) split with ⟨_,rfl⟩ | ⟨v,_,rest⟩
  · exfalso
    cases wanted : w.name with
    | nil => rw [wanted] at same; cases same
    | cons p name =>
      rw [wanted] at same
      obtain ⟨_,_,first,_,later⟩ := matchesSome same
      obtain ⟨rfl,rfl⟩ := List.cons.inj first
      cases name with
      | nil => cases later
      | cons q name =>
        obtain ⟨_,_,second,own,_⟩ := matchesSome later
        obtain ⟨rfl,_⟩ := List.cons.inj second
        rcases own with stop | blank
        · exact anchored.1 (by rw [wanted,stop]; rfl)
        · exact (wantedPlain w q (by rw [wanted]; simp)).1 blank
  · rcases @blankSplit [s.kind] _ _ _ visible rest with ⟨_,own⟩ | ⟨v',_,later⟩
    · exact own
    · exact absurd (by rw [later]; simp) behind

theorem symbolMatched (w : Wanted) (anchored : Anchored w.name) (s : Symbol) :
    endsMatching w.name (symbolLine s) = true ↔ s.module = none ∧ matchesAll w.name s.name = true := by
  rw [endsBehind]
  constructor
  · intro behind
    obtain ⟨u,t,split,same⟩ := behind
    rw [symbolNamed w anchored split same] at same
    cases module : s.module with
    | none =>
      rw [module,moduleText,List.append_nil] at same
      exact ⟨rfl,same⟩
    | some m =>
      have shape : s.name ++ moduleText s.module = (s.name ++ '\t':: '['::m) ++ [']'] := by
        simp [module,moduleText]
      rw [shape] at same
      obtain ⟨p,last,own⟩ := matchesLast same
      rcases own with stop | bracket
      · exact absurd (stop ▸ last) anchored.2
      · exact absurd bracket (wantedPlain w p (List.mem_of_getLast? last)).2
  · intro own
    refine ⟨addressText s.address ++ [' ',s.kind],s.name,?_,own.2⟩
    simp [symbolLine,own.1,moduleText]

theorem matchedListed (w : Wanted) (anchored : Anchored w.name) (symbols : List Symbol) :
    matched w symbols = listed w.name symbols := by
  refine List.filter_congr (fun s _ => ?_)
  have same := symbolMatched w anchored s
  cases here : endsMatching w.name (symbolLine s) with
  | true => exact (decide_eq_true (same.mp here)).symm
  | false =>
    refine (decide_eq_false (fun own => ?_)).symm
    rw [same.mpr own] at here
    cases here

theorem splitWordsAppend (a b : Text) : splitWords (a ++ ' '::b) = splitWords a ++ splitWords b := by
  have space : blank ' ' = true := rfl
  rw [splitWords,List.splitOnP_append_cons a b space,List.filter_append]
  rfl

theorem splitWordsArguments (ls : List Text) : splitWords ([' '].intercalate ls) = ls.flatMap splitWords := by
  induction ls with
  | nil => rfl
  | cons l ls ih =>
    cases ls with
    | nil => simp
    | cons k ls =>
      rw [List.intercalate_cons_cons,List.append_assoc,List.singleton_append,splitWordsAppend,ih]
      rfl

theorem wordsOf {ws : List Text} (words : ∀ w ∈ ws, Word w) : ws.flatMap splitWords = ws := by
  induction ws with
  | nil => rfl
  | cons w ws ih =>
    rw [List.flatMap_cons,splitWordsOne (words w List.mem_cons_self),ih (fun k mem => words k (List.mem_cons_of_mem w mem))]
    rfl

def kindOf (l : Lookup) : Kind := if l.hexPrefix then .ulong else .string 20

def settingOf (l : Lookup) (a : Address) : Setting := if l.hexPrefix then .number a else .text (addressText a)

def Agrees (p : Loader) : Prop :=
  (∀ c ∈ p.module.calls, ∃ l ∈ p.lookups, l.parameter = c.parameter ∧ l.wanted.name = c.function) ∧
  (∀ l ∈ p.lookups, p.module.parameters.find? (fun k => k.name == l.parameter) = some ⟨l.parameter,kindOf l⟩ ∧
    '=' ∉ l.parameter ∧ Anchored l.wanted.name) ∧
  (p.lookups.map (·.parameter)).Nodup ∧ (∀ k ∈ p.module.parameters, k.name.length < 16) ∧
  p.behind.flatMap splitWords = []

instance (name : Text) : Decidable (Anchored name) :=
  inferInstanceAs (Decidable (name[1]? ≠ some '.' ∧ name.getLast? ≠ some '.'))

instance (p : Loader) : Decidable (Agrees p) := by
  unfold Agrees
  infer_instance

theorem plainAgree : ∀ p ∈ plainLoaders, Agrees p ∧ p.front = [] := by decide +kernel

theorem addressSmall (a : Address) : hexValue (addressText a) < 2^64 := by
  rw [addressValue]
  exact a.isLt

theorem settingRead (l : Lookup) (a : Address) :
    (kindOf l).set ((if l.hexPrefix then "0x".toList else []) ++ addressText a) = some (settingOf l a) := by
  have word := addressWord a
  have digits : ∀ c ∈ addressText a, hexDigit c = true := hexTextDigits
  have length : (addressText a).length = 16 := hexTextLength 16 _
  have read := kstrtoulPrefixed word.1 digits (addressSmall a)
  rw [addressValue,BitVec.ofNat_toNat,BitVec.setWidth_eq] at read
  unfold kindOf settingOf
  generalize addressText a = w at length read ⊢
  cases l.hexPrefix with
  | true =>
    have front : "0x".toList ++ w = '0':: 'x'::w := rfl
    rw [if_pos rfl,if_pos rfl,if_pos rfl,front,Kind.set,read]
    rfl
  | false => simp [Kind.set,length]

theorem pointerSetting (l : Lookup) (a : Address) : pointer (settingOf l a) = some a := by
  unfold settingOf
  cases l.hexPrefix with
  | true => rfl
  | false =>
    have read := kstrtoulPlain (addressWord a).1 hexTextDigits (addressSmall a)
    rw [addressValue,BitVec.ofNat_toNat,BitVec.setWidth_eq] at read
    exact read

section
variable {l : Lookup} {symbols rest : List Symbol} {first : Symbol}

def addressWords (ss : List Symbol) : List Text := ss.map (fun s => addressText s.address)

theorem addressWordsAll (ss : List Symbol) : ∀ w ∈ addressWords ss, Word w := by
  intro w mem
  obtain ⟨s,_,rfl⟩ := List.mem_map.mp mem
  exact addressWord s.address

theorem lookupWords (found : matched l.wanted symbols = first::rest) :
    (insmodWords l (funcAddress l.wanted (kallsyms symbols))).flatMap splitWords =
      argument l first.address::addressWords rest := by
  have joined := splitWordsJoined (frontPlain l) (addressWord first.address) (addressWordsAll rest)
  have all : ∀ w ∈ argument l first.address::addressWords rest, Word w := by
    intro w mem
    rcases List.mem_cons.mp mem with rfl | later
    · exact wordAppend (frontPlain l) (addressWord first.address)
    · exact addressWordsAll rest w later
  rw [funcAddressMatched,found,List.map_cons,insmodWords]
  split
  · rw [List.flatMap_singleton]
    exact joined
  · have own : splitWords (argumentFront l ++ joinedLines (addressText first.address::addressWords rest)) =
        argument l first.address::addressWords rest := joined
    change (splitWords (argumentFront l ++ joinedLines (addressText first.address::addressWords rest))).flatMap
      splitWords = _
    rw [own,wordsOf all]

theorem foreignAddress {parameters : List Parameter} (short : ∀ k ∈ parameters, k.name.length < 16) (a : Address) :
    ∀ k ∈ parameters, k.name ≠ argumentName (addressText a) := by
  intro k mem same
  have digits : ∀ c ∈ addressText a, hexDigit c = true := hexTextDigits
  have length : (addressText a).length = 16 := hexTextLength 16 _
  have whole : argumentName (addressText a) = addressText a := by
    refine List.takeWhile_eq_self_iff.mpr (fun c inside => ?_)
    have other : c ≠ '=' := by
      intro equal
      have digit := digits c inside
      rw [equal] at digit
      cases digit
    simpa using other
  have small := short k mem
  rw [same,whole] at small
  omega

end

theorem lookupSets {p : Loader} (agrees : Agrees p) {l : Lookup} (mem : l ∈ p.lookups) {symbols rest : List Symbol}
    {first : Symbol} (found : matched l.wanted symbols = first::rest) (s : Settings) :
    ((insmodWords l (funcAddress l.wanted (kallsyms symbols))).flatMap splitWords).foldlM
      (parseWord p.module.parameters) s = some (Function.update s l.parameter (settingOf l first.address)) := by
  obtain ⟨_,known,_,short,_⟩ := agrees
  obtain ⟨listed,plain,_⟩ := known l mem
  have shape : argument l first.address =
      l.parameter ++ '='::((if l.hexPrefix then "0x".toList else []) ++ addressText first.address) := by
    simp [argument,argumentFront]
  have foreign : ∀ w ∈ addressWords rest, ∀ k ∈ p.module.parameters, k.name ≠ argumentName w := by
    intro w inside
    obtain ⟨k,_,rfl⟩ := List.mem_map.mp inside
    exact foreignAddress short k.address
  rw [lookupWords found,List.foldlM_cons,shape,parseKnown listed plain (settingRead l first.address)]
  exact foreignAll foreign _

def FrontRead (p : Loader) : Prop :=
  ∀ s, ∃ t, (p.front.flatMap splitWords).foldlM (parseWord p.module.parameters) s = some t

section
variable {p : Loader} {symbols : List Symbol}

def foundSetting (symbols : List Symbol) (l : Lookup) : Setting :=
  ((matched l.wanted symbols).head?.map (fun s => settingOf l s.address)).getD (.number 0)

theorem foundFirst {w : Wanted} (passes : ¬CheckFails w symbols) : ∃ first rest, matched w symbols = first::rest :=
  List.exists_cons_of_ne_nil (fun empty => passes (.inl empty))

theorem loaderSettings (agrees : Agrees p) (front : FrontRead p)
    (passes : ∀ l ∈ p.lookups, ¬CheckFails l.wanted symbols) :
    ∃ s, insmod p.module.parameters (p.front ++ p.lookups.flatMap (fun l =>
        insmodWords l (funcAddress l.wanted (kallsyms symbols))) ++ p.behind) = some s ∧
      ∀ l ∈ p.lookups, s l.parameter = foundSetting symbols l := by
  obtain ⟨t,read⟩ := front (initial p.module.parameters)
  have sets : ∀ l ∈ p.lookups, ∀ s, ((insmodWords l (funcAddress l.wanted (kallsyms symbols))).flatMap
      splitWords).foldlM (parseWord p.module.parameters) s =
        some (Function.update s l.parameter (foundSetting symbols l)) := by
    intro l mem s
    obtain ⟨first,rest,found⟩ := foundFirst (passes l mem)
    have setting : foundSetting symbols l = settingOf l first.address := by
      rw [foundSetting,found]
      rfl
    rw [setting,lookupSets agrees mem found]
  obtain ⟨s,run,each,_⟩ := assignedAll sets agrees.2.2.1 t
  refine ⟨s,?_,each⟩
  rw [insmod,splitWordsArguments,List.flatMap_append,List.flatMap_append,agrees.2.2.2.2,List.append_nil,
    List.foldlM_append,read,List.flatMap_assoc]
  exact run

theorem checkedAll : (∀ w ∈ p.checked, ¬CheckFails w symbols) ↔
    (∀ l ∈ p.lookups, ¬CheckFails l.wanted symbols) ∧ ∀ w ∈ p.alsoChecked, ¬CheckFails w symbols := by
  simp only [Loader.checked,List.mem_append,List.mem_map,or_imp,forall_and,forall_exists_index,and_imp,
    forall_apply_eq_imp_iff₂]

theorem alsoCheckedAll : p.alsoChecked.all (fun w => checkAddr (funcAddress w (kallsyms symbols))) = true ↔
    ∀ w ∈ p.alsoChecked, ¬CheckFails w symbols := by
  simp only [List.all_eq_true,← checkIff,Bool.not_eq_false]

theorem loaderLoads (agrees : Agrees p) (front : FrontRead p) (passes : ∀ w ∈ p.checked, ¬CheckFails w symbols) :
    ∃ s, p.run (kallsyms symbols) = .loaded s ∧ ∀ l ∈ p.lookups, s l.parameter = foundSetting symbols l := by
  obtain ⟨lookups,also⟩ := checkedAll.mp passes
  obtain ⟨s,read,each⟩ := loaderSettings agrees front lookups
  have ran := testScriptLoads.mpr ⟨lookups,rfl⟩
  refine ⟨s,?_,each⟩
  rw [Loader.run,if_pos (alsoCheckedAll.mpr also),ran]
  simp only [read]

theorem loaderExits (fails : ∃ w ∈ p.checked, CheckFails w symbols) : p.run (kallsyms symbols) = .exits := by
  unfold Loader.run
  split
  · rename_i also
    have rest := alsoCheckedAll.mp also
    have none : testScript p.lookups (kallsyms symbols) = none := by
      cases ran : testScript p.lookups (kallsyms symbols) with
      | none => rfl
      | some arguments =>
        obtain ⟨lookups,_⟩ := testScriptLoads.mp ran
        obtain ⟨w,mem,failed⟩ := fails
        exact absurd failed (checkedAll.mpr ⟨lookups,rest⟩ w mem)
    rw [none]
  · rfl

theorem callSetting (agrees : Agrees p) {c : Call} (mem : c ∈ p.module.calls)
    (passes : ∀ w ∈ p.checked, ¬CheckFails w symbols) {s : Settings}
    (each : ∀ l ∈ p.lookups, s l.parameter = foundSetting symbols l) :
    ∃ first rest, listed c.function symbols = first::rest ∧ pointer (s c.parameter) = some first.address ∧
      (first.address = 0 → rest ≠ []) := by
  obtain ⟨l,inside,parameter,function⟩ := agrees.1 c mem
  have passed := (checkedAll.mp passes).1 l inside
  obtain ⟨first,rest,found⟩ := foundFirst passed
  have anchored := (agrees.2.1 l inside).2.2
  refine ⟨first,rest,?_,?_,fun zero alone => ?_⟩
  · rw [← function,← matchedListed l.wanted anchored,found]
  · rw [← parameter,each l inside,foundSetting,found]
    exact pointerSetting l first.address
  · rw [alone] at found
    exact passed (.inr ⟨first,found,zero⟩)

end

theorem inodePlain (inode : Option (BitVec 64)) : ∀ c ∈ inodeText inode, blank c = false := by
  cases inode with
  | none => simp [inodeText]
  | some n =>
    intro c mem
    have digit := @Nat.isDigit_of_mem_toDigits 10 n.toNat c (by decide) (by decide) mem
    cases space : blank c with
    | false => rfl
    | true =>
      have which : (c = ' ' ∨ c = '\t') ∨ c = '\n' := by simpa [blank] using space
      rcases which with (rfl | rfl) | rfl <;> cases digit

theorem inodeWords (inode : Option (BitVec 64)) :
    (testCgroupGetFromId inode).front.flatMap splitWords = ["test_cgroup_id".toList ++ '='::inodeText inode] := by
  have front : ∀ c ∈ "test_cgroup_id=".toList, blank c = false := blankFree rfl
  have word : Word ("test_cgroup_id=".toList ++ inodeText inode) := by
    refine ⟨by simp,fun c mem => ?_⟩
    rcases List.mem_append.mp mem with name | digit
    · exact front c name
    · exact inodePlain inode c digit
  rw [testCgroupGetFromId,List.flatMap_singleton,splitWordsOne word]
  rfl

theorem inodeRead (n : BitVec 64) : FrontRead (testCgroupGetFromId (some n)) := by
  intro s
  have known : ctestCgroupGetFromId.parameters.find? (fun k => k.name == "test_cgroup_id".toList) =
      some ⟨"test_cgroup_id".toList,.ulong⟩ := by decide
  have set : Kind.ulong.set (inodeText (some n)) = some (.number n) := by
    have read := kstrtoulDecimal n.isLt
    rw [BitVec.ofNat_toNat,BitVec.setWidth_eq] at read
    rw [Kind.set,inodeText,Option.map_some,Option.getD_some,read]
    rfl
  have parsed := parseKnown known (by decide) set s
  rw [inodeWords]
  exact ⟨_,by rw [List.foldlM_cons]; exact congrArg (· >>= pure) parsed⟩

theorem inodeMissing {symbols : List Symbol} (passes : ∀ w ∈ (testCgroupGetFromId none).checked, ¬CheckFails w symbols) :
    (testCgroupGetFromId none).run (kallsyms symbols) = .refused := by
  obtain ⟨lookups,also⟩ := checkedAll.mp passes
  have ran := testScriptLoads.mpr ⟨lookups,rfl⟩
  have words := inodeWords none
  have refused : ∀ s, parseWord ctestCgroupGetFromId.parameters s ("test_cgroup_id".toList ++ '='::inodeText none) = none :=
    fun s => rfl
  have stopped : insmod (testCgroupGetFromId none).module.parameters ((testCgroupGetFromId none).front ++
      (testCgroupGetFromId none).lookups.flatMap (fun l => insmodWords l (funcAddress l.wanted (kallsyms symbols))) ++
      (testCgroupGetFromId none).behind) = none := by
    rw [insmod,splitWordsArguments,List.flatMap_append,List.flatMap_append,words,List.append_assoc,List.singleton_append,
      List.foldlM_cons]
    exact congrArg (· >>= _) (refused _)
  rw [Loader.run,if_pos (alsoCheckedAll.mpr also),ran]
  simp only [stopped]

theorem ownAgree (inode : Option (BitVec 64)) :
    ∀ p ∈ ownLoaders inode, Agrees p ∧ (FrontRead p ∧ p ≠ testCgroupGetFromId none ∨ p = testCgroupGetFromId none) := by
  intro p mem
  rcases List.mem_cons.mp mem with rfl | plain
  · have agrees : Agrees (passing ctestCgroupGetFromId [quoted "addr" "css_from_id" rfl rfl]) := by decide +kernel
    refine ⟨agrees,?_⟩
    cases inode with
    | none => exact .inr rfl
    | some n =>
      refine .inl ⟨inodeRead n,fun same => ?_⟩
      have words := (inodeWords (some n)).symm.trans ((congrArg (·.front.flatMap splitWords) same).trans (inodeWords none))
      simp [inodeText] at words
  · obtain ⟨agrees,empty⟩ := plainAgree p plain
    refine ⟨agrees,.inl ⟨fun s => ⟨s,by rw [empty]; rfl⟩,fun same => ?_⟩⟩
    rw [same] at empty
    cases empty

theorem pointersListed (inode : Option (BitVec 64)) {p : Loader} (own : p ∈ ownLoaders inode) (symbols : List Symbol) :
    (p.run (kallsyms symbols) = .exits ↔ ∃ w ∈ p.checked, CheckFails w symbols) ∧
    (p.run (kallsyms symbols) = .refused ↔
      (∀ w ∈ p.checked, ¬CheckFails w symbols) ∧ p = testCgroupGetFromId none) ∧
    ∀ s, p.run (kallsyms symbols) = .loaded s → ∀ c ∈ p.module.calls,
      ∃ first ∈ (listed c.function symbols).head?, pointer (s c.parameter) = some first.address := by
  obtain ⟨agrees,front⟩ := ownAgree inode p own
  by_cases fails : ∃ w ∈ p.checked, CheckFails w symbols
  · have exits := loaderExits fails
    obtain ⟨w,inside,failed⟩ := fails
    simp only [exits,reduceCtorEq,false_iff,true_iff,false_implies,implies_true,and_true]
    exact ⟨⟨w,inside,failed⟩,fun passes => passes.1 w inside failed⟩
  · have passes : ∀ w ∈ p.checked, ¬CheckFails w symbols := fun w inside failed => fails ⟨w,inside,failed⟩
    obtain ⟨read,other⟩ | rfl := front
    · obtain ⟨t,loaded,each⟩ := loaderLoads agrees read passes
      simp only [loaded,reduceCtorEq,false_iff,other,and_false,true_and]
      refine ⟨fails,fun s same c mem => ?_⟩
      obtain rfl := Outcome.loaded.inj same
      obtain ⟨first,rest,found,pointed,_⟩ := callSetting agrees mem passes each
      exact ⟨first,by rw [found]; rfl,pointed⟩
    · simp only [inodeMissing passes,reduceCtorEq,false_iff,true_iff,and_true,false_implies,implies_true]
      exact ⟨fails,passes⟩

def NullToCall (p : Loader) (symbols : List Symbol) : Prop := ∃ s, p.run (kallsyms symbols) = .loaded s ∧
  ∃ c ∈ p.module.calls, c.guarded = false ∧ pointer (s c.parameter) = some 0

/- The check for a zero address looks at one line only; with a second one it passes. -/
theorem nullToCallExactly (inode : Option (BitVec 64)) {p : Loader} (own : p ∈ ownLoaders inode)
    (symbols : List Symbol) :
    NullToCall p symbols ↔ (∀ w ∈ p.checked, ¬CheckFails w symbols) ∧ ∃ c ∈ p.module.calls, c.guarded = false ∧
      ∃ first second rest, listed c.function symbols = first::second::rest ∧ first.address = 0 := by
  obtain ⟨agrees,⟨front,_⟩ | rfl⟩ := ownAgree inode p own
  · constructor
    · intro called
      obtain ⟨s,ran,c,mem,open',zero⟩ := called
      have passes : ∀ w ∈ p.checked, ¬CheckFails w symbols := by
        intro w inside failed
        rw [loaderExits ⟨w,inside,failed⟩] at ran
        cases ran
      obtain ⟨t,loaded,each⟩ := loaderLoads agrees front passes
      obtain rfl : t = s := Outcome.loaded.inj (loaded.symm.trans ran)
      obtain ⟨first,rest,found,read,more⟩ := callSetting agrees mem passes each
      have null : first.address = 0 := Option.some.inj (read.symm.trans zero)
      obtain ⟨second,rest,rfl⟩ := List.exists_cons_of_ne_nil (more null)
      exact ⟨passes,c,mem,open',first,second,rest,found,null⟩
    · intro condition
      obtain ⟨passes,c,mem,open',first,second,rest,twice,null⟩ := condition
      obtain ⟨s,loaded,each⟩ := loaderLoads agrees front passes
      obtain ⟨k,others,found,read,_⟩ := callSetting agrees mem passes each
      rw [twice] at found
      obtain ⟨rfl,_⟩ := List.cons.inj found
      exact ⟨s,loaded,c,mem,open',by rw [read,null]⟩
  -- The only call of this module is guarded.
  · have guarded : ∀ c ∈ (testCgroupGetFromId none).module.calls, c.guarded = true := by decide
    constructor
    · intro called
      obtain ⟨_,_,c,mem,open',_⟩ := called
      exact absurd (guarded c mem) (by simp [open'])
    · intro condition
      obtain ⟨_,c,mem,open',_⟩ := condition
      exact absurd (guarded c mem) (by simp [open'])

theorem staticVisible : blank 't' = false := rfl

theorem coreModule (m : Text) (own : none = some m) : Word m := by
  cases own

theorem rotateCtxWord : Word "rotate_ctx".toList := ⟨nofun,blankFree rfl⟩

def hiddenRotate : Symbol := ⟨0,'t',"rotate_ctx".toList,none,staticVisible,rotateCtxWord,coreModule⟩

def hiddenTwice : List Symbol := [hiddenRotate,hiddenRotate]

def rotateOnce : List Symbol := [⟨0xffff8000081a2b3c,'t',"rotate_ctx".toList,none,staticVisible,rotateCtxWord,coreModule⟩]

theorem rotateOwn : testPerfRotateCtx ∈ ownLoaders (some 1234) := by
  simp [ownLoaders,plainLoaders]

theorem rotatePointer :
    (testPerfRotateCtx.run (kallsyms rotateOnce) = .refused ↔
      (∀ w ∈ testPerfRotateCtx.checked, ¬CheckFails w rotateOnce) ∧ testPerfRotateCtx = testCgroupGetFromId none) ∧
    ∀ s, testPerfRotateCtx.run (kallsyms rotateOnce) = .loaded s → ∀ c ∈ testPerfRotateCtx.module.calls,
      ∃ first ∈ (listed c.function rotateOnce).head?, pointer (s c.parameter) = some first.address :=
  (pointersListed (some 1234) rotateOwn rotateOnce).2

theorem rotateNullToCall : NullToCall testPerfRotateCtx hiddenTwice := by
  have passes : ∀ w ∈ testPerfRotateCtx.checked, ¬CheckFails w hiddenTwice := by
    intro w mem fails
    obtain rfl := List.mem_singleton.mp mem
    have check : checkAddr (funcAddress (unquoted "addr1" "rotate_ctx" rfl rfl).wanted (kallsyms hiddenTwice)) = true := by
      decide +kernel
    rw [checkIff.mpr fails] at check
    cases check
  exact (nullToCallExactly (some 1234) rotateOwn hiddenTwice).mpr
    ⟨passes,_,List.mem_cons_self,rfl,hiddenRotate,hiddenRotate,[],rfl,rfl⟩

end KernelTestTools.SymbolPointers
