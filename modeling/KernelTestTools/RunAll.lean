import KernelTestTools.ShellText
import KernelTestTools.StepRuns
import Mathlib.Data.List.Nodup

/-! run_all.sh: which files of its directory the two loops run. A directory lists its files
under distinct names, without links; a run is the command ./"$x" of a loop. The programs
that are run leave the directory as it is. -/
namespace KernelTestTools.RunAll
open TextFile ShellText StepRuns

structure Entry where
  name : Text
  regular : Bool
  executable : Bool
  deriving DecidableEq, Repr

structure Directory where
  entries : List Entry
  distinct : (entries.map Entry.name).Nodup
  words : ∀ e ∈ entries, Word e.name

def Directory.names (d : Directory) : List Text := d.entries.map Entry.name

/- [ -f "$x" ] and [ -x "$x" ] -/
def Directory.isFile (d : Directory) (x : Text) : Bool := d.entries.any (fun e => e.name == x && e.regular)
def Directory.isExecutable (d : Directory) (x : Text) : Bool := d.entries.any (fun e => e.name == x && e.executable)

def Entry.chmod (x : Text) (e : Entry) : Entry := if e.name = x then { e with executable := true } else e

theorem chmodName (x : Text) (e : Entry) : (e.chmod x).name = e.name := by
  unfold Entry.chmod
  split <;> rfl

theorem chmodNames (x : Text) (es : List Entry) : (es.map (Entry.chmod x)).map Entry.name = es.map Entry.name := by
  rw [List.map_map]
  exact List.map_congr_left (fun e _ => chmodName x e)

def Directory.chmod (d : Directory) (x : Text) : Directory where
  entries := d.entries.map (Entry.chmod x)
  distinct := by
    rw [chmodNames]
    exact d.distinct
  words := by
    intro e mem
    obtain ⟨old,inside,rfl⟩ := List.mem_map.mp mem
    rw [chmodName]
    exact d.words old inside

/- The order in which the shell sorts the names that a pattern finds. -/
structure Collation where
  le : Text → Text → Bool
  trans : ∀ a b c, le a b = true → le b c = true → le a c = true
  total : ∀ a b, (le a b || le b a) = true

/- A pattern that finds nothing stays as it is written. -/
def glob (c : Collation) (found : Text → Bool) (pattern : Text) (names : List Text) : List Text :=
  if names.filter found = [] then [pattern] else (names.filter found).mergeSort c.le

def hidden (x : Text) : Bool := x.head? = some '.'

def suffix : Text := ".sh".toList

def shellName (x : Text) : Bool := !hidden x && suffix.isSuffixOf x

structure NameList where
  names : List Text
  plain : ∀ n ∈ names, ∀ c ∈ n, blank c = false

/- [[ " ${list[@]} " =~ " ${x} " ]] -/
def NameList.lists (list : NameList) (x : Text) : Bool := padded ' ' [x] <:+: padded ' ' list.names

def basename (path : Text) : Text := behindLast '/' (path.rdropWhile (· == '/'))

def ownName : Text := "run_all.sh".toList

structure Host where
  front : Text
  frontEnds : front = [] ∨ ∃ dir, front = dir ++ ['/']
  collation : Collation
  chmodWorks : Text → Bool

def Host.zero (h : Host) : Text := h.front ++ ownName

def currentScript (h : Host) : Text := basename h.zero

structure Command where
  program : Text
  arguments : List Text
  deriving DecidableEq, Repr

def plainRun (x : Text) : Command := ⟨x,[]⟩

structure State where
  directory : Directory
  commands : List Command

/- The only entry of script_args is commented out. -/
def scriptArgs : List (Text × Text) := []

/- chmod +x "$script"; ./"$script" with these arguments -/
def execute (h : Host) (s : State) (script : Text) (arguments : List Text) : State where
  directory := if h.chmodWorks script then s.directory.chmod script else s.directory
  commands := s.commands ++ [⟨script,arguments⟩]

def scriptWanted (h : Host) (nowantScript : NameList) (d : Directory) (script : Text) : Bool :=
  d.isFile script && script != currentScript h && !nowantScript.lists script

def scriptStep (h : Host) (nowantScript : NameList) (s : State) (script : Text) : State :=
  if scriptWanted h nowantScript s.directory script then
    let args := (scriptArgs.lookup script).getD []
    if args ≠ [] then (splitWords args).foldl (fun s arg => execute h s script [arg]) s
    else execute h s script []
  else s

def extension (file : Text) : Text := behindLast '.' file

def exeWanted (nowantExe : NameList) (d : Directory) (file : Text) : Bool :=
  d.isFile file && d.isExecutable file && extension file != "sh".toList && extension file != "ko".toList &&
    !nowantExe.lists file

def exeStep (nowantExe : NameList) (s : State) (file : Text) : State :=
  if exeWanted nowantExe s.directory file then { s with commands := s.commands ++ [⟨file,[]⟩] } else s

def scriptLoop (h : Host) (nowantScript : NameList) (d : Directory) : State :=
  run (scriptStep h nowantScript) ⟨d,[]⟩ (glob h.collation shellName "*.sh".toList d.names)

def exeLoop (h : Host) (nowantExe : NameList) (d : Directory) : State :=
  run (exeStep nowantExe) ⟨d,[]⟩ (glob h.collation (fun x => !hidden x) "*".toList d.names)

/- The script's own lists, longer by what the host's version of cgroups cannot run. -/
def ownNowantScript (isCgroupV2 : Bool) : NameList where
  names := (["copy_gcov.sh","v1_copy_gcov.sh","v2_copy_gcov.sh",
      "test_add_new_cgroup.sh","test_cgroup_v1_rebuild.sh","test_cgroupv1_stats_build.sh",
      "test_cgroupns_fork_process.sh","test_cpuset_fallback.sh","test_cpuset_mems.sh",
      "test_cpuset_spread_node.sh","test_cgroup_cancel_fork.sh"] ++
    if isCgroupV2 then
      ["test_cgroup_v1.sh","test_cgroup_v1_attach_task.sh","test_cgroup_v1_cpuset.sh",
        "test_cgroup_v1_cpuset_sup.sh","test_cgroup_v1_debug.sh","test_cgroup_v1_freezer.sh"]
    else
      ["test_cgroup_v2.sh","test_cgroup_v2_threaded.sh","test_cgroup_v2_rw_dep.sh",
        "test_cgroup_v2_rw_pressure.sh","test_cgroup_get_fromf.sh","test_cgroup_cpuset.sh",
        "test_cgroup_cpuset_mem_allowed.sh","test_cgroup_v2_rebuild.sh","test_cgroup_freezer.sh",
        "test_cgroup_misc.sh","test_cgroup_ns.sh","test_cgroup_v2_pids.sh","test_cgroup_v2_rstat.sh",
        "test_cgroup_get_from_id.sh","test_cgroup_cancel_fork.sh"]).map String.toList
  plain := by cases isCgroupV2 <;> exact blankFreeAll rfl

def ownNowantExe (isCgroupV2 : Bool) : NameList where
  names := (["cgroup_fork_process","ctest_cgroup_poll","ctest_cgroup_file_open","ctest_cgroup_filepath",
      "get_cgroup_id"] ++ if isCgroupV2 then [] else ["move_pages_syscall_test"]).map String.toList
  plain := by cases isCgroupV2 <;> exact blankFreeAll rfl

def runAll (h : Host) (isCgroupV2 : Bool) (d : Directory) : List Command × List Command :=
  let scripts := scriptLoop h (ownNowantScript isCgroupV2) d
  (scripts.commands,(exeLoop h (ownNowantExe isCgroupV2) scripts.directory).commands)

structure Selected (c : Collation) (wanted : Text → Prop) (files : List Text) : Prop where
  exactly : ∀ x, x ∈ files ↔ wanted x
  once : files.Nodup
  ordered : files.Pairwise (fun a b => c.le a b = true)

/- The text after the last dot, or the whole name where there is no dot. -/
def EndsIn (x ending : Text) : Prop := x = ending ∨ '.' :: ending <:+ x

def WantedScript (nowantScript : NameList) (d : Directory) (x : Text) : Prop :=
  (∃ e ∈ d.entries, e.name = x ∧ e.regular = true) ∧ hidden x = false ∧ suffix <:+ x ∧ x ≠ ownName ∧
    x ∉ nowantScript.names

def WantedExe (nowantExe : NameList) (d : Directory) (x : Text) : Prop :=
  (∃ e ∈ d.entries, e.name = x ∧ e.regular = true ∧ e.executable = true) ∧ hidden x = false ∧
    ¬EndsIn x "sh".toList ∧ ¬EndsIn x "ko".toList ∧ x ∉ nowantExe.names

theorem isFileIff {d : Directory} {x : Text} :
    d.isFile x = true ↔ ∃ e ∈ d.entries, e.name = x ∧ e.regular = true := by
  simp [Directory.isFile]

theorem isExecutableIff {d : Directory} {x : Text} :
    d.isExecutable x = true ↔ ∃ e ∈ d.entries, e.name = x ∧ e.executable = true := by
  simp [Directory.isExecutable]

theorem fileNamed {d : Directory} {x : Text} (file : d.isFile x = true) : x ∈ d.names ∧ Word x := by
  obtain ⟨e,mem,rfl,_⟩ := isFileIff.mp file
  exact ⟨List.mem_map_of_mem mem,d.words e mem⟩

theorem listsIff (list : NameList) {x : Text} (word : Word x) : list.lists x = true ↔ x ∈ list.names := by
  unfold NameList.lists
  rw [decide_eq_true_eq]
  exact paddedMember word.1 (blankAbsent rfl word.2) (fun n mem => blankAbsent rfl (list.plain n mem))

theorem unlistedIff (list : NameList) {x : Text} (word : Word x) : list.lists x = false ↔ x ∉ list.names := by
  rw [← listsIff list word,Bool.not_eq_true]

/- A name that another one ends in is not listed. -/
example : NameList.lists ⟨["v1_copy_gcov.sh".toList],blankFreeAll rfl⟩ "copy_gcov.sh".toList = false := by decide

theorem currentScriptOwn (h : Host) : currentScript h = ownName := by
  have open' : h.zero.rdropWhile (· == '/') = h.zero := by
    have last : h.zero = (h.front ++ "run_all.s".toList) ++ ['h'] := by
      rw [List.append_assoc]
      rfl
    rw [last,List.rdropWhile_concat_neg _ _ _ (by decide)]
  have free : '/' ∉ ownName := by decide
  rw [currentScript,basename,open',Host.zero]
  obtain front | ⟨dir,front⟩ := h.frontEnds
  · rw [front]
    exact behindLastWhole free
  · rw [front,List.append_assoc]
    exact behindLastSplit free dir

theorem shDotFree : '.' ∉ "sh".toList := by decide
theorem koDotFree : '.' ∉ "ko".toList := by decide

theorem extensionIff {x ending : Text} (free : '.' ∉ ending) : extension x = ending ↔ EndsIn x ending := by
  constructor
  · intro same
    by_cases dot : '.' ∈ x
    · obtain ⟨tail,front,split,last⟩ := List.eq_append_cons_of_mem (List.mem_reverse.mpr dot)
      have whole : x = front.reverse ++ '.' :: tail.reverse := by
        rw [← List.reverse_reverse x,split]
        simp
      have behind : extension x = tail.reverse := by
        rw [whole]
        exact behindLastSplit (fun mem => last (List.mem_reverse.mp mem)) _
      rw [← same,behind,whole]
      exact .inr (List.suffix_append _ _)
    · exact .inl ((behindLastWhole dot).symm.trans same)
  · intro either
    obtain rfl | ⟨front,rfl⟩ := either
    · exact behindLastWhole free
    · exact behindLastSplit free front

structure Kept (d : Directory) (s : State) : Prop where
  names : s.directory.names = d.names
  files : ∀ x, s.directory.isFile x = d.isFile x
  executables : ∀ x, ¬suffix <:+ x → s.directory.isExecutable x = d.isExecutable x

theorem keptStart (d : Directory) (commands : List Command) : Kept d ⟨d,commands⟩ :=
  ⟨rfl,fun _ => rfl,fun _ _ => rfl⟩

theorem chmodKept {d : Directory} {script : Text} (shell : suffix <:+ script) (commands : List Command) :
    Kept d ⟨d.chmod script,commands⟩ where
  names := chmodNames script d.entries
  files := by
    intro x
    unfold Directory.isFile Directory.chmod
    rw [List.any_map]
    congr 1
    funext e
    unfold Function.comp Entry.chmod
    split <;> rfl
  executables := by
    intro x other
    unfold Directory.isExecutable Directory.chmod
    rw [List.any_map]
    congr 1
    funext e
    unfold Function.comp Entry.chmod
    split
    · rename_i own
      have apart : e.name ≠ x := by
        rintro rfl
        exact other (own ▸ shell)
      simp [apart]
    · rfl

theorem keptTrans {d : Directory} {s t : State} (first : Kept d s) (second : Kept s.directory t) : Kept d t where
  names := second.names.trans first.names
  files := fun x => (second.files x).trans (first.files x)
  executables := fun x other => (second.executables x other).trans (first.executables x other)

theorem scriptStepKept (h : Host) (nowantScript : NameList) {d : Directory} {s : State} {script : Text}
    (shell : suffix <:+ script) (kept : Kept d s) : Kept d (scriptStep h nowantScript s script) := by
  unfold scriptStep
  split
  · refine keptTrans kept ?_
    unfold execute
    simp only [scriptArgs,List.lookup_nil,Option.getD_none,ne_eq,not_true_eq_false,if_false]
    split
    · exact chmodKept shell _
    · exact keptStart _ _
  · exact kept

theorem loopCommands {step : State → Text → State} {wanted : Text → Bool} {holds : State → Prop}
    {names : List Text} (kept : ∀ x ∈ names, ∀ s, holds s → holds (step s x))
    (runs : ∀ x s, holds s → (step s x).commands = s.commands ++ if wanted x then [plainRun x] else [])
    {s : State} (start : holds s) :
    (run step s names).commands = s.commands ++ (names.filter wanted).map plainRun := by
  induction names generalizing s with
  | nil => simp [run]
  | cons x names ih =>
    have here := runs x s start
    have later := ih (fun y mem => kept y (List.mem_cons_of_mem x mem)) (kept x List.mem_cons_self s start)
    have next : run step s (x::names) = run step (step s x) names := rfl
    rw [next,later,here,List.append_assoc]
    cases test : wanted x with
    | true => simp [test]
    | false => simp [test]

theorem scriptStepCommands (h : Host) (nowantScript : NameList) {d : Directory} (x : Text) (s : State)
    (kept : Kept d s) : (scriptStep h nowantScript s x).commands =
      s.commands ++ if scriptWanted h nowantScript d x then [plainRun x] else [] := by
  have same : scriptWanted h nowantScript s.directory x = scriptWanted h nowantScript d x := by
    unfold scriptWanted
    rw [kept.files x]
  unfold scriptStep
  rw [same]
  split
  · rfl
  · rw [List.append_nil]

theorem exeStepCommands (nowantExe : NameList) {d : Directory} (x : Text) (s : State) (same : s.directory = d) :
    (exeStep nowantExe s x).commands = s.commands ++ if exeWanted nowantExe d x then [plainRun x] else [] := by
  unfold exeStep
  rw [same]
  split
  · rfl
  · rw [List.append_nil]

theorem exeStepDirectory (nowantExe : NameList) (s : State) (x : Text) :
    (exeStep nowantExe s x).directory = s.directory := by
  unfold exeStep
  split <;> rfl

theorem selectedGlob (c : Collation) {found test : Text → Bool} {pattern : Text} {names : List Text}
    (distinct : names.Nodup) (inside : ∀ x, test x = true → x ∈ names) (own : found pattern = true) :
    Selected c (fun x => found x = true ∧ test x = true) ((glob c found pattern names).filter test) := by
  unfold glob
  split
  · rename_i none
    have nothing (x : Text) (find : found x = true) : test x = false := by
      cases passes : test x with
      | false => rfl
      | true =>
        have mem : x ∈ names.filter found := List.mem_filter.mpr ⟨inside x passes,find⟩
        rw [none] at mem
        cases mem
    have empty : [pattern].filter test = [] := by simp [nothing pattern own]
    rw [empty]
    refine ⟨fun x => iff_of_false (by simp) (fun both => ?_),List.nodup_nil,List.Pairwise.nil⟩
    rw [nothing x both.1] at both
    cases both.2
  · have perm := List.mergeSort_perm (names.filter found) c.le
    refine ⟨fun x => ?_,?_,?_⟩
    · rw [List.mem_filter,perm.mem_iff,List.mem_filter]
      exact ⟨fun all => ⟨all.1.2,all.2⟩,fun both => ⟨⟨inside x both.2,both.1⟩,both.2⟩⟩
    · exact (perm.nodup_iff.mpr (distinct.filter found)).filter test
    · exact (List.pairwise_mergeSort c.trans c.total _).filter test

theorem selectedSame {c : Collation} {wanted wanted' : Text → Prop} {files : List Text}
    (same : ∀ x, wanted x ↔ wanted' x) (selected : Selected c wanted files) : Selected c wanted' files where
  exactly := fun x => (selected.exactly x).trans (same x)
  once := selected.once
  ordered := selected.ordered

theorem wantedScriptIff (h : Host) (nowantScript : NameList) (d : Directory) (x : Text) :
    shellName x = true ∧ scriptWanted h nowantScript d x = true ↔ WantedScript nowantScript d x := by
  unfold shellName scriptWanted WantedScript
  rw [currentScriptOwn]
  simp only [Bool.and_eq_true,Bool.not_eq_true',bne_iff_ne,List.isSuffixOf_iff_suffix,← isFileIff]
  have listed (file : d.isFile x = true) := unlistedIff nowantScript (fileNamed file).2
  constructor
  · intro all
    obtain ⟨⟨visible,shell⟩,⟨file,other⟩,unlisted⟩ := all
    exact ⟨file,visible,shell,other,(listed file).mp unlisted⟩
  · intro all
    obtain ⟨file,visible,shell,other,unlisted⟩ := all
    exact ⟨⟨visible,shell⟩,⟨file,other⟩,(listed file).mpr unlisted⟩

theorem executableFileIff {d : Directory} {x : Text} : d.isFile x = true ∧ d.isExecutable x = true ↔
    ∃ e ∈ d.entries, e.name = x ∧ e.regular = true ∧ e.executable = true := by
  rw [isFileIff,isExecutableIff]
  constructor
  · intro both
    obtain ⟨⟨e,mem,rfl,regular⟩,k,inside,same,executable⟩ := both
    have one : k = e := List.inj_on_of_nodup_map d.distinct inside mem same
    exact ⟨e,mem,rfl,regular,one ▸ executable⟩
  · intro one
    obtain ⟨e,mem,name,regular,executable⟩ := one
    exact ⟨⟨e,mem,name,regular⟩,e,mem,name,executable⟩

theorem wantedExeIff (nowantExe : NameList) (d : Directory) (x : Text) :
    (!hidden x) = true ∧ exeWanted nowantExe d x = true ↔ WantedExe nowantExe d x := by
  unfold exeWanted WantedExe
  rw [← extensionIff shDotFree,← extensionIff koDotFree,← executableFileIff]
  simp only [Bool.and_eq_true,Bool.not_eq_true',bne_iff_ne]
  have listed (file : d.isFile x = true) := unlistedIff nowantExe (fileNamed file).2
  constructor
  · intro all
    obtain ⟨visible,⟨⟨⟨file,executable⟩,notSh⟩,notKo⟩,unlisted⟩ := all
    exact ⟨⟨file,executable⟩,visible,notSh,notKo,(listed file).mp unlisted⟩
  · intro all
    obtain ⟨⟨file,executable⟩,visible,notSh,notKo,unlisted⟩ := all
    exact ⟨visible,⟨⟨⟨file,executable⟩,notSh⟩,notKo⟩,(listed file).mpr unlisted⟩

theorem exeWantedKept (nowantExe : NameList) {d : Directory} {s : State} (kept : Kept d s) (x : Text) :
    exeWanted nowantExe s.directory x = exeWanted nowantExe d x := by
  unfold exeWanted
  rw [kept.files x]
  by_cases shell : suffix <:+ x
  · rw [(extensionIff shDotFree).mpr (.inr shell)]
    simp
  · rw [kept.executables x shell]

theorem globbedShell (c : Collation) (names : List Text) :
    ∀ x ∈ glob c shellName "*.sh".toList names, suffix <:+ x := by
  intro x mem
  unfold glob at mem
  split at mem
  · rw [List.mem_singleton.mp mem]
    decide
  · rw [(List.mergeSort_perm _ c.le).mem_iff,List.mem_filter] at mem
    have find := mem.2
    unfold shellName at find
    rw [Bool.and_eq_true,List.isSuffixOf_iff_suffix] at find
    exact find.2

theorem scriptLoopKept (h : Host) (nowantScript : NameList) (d : Directory) :
    Kept d (scriptLoop h nowantScript d) := by
  unfold scriptLoop
  have shell := globbedShell h.collation d.names
  exact runKeeps (fun x mem s kept => scriptStepKept h nowantScript (shell x mem) kept) (keptStart d [])

theorem scriptLoopSelects (h : Host) (nowantScript : NameList) (d : Directory) :
    ∃ scripts, (scriptLoop h nowantScript d).commands = scripts.map plainRun ∧
      Selected h.collation (WantedScript nowantScript d) scripts := by
  have shell := globbedShell h.collation d.names
  have runs := @loopCommands _ _ (Kept d) _
    (fun x mem s kept => scriptStepKept h nowantScript (shell x mem) kept)
    (scriptStepCommands h nowantScript) ⟨d,[]⟩ (keptStart d [])
  have inside (x : Text) (wanted : scriptWanted h nowantScript d x = true) : x ∈ d.names := by
    unfold scriptWanted at wanted
    rw [Bool.and_eq_true,Bool.and_eq_true] at wanted
    exact (fileNamed wanted.1.1).1
  refine ⟨_,runs,?_⟩
  exact selectedSame (wantedScriptIff h nowantScript d) (selectedGlob h.collation d.distinct inside (by decide))

theorem exeLoopSelects (h : Host) (nowantScript nowantExe : NameList) (d : Directory) :
    ∃ exes, (exeLoop h nowantExe (scriptLoop h nowantScript d).directory).commands = exes.map plainRun ∧
      Selected h.collation (WantedExe nowantExe d) exes := by
  have kept := scriptLoopKept h nowantScript d
  have runs := @loopCommands (exeStep nowantExe) _ (fun s => s.directory = (scriptLoop h nowantScript d).directory)
    (glob h.collation (fun x => !hidden x) "*".toList (scriptLoop h nowantScript d).directory.names)
    (fun x _ s same => (exeStepDirectory nowantExe s x).trans same)
    (exeStepCommands nowantExe) ⟨_,[]⟩ rfl
  have wanted : exeWanted nowantExe (scriptLoop h nowantScript d).directory = exeWanted nowantExe d :=
    funext (exeWantedKept nowantExe kept)
  have inside (x : Text) (wanted : exeWanted nowantExe d x = true) : x ∈ d.names := by
    unfold exeWanted at wanted
    simp only [Bool.and_eq_true] at wanted
    exact (fileNamed wanted.1.1.1.1).1
  rw [wanted,kept.names] at runs
  unfold exeLoop
  rw [kept.names]
  refine ⟨_,runs,?_⟩
  exact selectedSame (wantedExeIff nowantExe d) (selectedGlob h.collation d.distinct inside (by decide))

theorem runAllOwnLists (h : Host) (isCgroupV2 : Bool) (d : Directory) :
    ∃ scripts exes, runAll h isCgroupV2 d = (scripts.map plainRun,exes.map plainRun) ∧
      Selected h.collation (WantedScript (ownNowantScript isCgroupV2) d) scripts ∧
      Selected h.collation (WantedExe (ownNowantExe isCgroupV2) d) exes := by
  obtain ⟨scripts,first,scriptsSelected⟩ := scriptLoopSelects h (ownNowantScript isCgroupV2) d
  obtain ⟨exes,second,exesSelected⟩ := exeLoopSelects h (ownNowantScript isCgroupV2) (ownNowantExe isCgroupV2) d
  refine ⟨scripts,exes,?_,scriptsSelected,exesSelected⟩
  rw [← first,← second]
  rfl

theorem runAllSelects (h : Host) (nowantScript nowantExe : NameList) (d : Directory) :
    (∃ scripts exes, (scriptLoop h nowantScript d).commands = scripts.map plainRun ∧
      (exeLoop h nowantExe (scriptLoop h nowantScript d).directory).commands = exes.map plainRun ∧
      Selected h.collation (WantedScript nowantScript d) scripts ∧
      Selected h.collation (WantedExe nowantExe d) exes ∧ List.Disjoint scripts exes) ∧
    ∀ (list : NameList) (x : { w : Text // Word w }), list.lists x = false ↔ x.1 ∉ list.names := by
  obtain ⟨scripts,first,scriptsSelected⟩ := scriptLoopSelects h nowantScript d
  obtain ⟨exes,second,exesSelected⟩ := exeLoopSelects h nowantScript nowantExe d
  refine ⟨⟨scripts,exes,first,second,scriptsSelected,exesSelected,fun x script exe => ?_⟩,fun list x => ?_⟩
  · have shell := ((scriptsSelected.exactly x).mp script).2.2.1
    exact ((exesSelected.exactly x).mp exe).2.2.1 (.inr shell)
  · exact unlistedIff list x.2

end KernelTestTools.RunAll
