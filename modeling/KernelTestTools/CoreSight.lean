import KernelTestTools.GrepMatches
import KernelTestTools.SymbolLookup
import Mathlib.Data.List.Lex
import Mathlib.Data.Char
import Mathlib.Logic.Function.Basic

/-! lib/coresight.sh and the scripts that source it: the packets of a dumped trace, counted and
kept in a statistics file over many runs, and the thread ids of thread_loop looked up in the
trace. What perf record leaves and perf report prints comes from outside. -/
namespace KernelTestTools.CoreSight
open TextFile ShellText GrepMatches
open SymbolLookup (grep)

abbrev Files := Text → Option Text

def write (path text : Text) (f : Files) : Files := Function.update f path (some text)
def append (path text : Text) (f : Files) : Files := write path ((f path).getD [] ++ text) f
def remove (path : Text) (f : Files) : Files := Function.update f path none

def decimal (n : Nat) : Text := Nat.toDigits 10 n

structure Exit where
  status : Nat
  message : Option Text
  deriving DecidableEq, Repr

def err (message : Text) : Exit := ⟨1,some message⟩

structure Packets where
  atomFx : Nat
  async : Nat
  traceInfo : Nat
  deriving DecidableEq, Repr

def iAtomF : Text := "I_ATOM_F".toList
def iAsync : Text := "I_ASYNC".toList
def iTraceInfo : Text := "I_TRACE_INFO".toList
def packetNames : List Text := [iAtomF,iAsync,iTraceInfo]

def dumpText (report : Text) : Text := (grepOnly (wordOf packetNames) report).flatMap (· ++ ['\n'])

/- grep name "$DUMP" | wc -l -/
def packetNum (name dump : Text) : Nat := (grep (fun l => decide (name <:+: l)) dump).length

structure Check where
  name : Text
  count : Nat
  minimum : Nat
  deriving DecidableEq, Repr

def tooLow (c : Check) : Text := "Sanity check number of ".toList ++ c.name ++ " is too low (".toList ++
  decimal c.count ++ " < ".toList ++ decimal c.minimum ++ [')']

def checkValMin (c : Check) (statf : Text) (f : Files) : Except (Exit × Files) Files :=
  if c.count < c.minimum then .error (err (tooLow c),append statf ", FAILED\n".toList f) else .ok f

def header : Text := "ATOM Fx Count, Minimum, ASYNC Count, Minimum, TRACE INFO Count, Minimum\n".toList

def countsText (n minima : Packets) : Text := decimal n.atomFx ++ ", ".toList ++ decimal minima.atomFx ++
  ", ".toList ++ decimal n.async ++ ", ".toList ++ decimal minima.async ++ ", ".toList ++
  decimal n.traceInfo ++ ", ".toList ++ decimal minima.traceInfo

structure Access where
  dumpOpens : Bool
  dumpGoes : Bool
  statOpens : Bool
  deriving DecidableEq, Repr

def perfDumpAuxVerify (access : Access) (statf dump : Text) (minima : Packets) (report : Text) (f : Files) :
    Except (Exit × Files) Files :=
  let text := dumpText report
  let dumped := write dump text f
  -- sh -e ends the script at a redirection that fails, at grep without a match and at rm -f
  if !access.dumpOpens then .error (⟨2,none⟩,f)
  else if text = [] then .error (⟨1,none⟩,dumped)
  else if !access.dumpGoes then .error (⟨1,none⟩,dumped)
  else if !access.statOpens then .error (⟨2,none⟩,remove dump dumped)
  else do
    let n : Packets := ⟨packetNum iAtomF text,packetNum iAsync text,packetNum iTraceInfo text⟩
    let f := remove dump dumped
    let f := if (f statf).isNone then write statf header f else f
    let f := append statf (countsText n minima) f
    let f ← checkValMin ⟨"ATOM_FX".toList,n.atomFx,minima.atomFx⟩ statf f
    let f ← checkValMin ⟨"ASYNC".toList,n.async,minima.async⟩ statf f
    let f ← checkValMin ⟨"TRACE_INFO".toList,n.traceInfo,minima.traceInfo⟩ statf f
    .ok (append statf ", Ok\n".toList f)

structure Test where
  test : Text
  datv : Text
  minima : Packets
  deriving DecidableEq, Repr

def asmPureLoop : Test := ⟨"asm_pure_loop".toList,"out".toList,⟨10,10,10⟩⟩
def memcpyThread16k10 : Test := ⟨"memcpy_thread".toList,"16k_10".toList,⟨10,10,10⟩⟩
def unrollLoopThread10 : Test := ⟨"unroll_loop_thread".toList,"10".toList,⟨10,10,10⟩⟩

/- One run of a script: the two directories as the environment gives them, whether the binary
is there, how perf record ends, what it leaves in "$DATA" and in the backup that it makes of an
older one, what perf report prints, and which files can be written. -/
structure Attempt where
  test : Test
  dataDir : Text
  statDir : Text
  executable : Bool
  recordStatus : Nat
  dataLeft : Option Text
  backupLeft : Option Text
  report : Text
  access : Access
  deriving DecidableEq, Repr

def directory (variable' : Text) : Text := if variable' ≠ [] then variable' else ['.']

section
variable (a : Attempt)

def Attempt.statf : Text := directory a.statDir ++ "/stats-".toList ++ a.test.test ++ '-'::a.test.datv ++ ".csv".toList
def Attempt.dump : Text := directory a.dataDir ++ "/perf-tmp-aux-dump.txt".toList

def Attempt.data : Text := directory a.dataDir ++ "/perf-".toList ++ a.test.test ++ '-'::a.test.datv ++ ".data".toList
def Attempt.backup : Text := a.data ++ ".old".toList

/- perf record -o "$DATA" -/
def Attempt.perfRecord (f : Files) : Files :=
  Function.update (Function.update f a.data a.dataLeft) a.backup a.backupLeft

def run (f : Files) : Exit × Files :=
  if !a.executable then (⟨2,none⟩,f)
  else if a.recordStatus ≠ 0 then (⟨a.recordStatus,none⟩,a.perfRecord f)
  else match perfDumpAuxVerify a.access a.statf a.dump a.test.minima a.report (a.perfRecord f) with
    | .ok f => (⟨0,none⟩,f)
    | .error stopped => stopped

end

def runs (as : List Attempt) (f : Files) : Files := as.foldl (fun f a => (run a f).2) f

structure Row where
  counts : Packets
  minima : Packets
  ok : Bool
  deriving DecidableEq, Repr

def Row.text (r : Row) : Text := countsText r.counts r.minima ++
  (if r.ok then ", Ok\n".toList else ", FAILED\n".toList)

def statsText (rows : List Row) : Text := header ++ rows.flatMap Row.text

def readNumber (s : Text) : Option Nat :=
  if s ≠ [] ∧ s.all Char.isDigit then some (Nat.ofDigitChars 10 s 0) else none

def readVerdict (s : Text) : Option Bool :=
  if s = "Ok".toList then some true else if s = "FAILED".toList then some false else none

def readCells : List Text → Option Row
  | [a,b,c,d,e,f,v] => do
    let atomFx ← readNumber a
    let atomFxMinimum ← readNumber b
    let async ← readNumber c
    let asyncMinimum ← readNumber d
    let traceInfo ← readNumber e
    let traceInfoMinimum ← readNumber f
    let ok ← readVerdict v
    some ⟨⟨atomFx,async,traceInfo⟩,⟨atomFxMinimum,asyncMinimum,traceInfoMinimum⟩,ok⟩
  | _ => none

def readRow (line : Text) : Option Row := readCells ((fields ',' line).map (·.dropWhile (· == ' ')))

def readStats (file : Text) : Option (List Row) :=
  match lines file with
  | [] => none
  | l::ls => if l = header then (ls.map lineText).mapM readRow else none

def Attempt.counts (a : Attempt) : Packets :=
  ⟨occurrences iAtomF a.report,occurrences iAsync a.report,occurrences iTraceInfo a.report⟩

def Packets.Meets (n minima : Packets) : Prop :=
  minima.atomFx ≤ n.atomFx ∧ minima.async ≤ n.async ∧ minima.traceInfo ≤ n.traceInfo

instance (n minima : Packets) : Decidable (n.Meets minima) :=
  inferInstanceAs (Decidable (minima.atomFx ≤ n.atomFx ∧ minima.async ≤ n.async ∧ minima.traceInfo ≤ n.traceInfo))

def Attempt.Recorded (a : Attempt) : Prop :=
  a.executable = true ∧ a.recordStatus = 0 ∧ a.access = ⟨true,true,true⟩ ∧ a.counts ≠ ⟨0,0,0⟩

instance (a : Attempt) : Decidable a.Recorded :=
  inferInstanceAs (Decidable (a.executable = true ∧ a.recordStatus = 0 ∧ a.access = ⟨true,true,true⟩ ∧
    a.counts ≠ ⟨0,0,0⟩))

def Attempt.row (a : Attempt) : Row := ⟨a.counts,a.test.minima,decide (a.counts.Meets a.test.minima)⟩

def checks (n minima : Packets) : List Check :=
  [⟨"ATOM_FX".toList,n.atomFx,minima.atomFx⟩,⟨"ASYNC".toList,n.async,minima.async⟩,
    ⟨"TRACE_INFO".toList,n.traceInfo,minima.traceInfo⟩]

def verdict (cs : List Check) : Exit :=
  match cs.find? (fun c => c.count < c.minimum) with
  | some c => err (tooLow c)
  | none => ⟨0,none⟩

theorem namesSeparate : Separate packetNames := by decide +kernel

theorem decimalRead (n : Nat) : readNumber (decimal n) = some n := by
  have digits : (decimal n).all Char.isDigit = true :=
    List.all_eq_true.mpr (fun c mem => Nat.isDigit_of_mem_toDigits (by decide) (by decide) mem)
  rw [readNumber,if_pos ⟨Nat.toDigits_ne_nil,digits⟩,decimal,Nat.ofDigitChars_ten_toDigits]

theorem decimalPlain (n : Nat) {c : Char} (other : c.isDigit = false) : c ∉ decimal n := by
  intro mem
  rw [Nat.isDigit_of_mem_toDigits (by decide) (by decide) mem] at other
  cases other

theorem lineTextsWhole {ls : List Text} (whole : ∀ l ∈ ls, '\n' ∉ l) :
    (lines (ls.flatMap (· ++ ['\n']))).map lineText = ls := by
  induction ls with
  | nil => rfl
  | cons l ls ih =>
    have own := whole l List.mem_cons_self
    rw [List.flatMap_cons,linesCons ⟨l,own,rfl⟩,List.map_cons,lineTextBreak own,
      ih (fun k mem => whole k (List.mem_cons_of_mem l mem))]

theorem matchNamed {report w : Text} (mem : w ∈ grepOnly (wordOf packetNames) report) : w ∈ packetNames := by
  rw [grepEvery (wordsApart namesSeparate) (wordsInLine namesSeparate),everyMatch,List.mem_filterMap] at mem
  obtain ⟨t,_,found⟩ := mem
  exact (wordFound found).1

theorem namedSame : ∀ w ∈ packetNames, ∀ v ∈ packetNames, v <:+: w ↔ w = v := by decide +kernel

theorem packetsCounted {name : Text} (own : name ∈ packetNames) (report : Text) :
    packetNum name (dumpText report) = occurrences name report := by
  have whole : ∀ w ∈ grepOnly (wordOf packetNames) report, '\n' ∉ w :=
    fun w mem => namesSeparate.2.1 w (matchNamed mem)
  rw [packetNum,grep,dumpText,lineTextsWhole whole,← grepOccurrences namesSeparate own]
  congr 1
  refine List.filter_congr (fun w mem => ?_)
  exact decide_eq_decide.mpr (namedSame w (matchNamed mem) name own)

theorem dumpEmptyIff (a : Attempt) : dumpText a.report = [] ↔ a.counts = ⟨0,0,0⟩ := by
  have each {w : Text} (own : w ∈ packetNames) := grepOccurrences namesSeparate own a.report
  constructor
  · intro empty
    have nothing : grepOnly (wordOf packetNames) a.report = [] := by
      cases found : grepOnly (wordOf packetNames) a.report with
      | nil => rfl
      | cons w ws => simp [dumpText,found] at empty
    rw [nothing] at each
    rw [Attempt.counts,← each (by simp [packetNames]),← each (by simp [packetNames]),← each (by simp [packetNames])]
    rfl
  · intro zero
    cases found : grepOnly (wordOf packetNames) a.report with
    | nil => rw [dumpText,found,List.flatMap_nil]
    | cons w ws =>
      have own : w ∈ packetNames := matchNamed (found ▸ List.mem_cons_self)
      have some' := each own
      rw [found,List.filter_cons_of_pos (by simp),List.length_cons] at some'
      have zeros := Packets.mk.inj zero
      have named : w = iAtomF ∨ w = iAsync ∨ w = iTraceInfo := by simpa [packetNames] using own
      rcases named with rfl | rfl | rfl <;> omega

section
variable {path other text : Text} {f : Files}

theorem appendWritten (path s text : Text) (f : Files) : append path text (write path s f) = write path (s ++ text) f := by
  simp [append,write]

@[simp] theorem writeOther (different : path ≠ other) : write path text f other = f other :=
  Function.update_of_ne (Ne.symm different) _ _

@[simp] theorem writeOwn : write path text f path = some text := Function.update_self _ _ _

@[simp] theorem removeOther (different : path ≠ other) : remove path f other = f other :=
  Function.update_of_ne (Ne.symm different) _ _

theorem removeWritten (path text : Text) (f : Files) : remove path (write path text f) = remove path f := by
  simp [remove,write]

theorem headed (path text : Text) (f : Files) : append path text (if (f path).isNone then write path header f else f) =
    write path ((f path).getD header ++ text) f := by
  cases here : f path with
  | none => simp [appendWritten]
  | some t => simp [append,here]

end

def Attempt.working (a : Attempt) : List Text := [a.data,a.backup,a.dump]

theorem lastOther {front back : Text} {c d : Char} (last : back.getLast? = some c) (other : c ≠ d) :
    (front ++ back).getLast? ≠ some d := by
  rw [List.getLast?_append,last]
  exact fun same => other (Option.some.inj same)

theorem statsPathApart (a b : Attempt) : a.statf ∉ b.working := by
  have ends : a.statf.getLast? = some 'v' := by
    rw [Attempt.statf,List.getLast?_append]
    rfl
  have others : ∀ path ∈ b.working, path.getLast? ≠ some 'v' := by
    intro path mem
    simp only [Attempt.working,List.mem_cons,List.not_mem_nil,or_false] at mem
    rcases mem with rfl | rfl | rfl
    · exact @lastOther _ ".data".toList 'a' 'v' rfl (by decide)
    · exact @lastOther _ ".old".toList 'd' 'v' rfl (by decide)
    · exact @lastOther _ "/perf-tmp-aux-dump.txt".toList 't' 'v' rfl (by decide)
  exact fun mem => others _ mem ends

theorem perfRecordOther {a : Attempt} {path : Text} (other : path ∉ a.working) (f : Files) :
    a.perfRecord f path = f path := by
  simp only [Attempt.working,List.mem_cons,List.not_mem_nil,or_false,not_or] at other
  rw [Attempt.perfRecord,Function.update_of_ne other.2.1,Function.update_of_ne other.1]

theorem notDump {a : Attempt} {path : Text} (other : path ∉ a.working) : a.dump ≠ path := by
  rintro rfl
  exact other (by simp [Attempt.working])

def low (c : Check) : Bool := decide (c.count < c.minimum)

theorem checksRun (cs : List Check) (statf : Text) (f : Files) : cs.foldlM (fun f c => checkValMin c statf f) f =
    match cs.find? low with
    | some c => .error (err (tooLow c),append statf ", FAILED\n".toList f)
    | none => .ok f := by
  induction cs with
  | nil => rfl
  | cons c cs ih =>
    rw [List.foldlM_cons]
    cases here : low c with
    | true =>
      rw [List.find?_cons_of_pos here,checkValMin,if_pos (of_decide_eq_true here)]
      rfl
    | false =>
      rw [List.find?_cons_of_neg (by simp [here]),checkValMin,if_neg (of_decide_eq_false here)]
      exact ih

theorem meetsIff (n minima : Packets) : (checks n minima).find? low = none ↔ n.Meets minima := by
  simp [checks,low,Packets.Meets]

theorem verifySpec {a : Attempt} (opens : a.access = ⟨true,true,true⟩) (some' : a.counts ≠ ⟨0,0,0⟩) (f : Files) :
    perfDumpAuxVerify a.access a.statf a.dump a.test.minima a.report f =
      (checks a.counts a.test.minima).foldlM (fun f c => checkValMin c a.statf f)
        (write a.statf ((f a.statf).getD header ++ countsText a.counts a.test.minima) (remove a.dump f)) >>=
      fun f => .ok (append a.statf ", Ok\n".toList f) := by
  have text : dumpText a.report ≠ [] := fun empty => some' ((dumpEmptyIff a).mp empty)
  have before : remove a.dump f a.statf = f a.statf := removeOther (notDump (statsPathApart a a))
  unfold perfDumpAuxVerify
  dsimp only
  rw [opens,if_neg text,packetsCounted (by simp [packetNames]),packetsCounted (by simp [packetNames]),
    packetsCounted (by simp [packetNames]),removeWritten,headed,before]
  simp [checks,Attempt.counts]

theorem recordedRun {a : Attempt} (recorded : a.Recorded) (f : Files) : run a f =
    (verdict (checks a.counts a.test.minima),
      write a.statf ((f a.statf).getD header ++ a.row.text) (remove a.dump (a.perfRecord f))) := by
  obtain ⟨there,ended,opens,some'⟩ := recorded
  have meets := meetsIff a.counts a.test.minima
  unfold run
  rw [there,ended,verifySpec opens some',checksRun,perfRecordOther (statsPathApart a a)]
  unfold verdict Attempt.row Row.text
  change _ = (match (checks a.counts a.test.minima).find? low with | some c => err (tooLow c) | none => ⟨0,none⟩, _)
  cases found : (checks a.counts a.test.minima).find? low with
  | some c =>
    have fails : ¬ a.counts.Meets a.test.minima := by
      intro all
      rw [meets.mpr all] at found
      cases found
    simp [fails,bind,Except.bind,appendWritten]
  | none =>
    have passes := meets.mp found
    simp [passes,bind,Except.bind,appendWritten]

theorem accessAll {c : Access} (dump : c.dumpOpens = true) (goes : c.dumpGoes = true) (stat : c.statOpens = true) :
    c = ⟨true,true,true⟩ := by
  cases c
  simp_all

theorem verifyStops {a : Attempt} (stops : ¬(a.access = ⟨true,true,true⟩ ∧ a.counts ≠ ⟨0,0,0⟩)) (f : Files) :
    ∃ e, perfDumpAuxVerify a.access a.statf a.dump a.test.minima a.report f = .error e ∧ e.1.status ≠ 0 ∧
      ∀ path, a.dump ≠ path → e.2 path = f path := by
  unfold perfDumpAuxVerify
  dsimp only
  split
  · exact ⟨_,rfl,Nat.succ_ne_zero 1,fun _ _ => rfl⟩
  · rename_i opens
    split
    · exact ⟨_,rfl,Nat.succ_ne_zero 0,fun path other => writeOther other⟩
    · rename_i text
      split
      · exact ⟨_,rfl,Nat.succ_ne_zero 0,fun path other => writeOther other⟩
      · rename_i goes
        split
        · exact ⟨_,rfl,Nat.succ_ne_zero 1,fun path other => (removeOther other).trans (writeOther other)⟩
        · rename_i stat
          refine absurd ⟨?_,fun zero => text ((dumpEmptyIff a).mpr zero)⟩ stops
          simp only [Bool.not_eq_true,Bool.not_eq_false'] at opens goes stat
          exact accessAll opens goes stat

theorem unrecordedRun {a : Attempt} (unrecorded : ¬a.Recorded) (f : Files) :
    (run a f).1.status ≠ 0 ∧ ∀ path, path ∉ a.working → (run a f).2 path = f path := by
  unfold run
  split
  · exact ⟨Nat.succ_ne_zero 1,fun _ _ => rfl⟩
  · rename_i there
    split
    · rename_i failed
      exact ⟨failed,fun path other => perfRecordOther other f⟩
    · rename_i ended
      obtain ⟨e,stopped,status,others⟩ := @verifyStops a (fun all => unrecorded
        ⟨by simpa using there,by simpa using ended,all⟩) (a.perfRecord f)
      rw [stopped]
      exact ⟨status,fun path other => (others path (notDump other)).trans (perfRecordOther other f)⟩

theorem verdictStatus (n minima : Packets) : (verdict (checks n minima)).status = 0 ↔ n.Meets minima := by
  rw [← meetsIff]
  change Exit.status (match (checks n minima).find? low with | some c => err (tooLow c) | none => ⟨0,none⟩) = 0 ↔ _
  cases (checks n minima).find? low with
  | some c => simp [err]
  | none => simp

def rowsOf (path : Text) (as : List Attempt) : List Row :=
  (as.filter (fun a => a.Recorded ∧ a.statf = path)).map Attempt.row

theorem stepStats (a b : Attempt) (f : Files) : ((run a f).2 b.statf).getD header =
    (f b.statf).getD header ++ (rowsOf b.statf [a]).flatMap Row.text := by
  by_cases recorded : a.Recorded
  · rw [recordedRun recorded]
    by_cases same : a.statf = b.statf
    · simp [rowsOf,recorded,same]
    · have apart := statsPathApart b a
      simp [rowsOf,same,notDump apart,perfRecordOther apart]
  · rw [(unrecordedRun recorded f).2 b.statf (statsPathApart b a)]
    simp [rowsOf,recorded]

theorem runsStats (as : List Attempt) (b : Attempt) (f : Files) : ((runs as f) b.statf).getD header =
    (f b.statf).getD header ++ (rowsOf b.statf as).flatMap Row.text := by
  induction as generalizing f with
  | nil => simp [runs,rowsOf]
  | cons a as ih =>
    have split : rowsOf b.statf (a::as) = rowsOf b.statf [a] ++ rowsOf b.statf as := by
      rw [rowsOf,rowsOf,rowsOf,← List.map_append,← List.filter_append]
      rfl
    rw [runs,List.foldl_cons,← runs,ih,stepStats,split,List.flatMap_append,List.append_assoc]

theorem cellRead {s : Text} (plain : ' ' ∉ s) : (' '::s).dropWhile (· == ' ') = s ∧ s.dropWhile (· == ' ') = s := by
  cases s with
  | nil => exact ⟨rfl,rfl⟩
  | cons c s =>
    have other : (c == ' ') = false := by
      simp only [List.mem_cons,not_or] at plain
      simpa using Ne.symm plain.1
    simp [other]

def verdictText (ok : Bool) : Text := if ok then "Ok".toList else "FAILED".toList

def Row.cells (r : Row) : List Text := [decimal r.counts.atomFx,' '::decimal r.minima.atomFx,
  ' '::decimal r.counts.async,' '::decimal r.minima.async,' '::decimal r.counts.traceInfo,
  ' '::decimal r.minima.traceInfo,' '::verdictText r.ok]

theorem rowShape (r : Row) : r.text = [','].intercalate r.cells ++ ['\n'] := by
  cases ok : r.ok <;> simp [Row.text,Row.cells,countsText,verdictText,ok,List.intercalate_cons_cons]

theorem cellsPlain (r : Row) : (∀ x ∈ r.cells, ',' ∉ x) ∧ '\n' ∉ [','].intercalate r.cells := by
  have comma (n : Nat) : ',' ∉ decimal n := decimalPlain n rfl
  have newline (n : Nat) : '\n' ∉ decimal n := decimalPlain n rfl
  have last : ',' ∉ verdictText r.ok ∧ '\n' ∉ verdictText r.ok := by
    cases r.ok <;> decide
  refine ⟨?_,?_⟩
  · simp [Row.cells,comma,last]
  · simp [Row.cells,List.intercalate_cons_cons,newline,last]

theorem rowRead (r : Row) : readRow ([','].intercalate r.cells) = some r := by
  have blankless (n : Nat) := cellRead (decimalPlain n (rfl : Char.isDigit ' ' = false))
  have last : (' '::verdictText r.ok).dropWhile (· == ' ') = verdictText r.ok := by
    cases r.ok <;> rfl
  have verdict : readVerdict (verdictText r.ok) = some r.ok := by
    cases r.ok <;> rfl
  rw [readRow,fields,List.splitOn_intercalate ',' (cellsPlain r).1 (by simp [Row.cells])]
  simp only [Row.cells,List.map_cons,List.map_nil,blankless,last,readCells,decimalRead,verdict]
  rfl

theorem bodiesRead (rows : List Row) :
    (rows.map (fun r => [','].intercalate r.cells)).mapM readRow = some rows := by
  induction rows with
  | nil => rfl
  | cons r rows ih =>
    rw [List.map_cons,List.mapM_cons,rowRead,ih]
    rfl

theorem rowsRead (rows : List Row) : readStats (statsText rows) = some rows := by
  have line : Terminated header := ⟨header.dropLast,by decide +kernel,by decide +kernel⟩
  have shape : rows.flatMap Row.text = (rows.map (fun r => [','].intercalate r.cells)).flatMap (· ++ ['\n']) := by
    rw [List.flatMap_map]
    exact List.flatMap_congr (fun r _ => rowShape r)
  have behind : (lines (rows.flatMap Row.text)).map lineText = rows.map (fun r => [','].intercalate r.cells) := by
    rw [shape]
    refine lineTextsWhole (fun l mem => ?_)
    obtain ⟨r,_,rfl⟩ := List.mem_map.mp mem
    exact (cellsPlain r).2
  rw [readStats,statsText,linesCons line]
  dsimp only
  rw [if_pos rfl,behind,bodiesRead]

theorem exitZero (a : Attempt) (f : Files) : (run a f).1.status = 0 ↔ a.Recorded ∧ a.row.ok = true := by
  by_cases recorded : a.Recorded
  · rw [recordedRun recorded,verdictStatus]
    simp [recorded,Attempt.row]
  · simp [(unrecordedRun recorded f).1,recorded]

theorem runsElsewhere (as : List Attempt) (f : Files) {path : Text}
    (foreign : ∀ a ∈ as, path ≠ a.statf ∧ path ∉ a.working) : runs as f path = f path := by
  induction as generalizing f with
  | nil => rfl
  | cons a as ih =>
    obtain ⟨stats,other⟩ := foreign a List.mem_cons_self
    rw [runs,List.foldl_cons,← runs,ih _ (fun b mem => foreign b (List.mem_cons_of_mem a mem))]
    by_cases recorded : a.Recorded
    · rw [recordedRun recorded]
      exact (writeOther (Ne.symm stats)).trans ((removeOther (notDump other)).trans (perfRecordOther other f))
    · exact (unrecordedRun recorded f).2 path other

def sampleReport : Text := "I_ASYNC\nI_TRACE_INFO I_ATOM_F1 I_ATOM_F3".toList

def sampleAttempt : Attempt :=
  ⟨asmPureLoop,[],[],true,0,some "PERFILE2".toList,none,sampleReport,⟨true,true,true⟩⟩

def lockedAttempt : Attempt := { sampleAttempt with access := ⟨true,true,false⟩ }

def sampleRow : Row := ⟨⟨2,1,1⟩,⟨10,10,10⟩,false⟩

end KernelTestTools.CoreSight
