import KernelTestTools.SymbolPointers
import KernelTestTools.KernelModules
import KernelTestTools.Descriptors

/-! The programs that open a file and load a module with its number: the text that snprintf
writes, the words of the shell, the kernel's reading of the arguments and the files of the
process that loads stand between the program's file and the one that the module gets. -/
namespace KernelTestTools.Handover
open TextFile ShellText SymbolLookup ModuleParameters SymbolPointers Descriptors
open KernelModules (einval enomem)

structure File (E : Type) where
  socket : Bool
  privateData : Option E

/- module_init: an error code, or what the function under test is called with. -/
inductive Init (A : Type) where
  | failed (code : Int)
  | called (a : A)
  deriving DecidableEq, Repr

inductive Loaded (A : Type) where
  | exits
  | refused
  | started (i : Init A)
  deriving DecidableEq, Repr

def enoent : Int := -2

section
variable {E P S : Type}

/- A negative number is no descriptor. -/
def fget (t : Table (File E)) : Setting → Option (File E)
  | .int (.ofNat n) => fileAt t n
  | _ => none

def pmuReschedParameters : List Parameter := [ulong "addr1",⟨"fd".toList,.int⟩]

/- ko_perf_pmu_resched.c: event->pmu is read from whatever private_data is. -/
def pmuReschedInit (pmu : E → Option P) (t : Table (File E)) (s : Settings) : Init (Option Address × P) :=
  match fget t (s "fd".toList) with
  | none => .failed einval
  | some eventFile =>
    match eventFile.privateData with
    | none => .failed einval
    | some event =>
      match pmu event with
      | none => .failed einval
      | some p => .called (pointer (s "addr1".toList),p)

/- snprintf(cmd, sizeof(cmd), "insmod ko_perf_pmu_resched.ko addr1=0x%lx fd=%d", addr1, fd) -/
def insmodCommand (addr1 : Address) (fd : Nat) : Text :=
  ("insmod ko_perf_pmu_resched.ko addr1=0x".toList ++ Nat.toDigits 16 addr1.toNat ++
    " fd=".toList ++ Nat.toDigits 10 fd).take 255

/- The shell and insmod each keep what exec leaves, and insmod opens the module's file. -/
def insmodTable (t : Table (File E)) (ko : File E) : Table (File E) := opened (exec (exec t)) ⟨ko,true⟩

/- CORE/perf_event_open_test.c; no event where perf_event_open fails. -/
def perfEventOpenMain (pmu : E → Option P) (ko : File E) (event : Option E) (t : Table (File E)) (symbolFile : Text) :
    Loaded (Option Address × P) :=
  match event with
  | none => .exits
  | some e =>
    match perfEventOpenTest symbolFile with
    | none => .exits
    | some addr1 =>
      match insmod pmuReschedParameters ((splitWords (insmodCommand addr1 (free t))).drop 2) with
      | none => .refused
      | some s => .started (pmuReschedInit pmu (insmodTable (opened t ⟨⟨false,some e⟩,false⟩) ko) s)

def skCloneParameters : List Parameter := [⟨"sockfd".toList,.int⟩]

def getSocketFromFd (t : Table (File E)) (fd : Setting) : Option E :=
  (fget t fd).bind (fun file => if file.socket then file.privateData else none)

def negative : Setting → Bool
  | .int n => decide (n < 0)
  | _ => false

/- ctest_cgroup_sk_clone.c; sk is sock->sk, and some sockets cannot be cloned. -/
def skCloneInit (sk : E → Option S) (clones : S → Bool) (t : Table (File E)) (s : Settings) : Init S :=
  if negative (s "sockfd".toList) then .failed einval
  else
    match getSocketFromFd t (s "sockfd".toList) with
    | none => .failed enoent
    | some sock =>
      match sk sock with
      | none => .failed einval
      | some k => if clones k then .called k else .failed enomem

structure Answers where
  sockets : Bool
  binds : Bool
  listens : Bool
  opens : Bool
  stats : Bool
  allocates : Bool
  reads : Bool

def Answers.listening (a : Answers) : Bool := a.sockets && a.binds && a.listens
def Answers.image (a : Answers) : Bool := a.opens && a.stats && a.allocates && a.reads

def getModuleParam (sockfd : Nat) : Text := ("sockfd=".toList ++ Nat.toDigits 10 sockfd).take 255

def loadKernelModule (answers : Answers) (init : Table (File E) → Settings → Init S) (ko : File E)
    (t : Table (File E)) (params : Text) : Loaded S :=
  if answers.image then
    match insmod skCloneParameters [params] with
    | none => .refused
    | some s => .started (init (closed (opened t ⟨ko,false⟩) (free t)) s)
  else .exits

/- open_socket.c -/
def openSocketMain (sk : E → Option S) (clones : S → Bool) (answers : Answers) (ko : File E) (sock : E)
    (t : Table (File E)) : Loaded S :=
  if answers.listening then
    loadKernelModule answers (skCloneInit sk clones) ko (opened t ⟨⟨true,some sock⟩,false⟩) (getModuleParam (free t))
  else .exits

end

theorem hexDigitsOf (n : Nat) : ∀ c ∈ Nat.toDigits 16 n, hexDigit c = true := by
  induction n using Nat.strongRecOn with
  | ind n ih =>
    rcases Nat.lt_or_ge n 16 with small | large
    · rw [Nat.toDigits_of_lt_base small]
      intro c mem
      rw [List.mem_singleton.mp mem]
      exact (digitCharHex small).1
    · rw [Nat.toDigits_of_base_le (by decide) large]
      intro c mem
      rcases List.mem_append.mp mem with early | last
      · exact ih (n/16) (by omega) c early
      · rw [List.mem_singleton.mp last]
        exact (digitCharHex (Nat.mod_lt n (by decide))).1

theorem hexValueOf (n : Nat) : hexValue (Nat.toDigits 16 n) = n := by
  induction n using Nat.strongRecOn with
  | ind n ih =>
    rcases Nat.lt_or_ge n 16 with small | large
    · rw [Nat.toDigits_of_lt_base small,hexValue,List.foldl_cons,List.foldl_nil,(digitCharHex small).2,Nat.mul_zero,
        Nat.zero_add]
    · have front := ih (n/16) (by omega)
      unfold hexValue at front ⊢
      rw [Nat.toDigits_of_base_le (by decide) large,List.foldl_append,front,List.foldl_cons,List.foldl_nil,
        (digitCharHex (Nat.mod_lt n (by decide))).2]
      omega

theorem decimalNotBlank {n : Nat} : ∀ c ∈ Nat.toDigits 10 n, blank c = false := by
  intro c mem
  have digit := Nat.isDigit_of_mem_toDigits (by decide) (by decide) mem
  cases space : blank c with
  | false => rfl
  | true =>
    have which : c = ' ' ∨ c = '\t' ∨ c = '\n' := by simpa [blank,or_assoc] using space
    rcases which with rfl | rfl | rfl <;> exact absurd digit (by decide)

theorem decimalWord (front : Text) (plain : ∀ c ∈ front, blank c = false) (n : Nat) :
    Word (front ++ Nat.toDigits 10 n) :=
  wordAppend plain ⟨Nat.toDigits_ne_nil,decimalNotBlank⟩

theorem hexWordOf (front : Text) (plain : ∀ c ∈ front, blank c = false) (n : Nat) :
    Word (front ++ Nat.toDigits 16 n) :=
  wordAppend plain ⟨Nat.toDigits_ne_nil,fun c mem => hexDigitNotBlank (hexDigitsOf n c mem)⟩

section
variable {fd : Nat}

theorem decimalLength (small : fd < 2^31) : (Nat.toDigits 10 fd).length ≤ 10 :=
  (Nat.length_toDigits_le_iff (by decide) (by decide)).mpr (Nat.lt_of_lt_of_le small (by decide))

theorem commandWords (addr1 : Address) (small : fd < 2^31) :
    (splitWords (insmodCommand addr1 fd)).drop 2 =
      ["addr1=0x".toList ++ Nat.toDigits 16 addr1.toNat,"fd=".toList ++ Nat.toDigits 10 fd] := by
  have hex : (Nat.toDigits 16 addr1.toNat).length ≤ 16 :=
    (Nat.length_toDigits_le_iff (by decide) (by decide)).mpr (Nat.lt_of_lt_of_le addr1.isLt (by decide))
  have decimal := decimalLength small
  have address := hexWordOf "addr1=0x".toList (blankFree rfl) addr1.toNat
  have number := decimalWord "fd=".toList (blankFree rfl) fd
  have whole : insmodCommand addr1 fd = "insmod".toList ++ ' '::("ko_perf_pmu_resched.ko".toList ++ ' '::
      (("addr1=0x".toList ++ Nat.toDigits 16 addr1.toNat) ++ ' '::("fd=".toList ++ Nat.toDigits 10 fd))) := by
    unfold insmodCommand
    rw [List.take_of_length_le (by simp; omega)]
    simp
  rw [whole,splitWordsAppend,splitWordsAppend,splitWordsAppend,splitWordsOne address,splitWordsOne number]
  rfl

theorem intSetting (small : fd < 2^31) : Kind.int.set (Nat.toDigits 10 fd) = some (.int fd) := by
  change (kstrtoint (Nat.toDigits 10 fd)).map Setting.int = _
  rw [kstrtointDecimal small]
  rfl

theorem addressSetting (addr1 : Address) :
    Kind.ulong.set ('0':: 'x'::Nat.toDigits 16 addr1.toNat) = some (.number addr1) := by
  have small : hexValue (Nat.toDigits 16 addr1.toNat) < 2^64 := by
    rw [hexValueOf]
    exact addr1.isLt
  have read := kstrtoulPrefixed Nat.toDigits_ne_nil (hexDigitsOf addr1.toNat) small
  rw [hexValueOf,BitVec.ofNat_toNat,BitVec.setWidth_eq] at read
  rw [Kind.set,read]
  rfl

theorem pmuReschedSettings (addr1 : Address) (small : fd < 2^31) :
    ∃ s, insmod pmuReschedParameters ((splitWords (insmodCommand addr1 fd)).drop 2) = some s ∧
      s "addr1".toList = .number addr1 ∧ s "fd".toList = .int fd := by
  have address := hexWordOf "addr1=0x".toList (blankFree rfl) addr1.toNat
  have number := decimalWord "fd=".toList (blankFree rfl) fd
  have knownAddress : pmuReschedParameters.find? (fun p => p.name == "addr1".toList) =
      some ⟨"addr1".toList,.ulong⟩ := rfl
  have knownFd : pmuReschedParameters.find? (fun p => p.name == "fd".toList) = some ⟨"fd".toList,.int⟩ := rfl
  have first := parseKnown knownAddress (by decide) (addressSetting addr1) (initial pmuReschedParameters)
  have second := parseKnown knownFd (by decide) (intSetting small)
    (Function.update (initial pmuReschedParameters) "addr1".toList (.number addr1))
  have addressShape : "addr1=0x".toList ++ Nat.toDigits 16 addr1.toNat =
      "addr1".toList ++ '=':: '0':: 'x'::Nat.toDigits 16 addr1.toNat := rfl
  have fdShape : "fd=".toList ++ Nat.toDigits 10 fd = "fd".toList ++ '='::Nat.toDigits 10 fd := rfl
  have words := List.forall_mem_cons.mpr ⟨address,List.forall_mem_singleton.mpr number⟩
  refine ⟨Function.update (Function.update (initial pmuReschedParameters) "addr1".toList (.number addr1))
    "fd".toList (.int fd),?_,?_,Function.update_self _ _ _⟩
  · rw [commandWords addr1 small,insmod,splitWordsArguments,wordsOf words,addressShape,fdShape]
    rw [List.foldlM_cons,first,Option.bind_eq_bind,Option.bind_some,List.foldlM_cons,second]
    rfl
  · rw [Function.update_of_ne (by decide),Function.update_self]

theorem skCloneSettings (small : fd < 2^31) :
    ∃ s, insmod skCloneParameters [getModuleParam fd] = some s ∧ s "sockfd".toList = .int fd := by
  have decimal := decimalLength small
  have number := decimalWord "sockfd=".toList (blankFree rfl) fd
  have known : skCloneParameters.find? (fun p => p.name == "sockfd".toList) = some ⟨"sockfd".toList,.int⟩ := rfl
  have parsed := parseKnown known (by decide) (intSetting small) (initial skCloneParameters)
  have whole : getModuleParam fd = "sockfd=".toList ++ Nat.toDigits 10 fd := by
    rw [getModuleParam,List.take_of_length_le (by simp; omega)]
  have shape : "sockfd=".toList ++ Nat.toDigits 10 fd = "sockfd".toList ++ '='::Nat.toDigits 10 fd := rfl
  refine ⟨Function.update (initial skCloneParameters) "sockfd".toList (.int fd),?_,Function.update_self _ _ _⟩
  rw [insmod,splitWordsArguments,whole,wordsOf (List.forall_mem_singleton.mpr number),shape,List.foldlM_cons,parsed]
  rfl

end

section
variable {E P S : Type} {t : Table (File E)} {ko : File E}

theorem insmodFile (t : Table (File E)) (ko file : File E) :
    fileAt (insmodTable (opened t ⟨file,false⟩) ko) (free t) = some file := by
  have own := openedNew t ⟨file,false⟩
  have kept := @openedKept _ _ ⟨ko,true⟩ _ _ (execKept (execKept own rfl) rfl)
  rw [fileAt,insmodTable,kept]
  rfl

theorem socketFile (t : Table (File E)) (ko file : File E) :
    fileAt (closed (opened (opened t ⟨file,false⟩) ⟨ko,false⟩) (free (opened t ⟨file,false⟩))) (free t) = some file := by
  have own := openedNew t ⟨file,false⟩
  have other : free (opened t ⟨file,false⟩) ≠ free t := by
    intro same
    have empty := freeEmpty (opened t ⟨file,false⟩)
    rw [same,own] at empty
    cases empty
  rw [fileAt,closedOther other,openedKept own]
  rfl

/- The module calls the function at the first listed address with the pmu of the program's own
event; no address is checked. -/
theorem eventHandedOver (pmu : E → Option P) (ko : File E) (event : Option E) (t : Table (File E))
    (small : free t < 2^31) (symbols : List Symbol) :
    perfEventOpenMain pmu ko event t (kallsyms symbols) =
      event.elim .exits (fun e => (containing symbols).head?.elim .exits (fun s =>
        .started ((pmu e).elim (.failed einval) (fun p => .called (some s.address,p))))) := by
  cases event with
  | none => rfl
  | some e =>
    unfold perfEventOpenMain
    rw [openTestReads]
    cases (containing symbols).head? with
    | none => rfl
    | some s =>
      obtain ⟨settings,read,address,fd⟩ := @pmuReschedSettings (free t) s.address small
      have file : fget (insmodTable (opened t ⟨⟨false,some e⟩,false⟩) ko) (settings "fd".toList) =
          some ⟨false,some e⟩ := by
        rw [fd]
        exact insmodFile t ko ⟨false,some e⟩
      simp only [Option.map_some,read,pmuReschedInit,file,address,Option.elim_some]
      cases pmu e with
      | none => rfl
      | some p => rfl

def stdio : Table (File Nat) := [some ⟨⟨false,none⟩,false⟩,some ⟨⟨false,none⟩,false⟩,some ⟨⟨false,none⟩,false⟩]

theorem perfEventOpenWord : Word "perf_event_open".toList := ⟨nofun,blankFree rfl⟩

def reschedSymbols : List Symbol :=
  [⟨0xffffffff810000a0,'t',"perf_event_open".toList,none,staticVisible,perfEventOpenWord,coreModule⟩,
    ⟨0xffffffff81200000,'t',perfPmuResched,none,staticVisible,perfPmuReschedWord,coreModule⟩]

theorem sampleHandedOver : free stdio < 2^31 ∧
    perfEventOpenMain some ⟨false,none⟩ (some 7) stdio (kallsyms reschedSymbols) =
      .started (.called (some 0xffffffff81200000,7)) :=
  ⟨by decide,(eventHandedOver some ⟨false,none⟩ (some 7) stdio (by decide) reschedSymbols).trans (by decide)⟩

theorem socketHandedOver (sk : E → Option S) (clones : S → Bool) (answers : Answers) (ko : File E) (sock : E)
    (t : Table (File E)) (small : free t < 2^31) :
    openSocketMain sk clones answers ko sock t =
      if answers.listening && answers.image then
        .started ((sk sock).elim (.failed einval) (fun k => if clones k then .called k else .failed enomem))
      else .exits := by
  obtain ⟨settings,read,fd⟩ := @skCloneSettings (free t) small
  have file : getSocketFromFd (closed (opened (opened t ⟨⟨true,some sock⟩,false⟩) ⟨ko,false⟩)
      (free (opened t ⟨⟨true,some sock⟩,false⟩))) (settings "sockfd".toList) = some sock := by
    have own := socketFile t ko ⟨true,some sock⟩
    rw [getSocketFromFd,fd]
    change ((fileAt _ (free t)).bind _) = _
    rw [own]
    rfl
  have positive : negative (settings "sockfd".toList) = false := by
    rw [fd]
    rfl
  unfold openSocketMain loadKernelModule
  cases answers.listening with
  | false => rfl
  | true =>
    cases answers.image with
    | false => rfl
    | true =>
      simp only [read,skCloneInit,positive,file]
      cases sk sock with
      | none => rfl
      | some k => rfl

end

end KernelTestTools.Handover
