import KernelTestTools.StepRuns

/-! /proc/notify_die_address: a static buffer of 64 bytes that writes fill and reads format
into a scratch buffer of 20. Each call says what the copy between the kernel and the user
did; what lies on the stack behind the formatted text is part of the call. -/
namespace KernelTestTools.ProcNotify
open StepRuns

abbrev Bytes := List UInt8

def bufferSize : Nat := 64
def scratchSize : Nat := 20
def newline : UInt8 := 10

inductive Errno where
  | einval
  | efault
  deriving DecidableEq, Repr

/- The text up to the first NUL, as %s prints it. -/
def string (bytes : Bytes) : Bytes := bytes.takeWhile (· != 0)

structure Address where
  bytes : Bytes
  size : bytes.length = bufferSize
  ends : bytes[bufferSize-1]? = some 0

structure Write where
  buffer : Bytes
  fault : Option Nat
  inside : ∀ copied ∈ fault, copied < buffer.length

/- copy_from_user to the start of the buffer: the bytes that it cannot copy are zeroed. -/
def copyFromUser (old buffer : Bytes) (copied : Nat) : Bytes :=
  buffer.take copied ++ List.replicate (buffer.length - copied) 0 ++ old.drop buffer.length

theorem copyLength {old buffer : Bytes} (fits : buffer.length ≤ old.length) (copied : Nat) :
    (copyFromUser old buffer copied).length = old.length := by
  simp only [copyFromUser,List.length_append,List.length_take,List.length_replicate,List.length_drop]
  omega

theorem copyBehind {old buffer : Bytes} (copied : Nat) {i : Nat} (behind : buffer.length ≤ i) :
    (copyFromUser old buffer copied)[i]? = old[i]? := by
  have front : (buffer.take copied ++ List.replicate (buffer.length - copied) (0 : UInt8)).length =
      buffer.length := by
    simp only [List.length_append,List.length_take,List.length_replicate]
    omega
  rw [copyFromUser,List.getElem?_append_right (by omega),front,List.getElem?_drop]
  congr 1
  omega

def Address.filled (a : Address) (buffer : Bytes) (copied : Nat) (fits : buffer.length ≤ bufferSize-1) :
    Address where
  bytes := copyFromUser a.bytes buffer copied
  size := by
    rw [copyLength (by rw [a.size]; omega),a.size]
  ends := (copyBehind copied fits).trans a.ends

/- notify_die_address[count] = '\0'. -/
def Address.terminated (a : Address) (count : Nat) (fits : count ≤ bufferSize-1) : Address where
  bytes := a.bytes.set count 0
  size := by rw [List.length_set,a.size]
  ends := by
    have inside : count < a.bytes.length := by
      rw [a.size]
      unfold bufferSize at fits ⊢
      omega
    rw [List.getElem?_set]
    split
    · simp
    · exact a.ends

def procWrite (a : Address) (w : Write) : Address × Except Errno Nat :=
  if large : w.buffer.length > bufferSize-1 then (a,.error .einval)
  else match w.fault with
    | some copied => (a.filled w.buffer copied (Nat.le_of_not_gt large),.error .efault)
    | none => ((a.filled w.buffer w.buffer.length (Nat.le_of_not_gt large)).terminated w.buffer.length
        (Nat.le_of_not_gt large),.ok w.buffer.length)

structure ReadCall where
  count : Nat
  faults : Bool
  stack : Nat → UInt8

structure ReadResult where
  returned : Nat
  copied : Bytes
  pos : Nat
  deriving DecidableEq, Repr

def formatted (a : Address) : Bytes := string a.bytes ++ [newline]

def addrStr (a : Address) : Bytes := (formatted a).take (scratchSize-1) ++ [0]

def procRead (a : Address) (call : ReadCall) (pos : Nat) : Except Errno ReadResult :=
  let len := (formatted a).length
  if pos ≥ len then .ok ⟨0,[],pos⟩
  else if call.faults then .error .efault
  else .ok ⟨len,(addrStr a ++ (List.range len).map call.stack).take len,pos+len⟩

structure Proc where
  address : Address
  lastWritten : Bytes
  plain : 0 ∉ lastWritten

def initial : Proc where
  address := ⟨List.replicate bufferSize 0,List.length_replicate,by decide⟩
  lastWritten := []
  plain := by simp

inductive Op where
  | write (w : Write)
  | read (call : ReadCall) (pos : Nat)

theorem stringPlain (bytes : Bytes) : 0 ∉ string bytes := by
  intro mem
  have kept := List.all_eq_true.mp (List.all_takeWhile (p := (· != 0)) (l := bytes)) 0 mem
  simp at kept

def step (s : Proc) : Op → Proc
  | .write w => match procWrite s.address w with
    | (a,.ok _) => ⟨a,string w.buffer,stringPlain _⟩
    | (a,.error _) => ⟨a,s.lastWritten,s.plain⟩
  | .read _ _ => s

/- Reading on from a position until a read returns 0; a failed read is tried again. -/
def readUntil (a : Address) : Nat → List ReadCall → Option Bytes
  | _,[] => none
  | pos,call::calls => match procRead a call pos with
    | .error _ => readUntil a pos calls
    | .ok r => if r.returned = 0 then some [] else (readUntil a r.pos calls).map (r.copied ++ ·)

structure ReadsBack (s : Proc) : Prop where
  yields : ∀ calls out, readUntil s.address 0 calls = some out → out = s.lastWritten ++ [newline]
  finishes : ∀ first second : ReadCall, first.faults = false → second.faults = false →
    (readUntil s.address 0 [first,second]).isSome

def Right (s : Proc) : Op → Prop
  | .read call pos => ∀ r, procRead s.address call pos = .ok r →
    r.returned ≤ call.count ∧ r.copied <:+: formatted s.address
  | .write w => ∀ e, (procWrite s.address w).2 = .error e →
    ∀ call pos, procRead (procWrite s.address w).1 call pos = procRead s.address call pos

/- A written string leaves room for the line break and the NUL in the scratch buffer, a
copy that faults has brought the same string, and a read that gets text has room for it. -/
def Meets (s : Proc) : Op → Prop
  | .write w => w.buffer.length ≤ bufferSize-1 → match w.fault with
    | some copied => string (w.buffer.take copied) = string s.address.bytes
    | none => (string w.buffer).length ≤ scratchSize-2
  | .read call pos => pos < (formatted s.address).length → call.faults = false →
    (formatted s.address).length ≤ call.count

def Intact (s : Proc) : Prop :=
  string s.address.bytes = s.lastWritten ∧ s.lastWritten.length ≤ scratchSize-2

theorem stringOnly (rest : Bytes) {bytes : Bytes} : string (bytes ++ 0::rest) = string bytes := by
  induction bytes with
  | nil => rfl
  | cons b bytes ih =>
    simp only [string,List.cons_append,List.takeWhile_cons] at ih ⊢
    rw [ih]

theorem writeTooLong {a : Address} {w : Write} (long : bufferSize-1 < w.buffer.length) :
    procWrite a w = (a,.error .einval) := by
  rw [procWrite,dif_pos long]

theorem writeFaults {a : Address} {w : Write} (fits : w.buffer.length ≤ bufferSize-1) {copied : Nat}
    (fault : w.fault = some copied) : ∃ a', procWrite a w = (a',.error .efault) ∧
      string a'.bytes = string (w.buffer.take copied) := by
  have inside := w.inside copied fault
  have rest : w.buffer.length - copied = (w.buffer.length - copied - 1) + 1 := by omega
  refine ⟨a.filled w.buffer copied fits,?_,?_⟩
  · rw [procWrite,dif_neg (Nat.not_lt.mpr fits)]
    simp [fault]
  · simp only [Address.filled,copyFromUser]
    rw [rest,List.replicate_succ,List.append_assoc,List.cons_append]
    exact stringOnly _

theorem writeStores {a : Address} {w : Write} (fits : w.buffer.length ≤ bufferSize-1)
    (fault : w.fault = none) : ∃ a', procWrite a w = (a',.ok w.buffer.length) ∧
      string a'.bytes = string w.buffer := by
  have some : w.buffer.length < a.bytes.length := by
    rw [a.size]
    unfold bufferSize at fits ⊢
    omega
  refine ⟨(a.filled w.buffer w.buffer.length fits).terminated w.buffer.length fits,?_,?_⟩
  · rw [procWrite,dif_neg (Nat.not_lt.mpr fits)]
    simp [fault]
  · simp only [Address.terminated,Address.filled,copyFromUser]
    rw [List.take_length,Nat.sub_self,List.replicate_zero,List.append_nil,
      List.set_append_right _ _ (Nat.le_refl _),Nat.sub_self,List.drop_eq_getElem_cons some,
      List.set_cons_zero]
    exact stringOnly _

theorem readString {a b : Address} (same : string a.bytes = string b.bytes) (call : ReadCall) (pos : Nat) :
    procRead a call pos = procRead b call pos := by
  have text : formatted a = formatted b := by rw [formatted,formatted,same]
  simp only [procRead,addrStr,text]

theorem formattedLength (a : Address) : (formatted a).length = (string a.bytes).length + 1 := by
  simp [formatted]

theorem readEnd {a : Address} {pos : Nat} (behind : (formatted a).length ≤ pos) (call : ReadCall) :
    procRead a call pos = .ok ⟨0,[],pos⟩ := by
  simp [procRead,behind]

theorem readFaults {a : Address} {pos : Nat} (before : pos < (formatted a).length) {call : ReadCall}
    (faults : call.faults = true) : procRead a call pos = .error .efault := by
  have more : ¬ (formatted a).length ≤ pos := by omega
  simp [procRead,more,faults]

theorem readCopies {a : Address} {pos : Nat} (before : pos < (formatted a).length) {call : ReadCall}
    (copies : call.faults = false) : procRead a call pos = .ok ⟨(formatted a).length,
      (addrStr a ++ (List.range (formatted a).length).map call.stack).take (formatted a).length,
      pos + (formatted a).length⟩ := by
  have more : ¬ (formatted a).length ≤ pos := by omega
  simp [procRead,more,copies]

theorem shortCopied {a : Address} (short : (string a.bytes).length ≤ scratchSize-2) (stack : Bytes) :
    (addrStr a ++ stack).take (formatted a).length = formatted a := by
  have length := formattedLength a
  have fits : (formatted a).length ≤ scratchSize-1 := by
    unfold scratchSize at short ⊢
    omega
  rw [addrStr,List.take_of_length_le fits,List.append_assoc,List.take_left]

theorem longCopied {a : Address} (long : scratchSize-2 < (string a.bytes).length) (stack : Bytes) :
    0 ∈ (addrStr a ++ stack).take (formatted a).length := by
  have length := formattedLength a
  have scratch : ((formatted a).take (scratchSize-1)).length = scratchSize-1 := by
    rw [List.length_take]
    unfold scratchSize at long ⊢
    omega
  refine List.mem_of_getElem? (i := scratchSize-1) ?_
  rw [List.getElem?_take_of_lt (by unfold scratchSize at long ⊢; omega),addrStr,List.append_assoc,
    List.getElem?_append_right (by omega),scratch,Nat.sub_self]
  rfl

theorem untilShort {a : Address} (short : (string a.bytes).length ≤ scratchSize-2)
    {calls : List ReadCall} {out : Bytes} (done : readUntil a 0 calls = some out) : out = formatted a := by
  have some' : 0 < (formatted a).length := by simp [formatted]
  induction calls with
  | nil => simp [readUntil] at done
  | cons call calls ih =>
    cases faults : call.faults with
    | true =>
      rw [readUntil,readFaults some' faults] at done
      exact ih done
    | false =>
      rw [readUntil,readCopies some' faults] at done
      simp only [shortCopied short,Nat.ne_of_gt some',if_false,Nat.zero_add] at done
      cases calls with
      | nil => simp [readUntil] at done
      | cons next calls =>
        rw [readUntil,readEnd (Nat.le_refl _)] at done
        simpa using done.symm

theorem untilTwo {a : Address} {first second : ReadCall} (copies : first.faults = false) :
    readUntil a 0 [first,second] = some ((addrStr a ++
      (List.range (formatted a).length).map first.stack).take (formatted a).length) := by
  have some' : 0 < (formatted a).length := by simp [formatted]
  rw [readUntil,readCopies some' copies]
  simp only [Nat.ne_of_gt some',if_false]
  rw [readUntil,readEnd (by omega)]
  simp

theorem readsBackIff {s : Proc} : ReadsBack s ↔ Intact s := by
  constructor
  · intro back
    have shown := back.yields _ _ (@untilTwo s.address ⟨0,false,fun _ => 0⟩ ⟨0,false,fun _ => 0⟩ rfl)
    have short : (string s.address.bytes).length ≤ scratchSize-2 := by
      by_contra long
      have nul := longCopied (Nat.lt_of_not_le long)
        ((List.range (formatted s.address).length).map (fun _ => (0 : UInt8)))
      rw [shown,List.mem_append] at nul
      rcases nul with inside | last
      · exact s.plain inside
      · simp [newline] at last
    rw [shortCopied short] at shown
    have same : string s.address.bytes = s.lastWritten := List.append_cancel_right shown
    exact ⟨same,same ▸ short⟩
  · intro intact
    obtain ⟨same,short⟩ := intact
    refine ⟨fun calls out done => ?_,fun first second copies _ => ?_⟩
    · rw [untilShort (same ▸ short) done,formatted,same]
    · rw [untilTwo copies]
      rfl

theorem readRight {s : Proc} (intact : Intact s) (call : ReadCall) (pos : Nat) :
    Right s (.read call pos) ↔ Meets s (.read call pos) := by
  obtain ⟨same,short⟩ := intact
  simp only [Right,Meets]
  rcases Nat.lt_or_ge pos (formatted s.address).length with before | behind
  · cases faults : call.faults with
    | true =>
      rw [readFaults before faults]
      simp
    | false =>
      rw [readCopies before faults,shortCopied (same ▸ short)]
      constructor
      · intro right _ _
        exact (right _ rfl).1
      · intro meets r read
        cases read
        exact ⟨meets before rfl,List.infix_rfl⟩
  · rw [readEnd behind]
    refine iff_of_true (fun r read => ?_) (fun before => absurd before (by omega))
    cases read
    exact ⟨Nat.zero_le _,List.nil_infix⟩

theorem writeRight {s : Proc} (intact : Intact s) (w : Write) :
    Right s (.write w) ∧ Intact (step s (.write w)) ↔ Meets s (.write w) := by
  obtain ⟨same,short⟩ := intact
  simp only [Right,Meets]
  rcases Nat.lt_or_ge (bufferSize-1) w.buffer.length with long | fits
  · have unchanged : step s (.write w) = s := by
      simp only [step,writeTooLong long]
    rw [writeTooLong long,unchanged]
    exact iff_of_true ⟨fun _ _ _ _ => rfl,same,short⟩ (fun fits => absurd fits (by omega))
  · cases fault : w.fault with
    | some copied =>
      obtain ⟨a,written,text⟩ := writeFaults (a := s.address) fits fault
      have next : Intact (step s (.write w)) ↔
          string (w.buffer.take copied) = s.lastWritten ∧ s.lastWritten.length ≤ scratchSize-2 := by
        simp only [Intact,step,written,text]
      rw [next,written]
      constructor
      · intro both _
        exact both.2.1.trans same.symm
      · intro meets
        have kept := meets fits
        refine ⟨fun _ _ call pos => readString (text.trans kept) call pos,kept.trans same,short⟩
    | none =>
      obtain ⟨a,written,text⟩ := writeStores (a := s.address) fits fault
      have next : Intact (step s (.write w)) ↔ (string w.buffer).length ≤ scratchSize-2 := by
        simp only [Intact,step,written,text,true_and]
      rw [next,written]
      constructor
      · intro both _
        exact both.2
      · intro meets
        exact ⟨fun _ failed => absurd failed (by simp),meets fits⟩

theorem stepExactly (s : Proc) (op : Op) (back : ReadsBack s) :
    Right s op ∧ ReadsBack (step s op) ↔ Meets s op := by
  have intact := readsBackIff.mp back
  rw [readsBackIff]
  cases op with
  | write w => exact writeRight intact w
  | read call pos =>
    rw [readRight intact call pos]
    exact and_iff_left intact

theorem initialReadsBack : ReadsBack initial := readsBackIff.mpr ⟨by decide,by decide⟩

theorem protocolExactly (ops : List Op) :
    EachStep step Right initial ops ∧ EachState step ReadsBack initial ops ↔
      EachStep step Meets initial ops :=
  rightExactly stepExactly initialReadsBack ops

/- Nineteen characters: the line break no longer fits, and the NUL is read instead. -/
theorem longAddressLost : ¬ (
    EachStep step Right initial [.write ⟨List.replicate 19 48,none,fun _ mem => absurd mem (Option.not_mem_none _)⟩] ∧
    EachState step ReadsBack initial [.write ⟨List.replicate 19 48,none,fun _ mem => absurd mem (Option.not_mem_none _)⟩]) := by
  intro both
  have back := both.2 [_] [] rfl
  have shown := back.yields [⟨64,false,fun _ => 0⟩,⟨64,false,fun _ => 0⟩]
    (List.replicate 19 48 ++ [0]) rfl
  exact absurd shown (by decide)

end KernelTestTools.ProcNotify
