import KernelTestTools.CoreSight

/-! perf_dump_aux_tid_verify: the ids that thread_loop prints, in whatever order its threads get
to it, looked up among the context ids of the trace. -/
namespace KernelTestTools.ThreadTrace
open TextFile ShellText GrepMatches CoreSight

def lowerAlnum (c : Char) : Bool := c.isDigit || (0x61 ≤ c.toNat && c.toNat ≤ 0x7a)

def cid : Text := "CID=".toList
def vmid : Text := "VMID=".toList
def hexFront : Text := "0x".toList

/- sed 's/label//g' -/
def removed (label : Text) : Nat → Text → Text
  | _,[] => []
  | held+1,_::t => removed label held t
  | 0,c::t => if label.isPrefixOf (c::t) then removed label (label.length-1) t else c::removed label 0 t

/- grep -o "label0x[0-9a-z]\+" | sed 's/label//g' -/
def idTexts (label report : Text) : List Text :=
  (grepOnly (classBehind (label ++ hexFront) lowerAlnum) report).map (removed label 0)

def uniq : List Text → List Text
  | [] => []
  | [w] => [w]
  | w::v::ws => if w = v then uniq (v::ws) else w::uniq (v::ws)

def sort (ws : List Text) : List Text := ws.mergeSort (fun a b => decide (a ≤ b))

/- With no context id at all, the kernel may report virtual-machine ids in their place. -/
def foundTids (report : Text) : List Text :=
  let tids := uniq (sort (uniq (idTexts cid report)))
  if tids = [] then uniq (sort (uniq (idTexts vmid report))) else tids

/- printf "%i" $TIDHEX, which fails on anything behind the number and on numbers out of range. -/
def printfInt : Text → Option Nat
  | '0':: 'x'::digits =>
    if digits ≠ [] ∧ digits.all hexDigit ∧ hexValue digits < 2^63 then some (hexValue digits) else none
  | _ => none

def magnitude (digits : Text) : Option Nat :=
  if digits ≠ [] ∧ digits.all Char.isDigit then some (Nat.ofDigitChars 10 digits 0) else none

/- An operand of test -eq. -/
def testNumber : Text → Option Int
  | '-'::digits => (magnitude digits).bind (fun n => if n ≤ 2^63 then some (-n) else none)
  | '+'::digits => (magnitude digits).bind (fun n => if n < 2^63 then some n else none)
  | digits => (magnitude digits).bind (fun n => if n < 2^63 then some n else none)

/- The inner loop, with $TID as it was left. -/
def search (tid2 : Text) : List Text → Text → Except Exit (Bool × Text)
  | [],tid => .ok (false,tid)
  | w::ws,_ =>
    match printfInt w with
    | none => .error ⟨1,none⟩
    | some n => if testNumber tid2 = some (n : Int) then .ok (true,decimal n) else search tid2 ws (decimal n)

def verifyLoop (found : List Text) : List Text → Text → Text → Except Exit Text
  | [],_,missing => .ok missing
  | tid2::tids,tid,missing => do
    let (hit,tid) ← search tid2 found tid
    verifyLoop found tids tid (if hit then missing else missing ++ ' '::tid)

def notFound (missing : Text) : Text := "Thread IDs ".toList ++ missing ++ " not found in perf AUX data".toList

def perfDumpAuxTidVerify (stdout report tid : Text) : Except Exit Unit := do
  let missing ← verifyLoop (foundTids report) (splitWords stdout) tid []
  if missing ≠ [] then .error (err (notFound missing)) else .ok ()

structure Thread where
  id : Nat
  small : id < 2^31
  deriving DecidableEq, Repr

/- printf("%llu\n", tid), one thread after another. -/
def printed (threads : List Thread) : Text := threads.flatMap (fun t => decimal t.id ++ ['\n'])

def Behind (label report w : Text) : Prop := ∃ t ∈ report.tails, (label ++ hexFront) <+: t ∧
  w = hexFront ++ (t.drop (label ++ hexFront).length).takeWhile lowerAlnum ∧ w ≠ hexFront

def TraceId (report w : Text) : Prop :=
  Behind cid report w ∨ (∀ v, ¬Behind cid report v) ∧ Behind vmid report w

theorem cidSeparate : Separate [cid ++ hexFront] := by decide +kernel
theorem vmidSeparate : Separate [vmid ++ hexFront] := by decide +kernel

theorem cidUpper : ∀ c ∈ cid.head?, c ∉ hexFront ∧ lowerAlnum c = false := eachOption (by decide +kernel)
theorem vmidUpper : ∀ c ∈ vmid.head?, c ∉ hexFront ∧ lowerAlnum c = false := eachOption (by decide +kernel)

theorem removedHeld (label : Text) (s t : Text) : removed label s.length (s ++ t) = removed label 0 t := by
  induction s with
  | nil => rfl
  | cons c s ih => exact ih

theorem removedFree {label t : Text} (free : ∀ c ∈ label.head?, c ∉ t) (some' : label ≠ []) :
    removed label 0 t = t := by
  induction t with
  | nil => rfl
  | cons d t ih =>
    have rest := ih (fun c first mem => free c first (List.mem_cons_of_mem d mem))
    have other : ¬ label.isPrefixOf (d::t) = true := by
      intro front
      obtain ⟨c,l,rfl⟩ := List.exists_cons_of_ne_nil some'
      obtain ⟨rfl,_⟩ := List.cons_prefix_cons.mp (List.isPrefixOf_iff_prefix.mp front)
      exact free c rfl List.mem_cons_self
    rw [removed,if_neg other,rest]

theorem removedFront {label t : Text} (free : ∀ c ∈ label.head?, c ∉ t) (some' : label ≠ []) :
    removed label 0 (label ++ t) = t := by
  obtain ⟨c,l,rfl⟩ := List.exists_cons_of_ne_nil some'
  have front : (c::l).isPrefixOf (c::(l ++ t)) = true := List.isPrefixOf_iff_prefix.mpr (List.prefix_append (c::l) t)
  rw [List.cons_append,removed,if_pos front]
  exact (removedHeld (c::l) l t).trans (removedFree free some')

theorem uniqMember {w : Text} (ws : List Text) : w ∈ uniq ws ↔ w ∈ ws := by
  fun_induction uniq ws with
  | case1 => rfl
  | case2 => rfl
  | case3 v ws ih => simp [ih]
  | case4 v u ws _ ih => simp [ih]

theorem sortMember {w : Text} (ws : List Text) : w ∈ sort ws ↔ w ∈ ws := List.mem_mergeSort

theorem sorted (ws : List Text) : (sort ws).Pairwise (· ≤ ·) := by
  have ordered := @List.pairwise_mergeSort Text (fun a b => decide (a ≤ b)) (by simpa using fun a b c => le_trans)
    (by simpa using fun a b => le_total a b) ws
  exact ordered.imp of_decide_eq_true

theorem uniqStrict {ws : List Text} (ordered : ws.Pairwise (· ≤ ·)) : (uniq ws).Pairwise (· < ·) := by
  fun_induction uniq ws with
  | case1 => exact .nil
  | case2 => simp
  | case3 v ws ih => exact ih (List.pairwise_cons.mp ordered).2
  | case4 v u ws other ih =>
    obtain ⟨least,rest⟩ := List.pairwise_cons.mp ordered
    refine List.pairwise_cons.mpr ⟨fun x mem => ?_,ih rest⟩
    have inside := (uniqMember _).mp mem
    have first : v < u := lt_of_le_of_ne (least u List.mem_cons_self) other
    rcases List.mem_cons.mp inside with rfl | later
    · exact first
    · exact lt_of_lt_of_le first ((List.pairwise_cons.mp rest).1 x later)

theorem textsBehind {label : Text} (separate : Separate [label ++ hexFront])
    (upper : ∀ c ∈ label.head?, c ∉ hexFront ∧ lowerAlnum c = false) (some' : label ≠ []) (report w : Text) :
    w ∈ idTexts label report ↔ Behind label report w := by
  have foreign : ∀ c ∈ (label ++ hexFront).head?, lowerAlnum c = false := by
    obtain ⟨c,l,rfl⟩ := List.exists_cons_of_ne_nil some'
    exact fun d first => (upper d first).2
  have line : '\n' ∉ label ++ hexFront := separate.2.1 _ List.mem_cons_self
  have cut {t : Text} : removed label 0 (label ++ (hexFront ++ t.takeWhile lowerAlnum)) = hexFront ++ t.takeWhile lowerAlnum := by
    refine removedFront (fun c first mem => ?_) some'
    rcases List.mem_append.mp mem with front | behind
    · exact (upper c first).1 front
    · have inside := List.mem_takeWhile_imp behind
      rw [(upper c first).2] at inside
      cases inside
  rw [idTexts,grepEvery (classApart separate foreign) (classInLine line rfl),everyMatch,List.mem_map]
  constructor
  · intro found
    obtain ⟨v,mem,rfl⟩ := found
    obtain ⟨t,tail,own⟩ := List.mem_filterMap.mp mem
    obtain ⟨front,rfl,more⟩ := classFound own
    refine ⟨t,tail,front,?_,?_⟩
    · rw [List.append_assoc,cut]
    · rw [List.append_assoc,cut]
      simpa using more
  · intro behind
    obtain ⟨t,tail,front,rfl,more⟩ := behind
    refine ⟨label ++ hexFront ++ (t.drop (label ++ hexFront).length).takeWhile lowerAlnum,List.mem_filterMap.mpr ⟨t,tail,?_⟩,?_⟩
    · unfold classBehind
      rw [if_pos (List.isPrefixOf_iff_prefix.mpr front)]
      dsimp only
      rw [if_pos (by simpa using more)]
    · rw [List.append_assoc,cut]

theorem foundIff (report w : Text) : w ∈ foundTids report ↔ TraceId report w := by
  have context := textsBehind cidSeparate cidUpper nofun report
  have machine := textsBehind vmidSeparate vmidUpper nofun report w
  have member (ws : List Text) (v : Text) : v ∈ uniq (sort (uniq ws)) ↔ v ∈ ws := by
    rw [uniqMember,sortMember,uniqMember]
  unfold foundTids TraceId
  dsimp only
  split
  · rename_i empty
    have nothing : ∀ v, ¬Behind cid report v := by
      intro v behind
      have mem := (member _ v).mpr ((context v).mpr behind)
      rw [empty] at mem
      cases mem
    rw [member,machine]
    exact ⟨fun behind => .inr ⟨nothing,behind⟩,fun id => (id.resolve_left (nothing w)).2⟩
  · rename_i some'
    obtain ⟨v,mem⟩ := List.exists_mem_of_ne_nil _ some'
    have one := (context v).mp ((member _ v).mp mem)
    rw [member,context]
    exact ⟨.inl,fun id => id.resolve_right (fun other => other.1 v one)⟩

theorem foundStrict (report : Text) : (foundTids report).Pairwise (· < ·) := by
  unfold foundTids
  dsimp only
  split
  · exact uniqStrict (sorted _)
  · exact uniqStrict (sorted _)

def Reached (ws : List Text) (n : Nat) : Prop := ∃ front w behind, ws = front ++ w::behind ∧
  (∀ x ∈ front, (printfInt x).isSome) ∧ printfInt w = some n

theorem searchHits {tid2 : Text} {n : Nat} (number : testNumber tid2 = some (n : Int)) (ws : List Text) (tid : Text) :
    (∃ rest, search tid2 ws tid = .ok (true,rest)) ↔ Reached ws n := by
  unfold Reached
  induction ws generalizing tid with
  | nil => simp [search]
  | cons v ws ih =>
    rw [search]
    cases read : printfInt v with
    | none =>
      dsimp only
      constructor
      · intro given
        obtain ⟨rest,stopped⟩ := given
        cases stopped
      · intro given
        obtain ⟨front,w,behind,split,readable,own⟩ := given
        cases front with
        | nil =>
          obtain ⟨rfl,_⟩ := List.cons.inj split
          rw [read] at own
          cases own
        | cons x front =>
          obtain ⟨rfl,_⟩ := List.cons.inj split
          have some' := readable v List.mem_cons_self
          rw [read] at some'
          cases some'
    | some k =>
      dsimp only
      rw [number]
      split
      · rename_i same
        have equal : n = k := Int.ofNat_inj.mp (Option.some.inj same)
        exact ⟨fun _ => ⟨[],v,ws,rfl,by simp,by rw [read,equal]⟩,fun _ => ⟨_,rfl⟩⟩
      · rename_i other
        rw [ih]
        constructor
        · intro given
          obtain ⟨front,w,behind,rfl,readable,own⟩ := given
          refine ⟨v::front,w,behind,rfl,fun x mem => ?_,own⟩
          rcases List.mem_cons.mp mem with rfl | later
          · rw [read]
            rfl
          · exact readable x later
        · intro given
          obtain ⟨front,w,behind,split,readable,own⟩ := given
          cases front with
          | nil =>
            obtain ⟨rfl,_⟩ := List.cons.inj split
            rw [read] at own
            exact absurd (by rw [Option.some.inj own]) other
          | cons x front =>
            obtain ⟨rfl,rfl⟩ := List.cons.inj split
            exact ⟨front,w,behind,rfl,fun y mem => readable y (List.mem_cons_of_mem v mem),own⟩

theorem frontLess {ws : List Text} (strict : ws.Pairwise (· < ·)) (p : Text → Prop) (q : Text → Prop) :
    (∃ front w behind, ws = front ++ w::behind ∧ (∀ x ∈ front, p x) ∧ q w) ↔
      ∃ w ∈ ws, (∀ x ∈ ws, x < w → p x) ∧ q w := by
  constructor
  · intro given
    obtain ⟨front,w,behind,rfl,each,own⟩ := given
    refine ⟨w,by simp,fun x mem less => ?_,own⟩
    rcases List.mem_append.mp mem with early | late
    · exact each x early
    · obtain ⟨later,_⟩ := List.pairwise_cons.mp (List.pairwise_append.mp strict).2.1
      rcases List.mem_cons.mp late with rfl | behind
      · exact absurd less (lt_irrefl x)
      · exact absurd less (lt_asymm (later x behind))
  · intro given
    obtain ⟨w,mem,each,own⟩ := given
    obtain ⟨front,behind,rfl⟩ := List.append_of_mem mem
    refine ⟨front,w,behind,rfl,fun x early => each x (by simp [early]) ?_,own⟩
    exact (List.pairwise_append.mp strict).2.2 x early w List.mem_cons_self

theorem loopPasses {ns : List Nat} (numbers : ∀ n ∈ ns, testNumber (decimal n) = some (n : Int)) (found : List Text)
    (tid missing : Text) : verifyLoop found (ns.map decimal) tid missing = .ok [] ↔
      missing = [] ∧ ∀ n ∈ ns, Reached found n := by
  induction ns generalizing tid missing with
  | nil => simp [verifyLoop]
  | cons n ns ih =>
    have rest := ih (fun k mem => numbers k (List.mem_cons_of_mem n mem))
    have hits := searchHits (numbers n List.mem_cons_self) found tid
    rw [List.map_cons,verifyLoop,List.forall_mem_cons,← hits]
    cases step : search (decimal n) found tid with
    | error stopped =>
      constructor
      · intro ran
        cases ran
      · intro all
        obtain ⟨_,⟨_,hit⟩,_⟩ := all
        cases hit
    | ok next =>
      obtain ⟨hit,left⟩ := next
      cases hit with
      | true => simpa [bind,Except.bind] using rest left missing
      | false => simp [bind,Except.bind,rest]

theorem numberRead {n : Nat} (small : n < 2^31) : testNumber (decimal n) = some (n : Int) := by
  have read : magnitude (decimal n) = some n := decimalRead n
  have below : n < 2^63 := Nat.lt_trans small (by decide)
  unfold testNumber
  split
  · rename_i digits own
    exact absurd (own ▸ List.mem_cons_self) (decimalPlain n (rfl : Char.isDigit '-' = false))
  · rename_i digits own
    exact absurd (own ▸ List.mem_cons_self) (decimalPlain n (rfl : Char.isDigit '+' = false))
  · rw [read,Option.bind_some,if_pos below]

theorem printedWords (threads : List Thread) : splitWords (printed threads) = (threads.map Thread.id).map decimal := by
  induction threads with
  | nil => rfl
  | cons t threads ih =>
    have word : Word (decimal t.id) := by
      refine ⟨Nat.toDigits_ne_nil,fun c mem => ?_⟩
      cases space : blank c with
      | false => rfl
      | true =>
        have which : c = ' ' ∨ c = '\t' ∨ c = '\n' := by simpa [blank,or_assoc] using space
        rcases which with rfl | rfl | rfl <;> exact absurd mem (decimalPlain t.id rfl)
    have step : printed (t::threads) = decimal t.id ++ '\n'::printed threads := by
      rw [printed,List.flatMap_cons,List.append_assoc]
      rfl
    rw [step,splitWordsCons word rfl,ih]
    rfl

/- The check passes exactly if each thread's number is the value of an id of the trace that
comes, in the order of sort, before all ids that printf cannot read. -/
theorem tidsVerifiedExactly (threads : List Thread) (report tid : Text) :
    perfDumpAuxTidVerify (printed threads) report tid = .ok () ↔ ∀ t ∈ threads, ∃ w, TraceId report w ∧
      printfInt w = some t.id ∧ ∀ x, TraceId report x → x < w → (printfInt x).isSome := by
  have numbers : ∀ n ∈ threads.map Thread.id, testNumber (decimal n) = some (n : Int) := by
    intro n mem
    obtain ⟨t,_,rfl⟩ := List.mem_map.mp mem
    exact numberRead t.small
  have passes := loopPasses numbers (foundTids report) tid []
  have member := foundIff report
  have each (t : Thread) : Reached (foundTids report) t.id ↔ ∃ w, TraceId report w ∧ printfInt w = some t.id ∧
      ∀ x, TraceId report x → x < w → (printfInt x).isSome := by
    rw [Reached,frontLess (foundStrict report) (fun x => (printfInt x).isSome) (fun w => printfInt w = some t.id)]
    simp only [member]
    exact exists_congr (fun w => and_congr_right (fun _ => And.comm))
  rw [perfDumpAuxTidVerify,printedWords]
  cases ran : verifyLoop (foundTids report) ((threads.map Thread.id).map decimal) tid [] with
  | error stopped =>
    constructor
    · intro passed
      cases passed
    · intro all
      rw [passes.mpr ⟨rfl,fun n mem => ?_⟩] at ran
      · cases ran
      · obtain ⟨t,own,rfl⟩ := List.mem_map.mp mem
        exact (each t).mpr (all t own)
  | ok missing =>
    change (if missing ≠ [] then Except.error (err (notFound missing)) else .ok ()) = .ok () ↔ _
    rw [ran,Except.ok.injEq] at passes
    constructor
    · intro passed t own
      split at passed
      · cases passed
      · rename_i empty
        obtain ⟨_,all⟩ := passes.mp (by simpa using empty)
        exact (each t).mp (all t.id (List.mem_map_of_mem own))
    · intro all
      have empty : missing = [] := passes.mpr ⟨rfl,fun n mem => by
        obtain ⟨t,own,rfl⟩ := List.mem_map.mp mem
        exact (each t).mpr (all t own)⟩
      rw [if_neg (by simp [empty])]

def lastTid (found : List Text) (tid : Text) : Text :=
  found.foldl (fun tid w => ((printfInt w).map decimal).getD tid) tid

def tracedIn (found : List Text) (n : Nat) : Bool := found.any (fun w => printfInt w = some n)

def untraced (report : Text) (threads : List Thread) : List Thread :=
  threads.filter (fun t => !tracedIn (foundTids report) t.id)

theorem searchRead {tid2 : Text} {n : Nat} (number : testNumber tid2 = some (n : Int)) {ws : List Text}
    (readable : ∀ w ∈ ws, (printfInt w).isSome) (tid : Text) : search tid2 ws tid =
      .ok (if tracedIn ws n then (true,decimal n) else (false,lastTid ws tid)) := by
  induction ws generalizing tid with
  | nil => rfl
  | cons w ws ih =>
    obtain ⟨k,read⟩ := Option.isSome_iff_exists.mp (readable w List.mem_cons_self)
    have rest := ih (fun v mem => readable v (List.mem_cons_of_mem w mem)) (decimal k)
    rw [search,read]
    dsimp only
    rw [number,tracedIn,List.any_cons,read]
    split
    · rename_i same
      have equal : n = k := Int.ofNat_inj.mp (Option.some.inj same)
      simp [equal]
    · rename_i other
      have different : ¬ k = n := fun same => other (by rw [same])
      have last : lastTid (w::ws) tid = lastTid ws (decimal k) := by
        rw [lastTid,List.foldl_cons,read]
        rfl
      rw [rest,tracedIn,last]
      simp [different]

theorem lastRead {w : Text} {ws : List Text} (readable : ∀ v ∈ w::ws, (printfInt v).isSome) :
    ∃ v ∈ w::ws, ∃ n, printfInt v = some n ∧ ∀ tid, lastTid (w::ws) tid = decimal n := by
  induction ws generalizing w with
  | nil =>
    obtain ⟨n,read⟩ := Option.isSome_iff_exists.mp (readable w List.mem_cons_self)
    exact ⟨w,List.mem_cons_self,n,read,fun tid => by simp [lastTid,read]⟩
  | cons u ws ih =>
    obtain ⟨v,mem,n,read,same⟩ := ih (fun v mem => readable v (List.mem_cons_of_mem w mem))
    exact ⟨v,List.mem_cons_of_mem w mem,n,read,fun tid => same _⟩

theorem loopRead {ns : List Nat} (numbers : ∀ n ∈ ns, testNumber (decimal n) = some (n : Int)) {found : List Text}
    (readable : ∀ w ∈ found, (printfInt w).isSome) {named : Text} (same : ∀ tid, lastTid found tid = named)
    (tid missing : Text) : verifyLoop found (ns.map decimal) tid missing =
      .ok (missing ++ (ns.filter (fun n => !tracedIn found n)).flatMap (fun _ => ' '::named)) := by
  induction ns generalizing tid missing with
  | nil => simp [verifyLoop]
  | cons n ns ih =>
    have rest := ih (fun k mem => numbers k (List.mem_cons_of_mem n mem))
    rw [List.map_cons,verifyLoop,searchRead (numbers n List.mem_cons_self) readable]
    cases traced : tracedIn found n with
    | true => simp [bind,Except.bind,rest,traced]
    | false => simp [bind,Except.bind,rest,traced,same]

/- The message of a failed check names one id, once for each thread that is not in the trace: the
last one of the trace, which is none of theirs. -/
theorem missingMisnamed (threads : List Thread) {report : Text} (tid : Text)
    (readable : ∀ w, TraceId report w → (printfInt w).isSome) (traced : ∃ w, TraceId report w) :
    (∀ t, t ∈ untraced report threads ↔ t ∈ threads ∧ ∀ w, TraceId report w → printfInt w ≠ some t.id) ∧
    ∃ n, (∃ w, TraceId report w ∧ printfInt w = some n) ∧ (∀ t ∈ untraced report threads, t.id ≠ n) ∧
      perfDumpAuxTidVerify (printed threads) report tid = if untraced report threads = [] then .ok () else
        .error (err (notFound ((untraced report threads).flatMap (fun _ => ' '::decimal n)))) := by
  have numbers : ∀ n ∈ threads.map Thread.id, testNumber (decimal n) = some (n : Int) := by
    intro n mem
    obtain ⟨t,_,rfl⟩ := List.mem_map.mp mem
    exact numberRead t.small
  have member := foundIff report
  have outside (t : Thread) : t ∈ untraced report threads ↔
      t ∈ threads ∧ ∀ w, TraceId report w → printfInt w ≠ some t.id := by
    simp [untraced,tracedIn,member]
  obtain ⟨w,own⟩ := traced
  have inside := (member w).mpr own
  have each : ∀ v ∈ foundTids report, (printfInt v).isSome := fun v mem => readable v ((member v).mp mem)
  have named : ∃ v ∈ foundTids report, ∃ n, printfInt v = some n ∧ ∀ tid, lastTid (foundTids report) tid = decimal n := by
    cases found : foundTids report with
    | nil =>
      rw [found] at inside
      cases inside
    | cons u us => exact lastRead (found ▸ each)
  obtain ⟨v,mem,n,read,same⟩ := named
  refine ⟨outside,n,⟨v,(member v).mp mem,read⟩,fun t missing equal => ?_,?_⟩
  · exact ((outside t).mp missing).2 v ((member v).mp mem) (equal ▸ read)
  · have filtered : ((threads.map Thread.id).filter (fun n => !tracedIn (foundTids report) n)).flatMap
        (fun _ => ' '::decimal n) = (untraced report threads).flatMap (fun _ => ' '::decimal n) := by
      rw [List.filter_map,List.flatMap_map]
      rfl
    rw [perfDumpAuxTidVerify,printedWords,loopRead numbers each same,List.nil_append,filtered]
    cases missing : untraced report threads with
    | nil => rfl
    | cons t ts => rfl

def sampleTrace : Text := "CID=0x1f CID=0x20\n".toList
def lostThread : Thread := ⟨40,by decide⟩

theorem sampleIds (w : Text) : TraceId sampleTrace w ↔ w = "0x1f".toList ∨ w = "0x20".toList := by
  have texts : idTexts cid sampleTrace = ["0x1f".toList,"0x20".toList] := by decide +kernel
  have behind := textsBehind cidSeparate cidUpper nofun sampleTrace
  rw [texts] at behind
  have one := (behind "0x1f".toList).mp List.mem_cons_self
  rw [TraceId,← behind]
  constructor
  · intro id
    rcases id with own | other
    · simpa using own
    · exact absurd one (other.1 _)
  · intro which
    exact .inl (by simpa using which)

theorem sampleMisnamed : ∃ n, n ≠ 40 ∧ perfDumpAuxTidVerify (printed [lostThread]) sampleTrace [] =
    .error (err (notFound (' '::decimal n))) := by
  have readable : ∀ w, TraceId sampleTrace w → (printfInt w).isSome := by
    intro w id
    rcases (sampleIds w).mp id with rfl | rfl <;> decide
  obtain ⟨outside,n,_,other,ran⟩ := missingMisnamed [lostThread] [] readable ⟨_,(sampleIds _).mpr (.inl rfl)⟩
  have missing : lostThread ∈ untraced sampleTrace [lostThread] := by
    refine (outside lostThread).mpr ⟨List.mem_cons_self,fun w id => ?_⟩
    rcases (sampleIds w).mp id with rfl | rfl <;> decide
  have only : untraced sampleTrace [lostThread] = [lostThread] := by
    simpa [untraced] using missing
  rw [only] at ran
  exact ⟨n,Ne.symm (other lostThread missing),by simpa using ran⟩

end KernelTestTools.ThreadTrace
