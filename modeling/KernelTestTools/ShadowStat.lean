import KernelTestTools.ShellMap
import KernelTestTools.GrepMatches
import Mathlib.Data.List.GetD
import Mathlib.Data.List.Induction

/-! stat+shadow_stat.sh: the instructions per cycle that perf stat prints, checked line by line
against the cycles that the same loop has kept. What perf prints comes from outside, and so does
the quotient that bc and printf make of two texts, if they make one. -/
namespace KernelTestTools.ShadowStat
open TextFile ShellText ShellMap
open GrepMatches (lineList)

structure Reading where
  cpu : Text
  num : Text
  evt : Text
  ipc : Text
  deriving DecidableEq, Repr

def field (line : Text) (k : Nat) : Text := (splitWords line).getD k []

/- while read num evt hash ipc rest, on a line without a backslash -/
def readAll (line : Text) : Reading := ⟨[],field line 0,field line 1,field line 3⟩

def readCpu (line : Text) : Reading := ⟨field line 0,field line 1,field line 2,field line 4⟩

def notCounted : Text := "<not".toList
def cycles : Text := "cycles".toList
def instructions : Text := "instructions".toList
def cpuFront : Text := "CPU".toList
def cpuCore : Text := "cpu_core".toList

structure Aggregation where
  save : Text → Reading → Text
  take : Text → Reading → Text
  differs : Reading → Text → Text → Text

def quotientText (r : Reading) (cyc res : Text) : Text :=
  ": ".toList ++ res ++ " != ".toList ++ r.ipc ++ "  (".toList ++ r.num ++ " / ".toList ++ cyc ++ [')']

def globalAggr : Aggregation where
  save _ r := r.num
  take cyc _ := cyc
  differs r cyc res := "IPC is different".toList ++ quotientText r cyc res

/- results="$results $cpu:$num", cyc=${results##* $cpu:} and cyc=${cyc%% *} -/
def noAggr : Aggregation where
  save results r := results ++ entryText ⟨r.cpu,r.num⟩
  take results r := lookup r.cpu results
  differs r cyc res := "IPC is different for ".toList ++ r.cpu ++ quotientText r cyc res

abbrev Quotient := Text → Text → Option Text

def step (g : Aggregation) (ratio : Quotient) (kept : Text) (r : Reading) : Except (Option Text) Text :=
  if r.num = notCounted then .ok kept
  else if r.evt = cycles then .ok (g.save kept r)
  else
    let cyc := g.take kept r
    if cyc = [] then .ok kept
    else match ratio r.num cyc with
      -- printf fails, and with sh -e the loop
      | none => .error none
      | some res => if r.ipc ≠ res then .error (some (g.differs r cyc res)) else .ok kept

def loop (g : Aggregation) (ratio : Quotient) (rs : List Reading) : Except (Option Text) Text := rs.foldlM (step g ratio) []

def globalReadings (output : Text) : List Reading :=
  ((lineList output).filter (fun l => cycles <:+: l ∨ instructions <:+: l)).map readAll

def cpuReadings (output : Text) : List Reading := ((lineList output).filter (fun l => cpuFront <+: l)).map readCpu

def testGlobalAggr (ratio : Quotient) (output : Text) : Except (Option Text) Text :=
  loop globalAggr ratio (globalReadings output)

def testNoAggr (ratio : Quotient) (output : Text) : Except (Option Text) Text := loop noAggr ratio (cpuReadings output)

/- What the four runs of perf stat give the script. There is no backslash, which read would take
out, and the name of a CPU is no more than itself in ${results##* $cpu:}. -/
structure Host where
  systemWide : Bool
  hybrid : Text
  together : Text
  apart : Text
  unescaped : '\\' ∉ together ∧ '\\' ∉ apart
  names : ∀ r ∈ cpuReadings apart, ∀ c ∈ r.cpu, c ∉ [':','*','?','[']

def shadowStat (ratio : Quotient) (h : Host) : Nat × Option Text :=
  if !h.systemWide then (2,none)
  else if (lineList h.hybrid).any (fun l => cpuCore <:+: l) then (2,none)
  else match testGlobalAggr ratio h.together with
    | .error message => (1,message)
    | .ok _ =>
      match testNoAggr ratio h.apart with
      | .error message => (1,message)
      | .ok _ => (0,none)

def Reading.saved (r : Reading) : Bool := r.num ≠ notCounted && r.evt == cycles
def Reading.compared (r : Reading) : Bool := r.num ≠ notCounted && r.evt ≠ cycles

def latestCycles (same : Reading → Reading → Bool) (front : List Reading) (r : Reading) : Option Text :=
  (front.reverse.find? (fun q => q.saved && same q r)).map Reading.num

def anyLine (_ _ : Reading) : Bool := true
def sameCpu (q r : Reading) : Bool := q.cpu = r.cpu

def Right (same : Reading → Reading → Bool) (ratio : Quotient) (front : List Reading) (r : Reading) : Prop :=
  r.compared = true → ∀ cyc, latestCycles same front r = some cyc → ratio r.num cyc = some r.ipc

def AllRight (same : Reading → Reading → Bool) (ratio : Quotient) (rs : List Reading) : Prop :=
  ∀ front r behind, rs = front ++ r::behind → Right same ratio front r

def FirstWrong (g : Aggregation) (same : Reading → Reading → Bool) (ratio : Quotient) (rs : List Reading)
    (message : Option Text) : Prop :=
  ∃ front r behind cyc, rs = front ++ r::behind ∧ AllRight same ratio front ∧ r.compared = true ∧
    latestCycles same front r = some cyc ∧ ratio r.num cyc ≠ some r.ipc ∧
    message = (ratio r.num cyc).map (g.differs r cyc)

def keptAfter (g : Aggregation) (front : List Reading) : Text := (front.filter Reading.saved).foldl g.save []

def Finds (g : Aggregation) (same : Reading → Reading → Bool) (rs : List Reading) : Prop :=
  ∀ front r behind, rs = front ++ r::behind → g.take (keptAfter g front) r = (latestCycles same front r).getD [] ∧
    ∀ cyc, latestCycles same front r = some cyc → cyc ≠ []

section
variable {g : Aggregation} {same : Reading → Reading → Bool} {ratio : Quotient} {front rs : List Reading} {r : Reading}

theorem keptSnoc (front : List Reading) (r : Reading) : keptAfter g (front ++ [r]) =
    if r.saved then g.save (keptAfter g front) r else keptAfter g front := by
  rw [keptAfter,List.filter_append,List.foldl_append]
  cases here : r.saved with
  | true => simp [here,keptAfter]
  | false => simp [here,keptAfter]

theorem stepForms (found : g.take (keptAfter g front) r = (latestCycles same front r).getD [])
    (some' : ∀ cyc, latestCycles same front r = some cyc → cyc ≠ []) :
    Right same ratio front r ∧ step g ratio (keptAfter g front) r = .ok (keptAfter g (front ++ [r])) ∨
    ∃ cyc, r.compared = true ∧ latestCycles same front r = some cyc ∧ ratio r.num cyc ≠ some r.ipc ∧
      step g ratio (keptAfter g front) r = .error ((ratio r.num cyc).map (g.differs r cyc)) := by
  rw [keptSnoc]
  unfold step
  split
  · rename_i skipped
    refine .inl ⟨fun compared => ?_,by simp [Reading.saved,skipped]⟩
    simp [Reading.compared,skipped] at compared
  · rename_i counted
    split
    · rename_i own
      refine .inl ⟨fun compared => ?_,by simp [Reading.saved,counted,own]⟩
      simp [Reading.compared,own] at compared
    · rename_i other
      have compared : r.compared = true := by simp [Reading.compared,counted,other]
      have unsaved : r.saved = false := by simp [Reading.saved,other]
      dsimp only
      rw [found,unsaved]
      cases last : latestCycles same front r with
      | none =>
        refine .inl ⟨fun _ cyc own => ?_,rfl⟩
        rw [last] at own
        cases own
      | some cyc =>
        rw [Option.getD_some,if_neg (some' cyc last)]
        cases quotient : ratio r.num cyc with
        | none => exact .inr ⟨cyc,compared,rfl,by simp [quotient],by simp [quotient]⟩
        | some res =>
          dsimp only
          split
          · rename_i differs
            exact .inr ⟨cyc,compared,rfl,by simpa [quotient] using Ne.symm differs,by simp [quotient]⟩
          · rename_i equal
            refine .inl ⟨fun _ c own => ?_,rfl⟩
            rw [last] at own
            obtain rfl := Option.some.inj own
            rw [quotient,not_not.mp equal]

theorem allRightCons (later : AllRight same ratio front) (here : Right same ratio front r) :
    AllRight same ratio (front ++ [r]) := by
  intro f q b split
  rcases List.eq_nil_or_concat b with rfl | ⟨c,last,rfl⟩
  · obtain ⟨rfl,own⟩ := List.append_inj' split rfl
    obtain ⟨rfl,_⟩ := List.cons.inj own
    exact here
  · rw [List.concat_eq_append,← List.cons_append,← List.append_assoc] at split
    exact later f q c (List.append_inj' split rfl).1

theorem loopForms (finds : Finds g same (front ++ rs)) (before : AllRight same ratio front) :
    AllRight same ratio (front ++ rs) ∧ rs.foldlM (step g ratio) (keptAfter g front) = .ok (keptAfter g (front ++ rs)) ∨
    ∃ message, FirstWrong g same ratio (front ++ rs) message ∧
      rs.foldlM (step g ratio) (keptAfter g front) = .error message := by
  induction rs generalizing front with
  | nil => exact .inl ⟨by rwa [List.append_nil],by rw [List.append_nil]; rfl⟩
  | cons r rs ih =>
    obtain ⟨found,some'⟩ := finds front r rs rfl
    rw [List.foldlM_cons]
    rcases stepForms found some' with ⟨here,run⟩ | ⟨cyc,compared,last,wrong,run⟩
    · have shape : front ++ r::rs = front ++ [r] ++ rs := by simp
      rw [shape] at finds ⊢
      rw [run]
      exact ih finds (allRightCons before here)
    · rw [run]
      exact .inr ⟨_,⟨front,r,rs,cyc,rfl,before,compared,last,wrong,rfl⟩,rfl⟩

theorem firstNotRight {message : Option Text} (first : FirstWrong g same ratio rs message) : ¬AllRight same ratio rs := by
  obtain ⟨front,r,behind,cyc,split,_,compared,last,wrong,_⟩ := first
  exact fun all => wrong (all front r behind split compared cyc last)

theorem loopExactly (finds : Finds g same rs) :
    AllRight same ratio rs ∧ (∃ kept, loop g ratio rs = .ok kept) ∨
    ∃ message, FirstWrong g same ratio rs message ∧ loop g ratio rs = .error message := by
  have start : AllRight same ratio [] := by
    intro f q b split
    cases f <;> cases split
  rcases @loopForms g same ratio [] rs finds start with ⟨all,run⟩ | wrong
  · exact .inl ⟨all,_,run⟩
  · exact .inr wrong

end

theorem piecePlain {s w : Text} (mem : w ∈ s.splitOnP blank) : ∀ c ∈ w, blank c = false := by
  induction s generalizing w with
  | nil =>
    obtain rfl : w = [] := by simpa using mem
    exact fun c inside => absurd inside List.not_mem_nil
  | cons d s ih =>
    rw [List.splitOnP_cons_eq_if_modifyHead] at mem
    split at mem
    · rcases List.mem_cons.mp mem with rfl | later
      · exact fun c inside => absurd inside List.not_mem_nil
      · exact ih later
    · rename_i other
      cases pieces : s.splitOnP blank with
      | nil => exact absurd pieces (List.splitOnP_ne_nil blank s)
      | cons v vs =>
        rw [pieces] at mem ih
        rcases List.mem_cons.mp mem with rfl | later
        · intro c inside
          rcases List.mem_cons.mp inside with rfl | rest
          · simpa using other
          · exact ih List.mem_cons_self c rest
        · exact ih (List.mem_cons_of_mem v later)

theorem wordPlain {s w : Text} (mem : w ∈ splitWords s) : Word w := by
  obtain ⟨piece,some'⟩ := List.mem_filter.mp mem
  exact ⟨by simpa using some',piecePlain piece⟩

theorem fieldForms (line : Text) (k : Nat) : field line k = [] ∧ (splitWords line).length ≤ k ∨ Word (field line k) := by
  rcases Nat.lt_or_ge k (splitWords line).length with less | more
  · have inside : field line k ∈ splitWords line := by
      rw [field,List.getD_eq_getElem _ _ less]
      exact List.getElem_mem less
    exact .inr (wordPlain inside)
  · exact .inl ⟨List.getD_eq_default _ _ more,more⟩

theorem fieldPlain (line : Text) (k : Nat) : ' ' ∉ field line k := by
  rcases fieldForms line k with ⟨empty,_⟩ | word
  · rw [empty]
    exact List.not_mem_nil
  · exact blankAbsent rfl word.2

theorem fieldBefore {line : Text} {k : Nat} (later : field line (k+1) = cycles) : field line k ≠ [] := by
  intro empty
  rcases fieldForms line k with ⟨_,short⟩ | word
  · rw [field,List.getD_eq_default _ _ (Nat.le_succ_of_le short)] at later
    cases later
  · exact word.1 empty

theorem savedCycles {r : Reading} (saved : r.saved = true) : r.evt = cycles := by
  have both : r.num ≠ notCounted ∧ r.evt = cycles := by simpa [Reading.saved] using saved
  exact both.2

section
variable {same : Reading → Reading → Bool} {front rs : List Reading}

theorem latestSnoc (front : List Reading) (q r : Reading) : latestCycles same (front ++ [q]) r =
    if q.saved && same q r then some q.num else latestCycles same front r := by
  rw [latestCycles,latestCycles,List.reverse_append,List.reverse_singleton,List.singleton_append,List.find?_cons]
  cases q.saved && same q r <;> rfl

theorem latestFilled (filled : ∀ q ∈ rs, q.saved = true → q.num ≠ []) {front behind : List Reading} {r : Reading}
    (split : rs = front ++ r::behind) (cyc : Text) (last : latestCycles same front r = some cyc) : cyc ≠ [] := by
  obtain ⟨q,found,rfl⟩ := Option.map_eq_some_iff.mp last
  have own := List.find?_some found
  have inside := List.mem_reverse.mp (List.mem_of_find?_eq_some found)
  exact filled q (by simp [split,inside]) (Bool.and_eq_true_iff.mp own).1

end

theorem keptGlobal (front : List Reading) (r : Reading) :
    keptAfter globalAggr front = (latestCycles anyLine front r).getD [] := by
  induction front using List.reverseRecOn with
  | nil => rfl
  | append_singleton front q ih =>
    rw [keptSnoc,latestSnoc,ih,anyLine,Bool.and_true]
    split <;> rfl

def cpuEntries (front : List Reading) : List Entry := (front.filter Reading.saved).map (fun q => ⟨q.cpu,q.num⟩)

theorem keptCpu (front : List Reading) : keptAfter noAggr front = mapText (cpuEntries front) := by
  induction front using List.reverseRecOn with
  | nil => rfl
  | append_singleton front q ih =>
    have entries : cpuEntries (front ++ [q]) = cpuEntries front ++ (if q.saved then [⟨q.cpu,q.num⟩] else []) := by
      rw [cpuEntries,List.filter_append,List.map_append]
      cases here : q.saved <;> simp [here,cpuEntries]
    rw [keptSnoc,ih,entries,mapText,mapText,List.flatMap_append]
    cases q.saved <;> simp [noAggr]

theorem latestCpu (front : List Reading) (r : Reading) :
    latest r.cpu (cpuEntries front) = latestCycles sameCpu front r := by
  rw [latest,latestCycles,cpuEntries,← List.map_reverse,← List.filter_reverse,List.find?_map,List.find?_filter]
  simp [Function.comp_def,sameCpu]

theorem globalFinds (output : Text) : Finds globalAggr anyLine (globalReadings output) := by
  intro front r behind split
  refine ⟨keptGlobal front r,fun cyc last => latestFilled (fun q mem saved => ?_) split cyc last⟩
  obtain ⟨line,_,rfl⟩ := List.mem_map.mp mem
  exact fieldBefore (savedCycles saved)

theorem cpuFinds {output : Text} (names : ∀ r ∈ cpuReadings output, ∀ c ∈ r.cpu, c ∉ [':','*','?','[']) :
    Finds noAggr sameCpu (cpuReadings output) := by
  have plain : ∀ r ∈ cpuReadings output, ':' ∉ r.cpu := fun r mem inside => names r mem _ inside List.mem_cons_self
  have words : ∀ r ∈ cpuReadings output, ' ' ∉ r.cpu ∧ ' ' ∉ r.num := by
    intro r mem
    obtain ⟨line,_,rfl⟩ := List.mem_map.mp mem
    exact ⟨fieldPlain line 0,fieldPlain line 1⟩
  intro front r behind split
  have inside : r ∈ cpuReadings output := by simp [split]
  refine ⟨?_,fun cyc last => latestFilled (fun q mem saved => ?_) split cyc last⟩
  · have entries : ∀ e ∈ cpuEntries front, e.Plain := by
      intro e mem
      obtain ⟨q,saved,rfl⟩ := List.mem_map.mp mem
      have own : q ∈ cpuReadings output := by simp [split,(List.mem_filter.mp saved).1]
      exact ⟨⟨(words q own).1,plain q own⟩,(words q own).2⟩
    rw [keptCpu,← latestCpu]
    exact lookupLatest ⟨(words r inside).1,plain r inside⟩ entries
  · obtain ⟨line,_,rfl⟩ := List.mem_map.mp mem
    exact fieldBefore (savedCycles saved)

/- The script passes exactly if every quotient that can be checked is right; otherwise it names
the first that is not. -/
theorem shadowStatExactly (ratio : Quotient) (h : Host) :
    ((shadowStat ratio h).1 = 0 ↔ h.systemWide = true ∧ (∀ l ∈ lineList h.hybrid, ¬cpuCore <:+: l) ∧
      AllRight anyLine ratio (globalReadings h.together) ∧ AllRight sameCpu ratio (cpuReadings h.apart)) ∧
    ∀ message, shadowStat ratio h = (1,message) →
      FirstWrong globalAggr anyLine ratio (globalReadings h.together) message ∨
      AllRight anyLine ratio (globalReadings h.together) ∧
        FirstWrong noAggr sameCpu ratio (cpuReadings h.apart) message := by
  have together := @loopExactly globalAggr anyLine ratio _ (globalFinds h.together)
  have apart := @loopExactly noAggr sameCpu ratio _ (cpuFinds h.names)
  have hybrid : (lineList h.hybrid).any (fun l => cpuCore <:+: l) = false ↔
      ∀ l ∈ lineList h.hybrid, ¬cpuCore <:+: l := by
    rw [List.any_eq_false]
    simp only [decide_eq_true_eq]
  unfold shadowStat testGlobalAggr testNoAggr
  rw [← hybrid]
  cases h.systemWide with
  | false => exact ⟨by simp,fun message ended => by simp at ended⟩
  | true =>
    cases (lineList h.hybrid).any (fun l => cpuCore <:+: l) with
    | true => exact ⟨by simp,fun message ended => by simp at ended⟩
    | false =>
      rcases together with ⟨allTogether,_,run⟩ | ⟨m,first,run⟩
      · rcases apart with ⟨allApart,_,run'⟩ | ⟨m,first,run'⟩
        · rw [run,run']
          exact ⟨by simp [allTogether,allApart],fun message ended => by simp at ended⟩
        · rw [run,run']
          refine ⟨by simp [firstNotRight first],fun message ended => .inr ⟨allTogether,?_⟩⟩
          obtain rfl : m = message := by simpa using ended
          exact first
      · rw [run]
        refine ⟨by simp [firstNotRight first],fun message ended => .inl ?_⟩
        obtain rfl : m = message := by simpa using ended
        exact first

def number (s : Text) : Nat := Nat.ofDigitChars 10 s 0

/- Six places cut off, then rounded to two. -/
def sampleQuotient : Quotient := fun num cyc =>
  let hundredths := (number num * 1000000 / number cyc + 5000) / 10000
  some (Nat.toDigits 10 (hundredths/100) ++ '.'::(Nat.toDigits 10 (hundredths%100)).leftpad 2 '0')

def sampleTogether : Text := "  100      cycles\n  250      instructions  #    2.50  insn per cycle\n".toList

def sampleApart : Text :=
  "CPU0  100  cycles\nCPU1  80  cycles\nCPU0  250  instructions  #  2.50  insn per cycle\n".toList

def otherApart : Text :=
  "CPU0  100  cycles\nCPU1  80  cycles\nCPU0  250  instructions  #  3.13  insn per cycle\n".toList

theorem sampleUnescaped : '\\' ∉ sampleTogether ∧ '\\' ∉ sampleApart ∧ '\\' ∉ otherApart := by decide +kernel

theorem sampleNames : ∀ r ∈ cpuReadings sampleApart ++ cpuReadings otherApart, ∀ c ∈ r.cpu,
    c ∉ [':','*','?','['] := by
  have clear : ∀ c ∈ (cpuReadings sampleApart ++ cpuReadings otherApart).flatMap Reading.cpu,
      c ∉ [':','*','?','['] := eachOf (by decide +kernel)
  exact fun r mem c inside => clear c (List.mem_flatMap.mpr ⟨r,mem,inside⟩)

def sampleHost : Host :=
  ⟨true,[],sampleTogether,sampleApart,⟨sampleUnescaped.1,sampleUnescaped.2.1⟩,
    fun r mem => sampleNames r (List.mem_append_left _ mem)⟩

def otherHost : Host :=
  ⟨true,[],sampleTogether,otherApart,⟨sampleUnescaped.1,sampleUnescaped.2.2⟩,
    fun r mem => sampleNames r (List.mem_append_right _ mem)⟩

def otherMessage : Text := "IPC is different for CPU0: 2.50 != 3.13  (250 / 100)".toList

theorem sampleRatios : AllRight sameCpu sampleQuotient (cpuReadings sampleApart) ∧
    (FirstWrong globalAggr anyLine sampleQuotient (globalReadings sampleTogether) (some otherMessage) ∨
      AllRight anyLine sampleQuotient (globalReadings sampleTogether) ∧
        FirstWrong noAggr sameCpu sampleQuotient (cpuReadings otherApart) (some otherMessage)) :=
  ⟨((shadowStatExactly sampleQuotient sampleHost).1.mp (by decide +kernel)).2.2.2,
    (shadowStatExactly sampleQuotient otherHost).2 (some otherMessage) (by decide +kernel)⟩

end KernelTestTools.ShadowStat
