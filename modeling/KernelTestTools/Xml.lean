import KernelTestTools.TextFile

/-! Parsed XML documents and the two look-ups the VectorCAST scripts make in them. A
document is what the parser returns: none stands for a file that is missing or malformed,
which both functions turn into None through their catch-all handlers. -/
namespace KernelTestTools.Xml
open TextFile

inductive Element where
  | mk (tag : Text) (attributes : List (Text × Text)) (text : Option Text) (children : List Element)

def Element.tag : Element → Text
  | .mk tag _ _ _ => tag

def Element.get : Element → Text → Option Text
  | .mk _ attributes _ _,name => attributes.lookup name

def Element.text : Element → Option Text
  | .mk _ _ text _ => text

mutual
def descendants : Element → List Element
  | .mk _ _ _ children => forest children

def forest : List Element → List Element
  | [] => []
  | e::rest => e::(descendants e ++ forest rest)
end

/- find and findall with the path .//tag. -/
def findall (tag : Text) (e : Element) : List Element :=
  (descendants e).filter (fun x => x.tag == tag)

def find (tag : Text) (e : Element) : Option Element := (findall tag e).head?

/- find with the path .//tag[@name='value']. -/
def findNamed (tag value : Text) (e : Element) : Option Element :=
  (findall tag e).find? (fun x => x.get "name".toList == some value)

def apostrophe : Char := Char.ofNat 39

/- A function name with an apostrophe ends the quoted name early; the path is then invalid
(names that close the predicate and open another one are left out). -/
def getGlobalId (param : Option Element) (functionName : Text) : Option Text := do
  let root ← param
  if apostrophe ∈ functionName then none
  let subprog ← findNamed "subprog".toList functionName root
  let entry ← findNamed "param".toList "return".toList subprog
  entry.get "index".toList

/- The loop over reversed(command_elems). An actual_value without text makes strip fail,
and the handler around the loop returns None. -/
def lookBack (harnessCommandValue : Text) : List Element → Option Text
  | [] => none
  | e::rest => match find "harness_command".toList e with
    | none => lookBack harnessCommandValue rest
    | some command =>
      if command.text = some harnessCommandValue then
        match find "actual_value".toList e with
        | none => lookBack harnessCommandValue rest
        | some actual => actual.text.map strip
      else lookBack harnessCommandValue rest

def getTrueValueFromXml (document : Option Element) (harnessCommandValue : Text) : Option Text :=
  match document with
  | none => none
  | some root => lookBack harnessCommandValue (findall "command_data".toList root).reverse

structure Results where
  root : Element
  filled : ∀ e ∈ descendants root, e.text ≠ some []

def commandData (r : Results) : List Element := findall "command_data".toList r.root

def Matches (key : Text) (e : Element) : Prop :=
  ∃ command, find "harness_command".toList e = some command ∧ command.text = some key

def Usable (key : Text) (e : Element) (text : Text) : Prop :=
  Matches key e ∧ text ≠ [] ∧ ∃ actual, find "actual_value".toList e = some actual ∧ actual.text = some text

structure LastUsable (key : Text) (blocks after : List Element) (text : Text) : Prop where
  here : ∃ before e, blocks = before ++ e::after ∧ Usable key e text
  last : ∀ x ∈ after, ∀ other, ¬Usable key x other

structure FindsLast (r : Results) (key : Text) : Prop where
  value : ∀ after text, LastUsable key (commandData r) after text →
    getTrueValueFromXml (some r.root) key = some (strip text)
  nothing : getTrueValueFromXml (some r.root) key = none ↔ ∀ e ∈ commandData r, ∀ text, ¬Usable key e text

def Unhidden (r : Results) (key : Text) : Prop :=
  ∀ after text, LastUsable key (commandData r) after text → ∀ x ∈ after, Matches key x →
    ∀ actual, find "actual_value".toList x = some actual → actual.text ≠ none

def Ends (key : Text) (e : Element) : Prop := Matches key e ∧ (find "actual_value".toList e).isSome

section
variable {key : Text} {e : Element}

theorem lookBackPast (past : ¬Ends key e) (earlier : List Element) :
    lookBack key (e::earlier) = lookBack key earlier := by
  rw [lookBack]
  split
  · rfl
  · rename_i command found
    split
    · rename_i same
      split
      · rfl
      · rename_i actual value
        exact absurd ⟨⟨command,found,same⟩,by rw [value]; rfl⟩ past
    · rfl

theorem lookBackEnds {actual : Element} (own : Matches key e) (value : find "actual_value".toList e = some actual)
    (earlier : List Element) : lookBack key (e::earlier) = actual.text.map strip := by
  obtain ⟨command,found,same⟩ := own
  simp only [lookBack,found,same,value,if_true]

theorem lookBackBehind {later : List Element} (past : ∀ x ∈ later, ¬Ends key x) (earlier : List Element) :
    lookBack key (later ++ earlier) = lookBack key earlier := by
  induction later with
  | nil => rfl
  | cons x later ih =>
    rw [List.cons_append,lookBackPast (past x List.mem_cons_self),
      ih (fun y mem => past y (List.mem_cons_of_mem x mem))]

theorem lookBackWithin {later : List Element} (ends : ∃ x ∈ later, Ends key x) (earlier : List Element) :
    lookBack key (later ++ earlier) = lookBack key later := by
  induction later with
  | nil => simp at ends
  | cons x later ih =>
    by_cases first : Ends key x
    · obtain ⟨own,value⟩ := first
      obtain ⟨actual,value⟩ := Option.isSome_iff_exists.mp value
      rw [List.cons_append,lookBackEnds own value,lookBackEnds own value]
    · have rest : ∃ y ∈ later, Ends key y := by
        obtain ⟨y,mem,ends⟩ := ends
        rcases List.mem_cons.mp mem with rfl | inside
        · exact absurd ends first
        · exact ⟨y,inside,ends⟩
      rw [List.cons_append,lookBackPast first,lookBackPast first,ih rest]

theorem lookBackUseless {later : List Element}
    (filled : ∀ x ∈ later, ∀ actual, find "actual_value".toList x = some actual → actual.text ≠ some [])
    (useless : ∀ x ∈ later, ∀ text, ¬Usable key x text) : lookBack key later = none := by
  induction later with
  | nil => rfl
  | cons x later ih =>
    have rest := ih (fun y mem => filled y (List.mem_cons_of_mem x mem))
      (fun y mem => useless y (List.mem_cons_of_mem x mem))
    by_cases ends : Ends key x
    · obtain ⟨own,value⟩ := ends
      obtain ⟨actual,value⟩ := Option.isSome_iff_exists.mp value
      rw [lookBackEnds own value]
      cases text : actual.text with
      | none => rfl
      | some t =>
        have nonempty : t ≠ [] := by
          rintro rfl
          exact filled x List.mem_cons_self actual value text
        exact absurd ⟨own,nonempty,actual,value,text⟩ (useless x List.mem_cons_self t)
    · rw [lookBackPast ends,rest]

end

mutual
theorem descendantsWithin : ∀ {e x y : Element}, x ∈ descendants e → y ∈ descendants x → y ∈ descendants e
  | .mk _ _ _ children,_,_,inside,below => forestWithin children inside below

theorem forestWithin : ∀ (es : List Element) {x y : Element}, x ∈ forest es → y ∈ descendants x → y ∈ forest es
  | [],_,_,inside,_ => nomatch inside
  | e::rest,x,y,inside,below => by
    rw [forest,List.mem_cons,List.mem_append] at inside ⊢
    rcases inside with rfl | early | late
    · exact .inr (.inl below)
    · exact .inr (.inl (descendantsWithin early below))
    · exact .inr (.inr (forestWithin rest late below))
end

theorem findWithin {tag : Text} {e x : Element} (found : find tag e = some x) : x ∈ descendants e :=
  List.mem_of_mem_filter (List.mem_of_mem_head? found)

theorem lastUsableExists {key : Text} {blocks : List Element} (some : ∃ e ∈ blocks, ∃ text, Usable key e text) :
    ∃ after text, LastUsable key blocks after text := by
  induction blocks with
  | nil => simp at some
  | cons e blocks ih =>
    by_cases later : ∃ x ∈ blocks, ∃ text, Usable key x text
    · obtain ⟨after,text,⟨before,x,split,usable⟩,last⟩ := ih later
      exact ⟨after,text,⟨e::before,x,by rw [split,List.cons_append],usable⟩,last⟩
    · obtain ⟨x,mem,text,usable⟩ := some
      rcases List.mem_cons.mp mem with rfl | inside
      · exact ⟨blocks,text,⟨[],x,rfl,usable⟩,fun y mem other here => later ⟨y,mem,other,here⟩⟩
      · exact absurd ⟨x,inside,text,usable⟩ later

theorem filledValues (r : Results) : ∀ x ∈ commandData r, ∀ actual,
    find "actual_value".toList x = some actual → actual.text ≠ some [] := by
  intro x mem actual value
  exact r.filled actual (descendantsWithin (List.mem_of_mem_filter mem) (findWithin value))

section
variable {r : Results} {key : Text}

theorem nothingUseless (useless : ∀ e ∈ commandData r, ∀ text, ¬Usable key e text) :
    getTrueValueFromXml (some r.root) key = none :=
  lookBackUseless (fun x mem => filledValues r x (List.mem_reverse.mp mem))
    (fun x mem => useless x (List.mem_reverse.mp mem))

theorem lastUsableForms {after : List Element} {text : Text} (last : LastUsable key (commandData r) after text) :
    (getTrueValueFromXml (some r.root) key = some (strip text) ∧ ∀ x ∈ after, ¬Ends key x) ∨
      (getTrueValueFromXml (some r.root) key = none ∧ ∃ x ∈ after, Ends key x) := by
  obtain ⟨⟨before,e,split,usable⟩,useless⟩ := last
  have backwards : getTrueValueFromXml (some r.root) key = lookBack key (after.reverse ++ e::before.reverse) := by
    have order : (commandData r).reverse = after.reverse ++ e::before.reverse := by simp [split]
    rw [← order]
    rfl
  rw [backwards]
  by_cases behind : ∃ x ∈ after, Ends key x
  · right
    obtain ⟨x,mem,ends⟩ := behind
    rw [lookBackWithin ⟨x,List.mem_reverse.mpr mem,ends⟩]
    refine ⟨lookBackUseless (fun y inside => ?_) (fun y inside => useless y (List.mem_reverse.mp inside)),x,mem,ends⟩
    refine filledValues r y ?_
    rw [split]
    exact List.mem_append_right _ (List.mem_cons_of_mem e (List.mem_reverse.mp inside))
  · left
    have none : ∀ x ∈ after, ¬Ends key x := fun x mem ends => behind ⟨x,mem,ends⟩
    obtain ⟨own,_,actual,value,same⟩ := usable
    rw [lookBackBehind (fun x mem => none x (List.mem_reverse.mp mem)),lookBackEnds own value,same]
    exact ⟨rfl,none⟩

theorem findsLastExactly (r : Results) (key : Text) : FindsLast r key ↔ Unhidden r key := by
  constructor
  · intro finds after text last x mem own actual value _
    rcases lastUsableForms last with ⟨_,none⟩ | ⟨hidden,_⟩
    · exact none x mem ⟨own,by rw [value]; rfl⟩
    · rw [finds.value after text last] at hidden
      cases hidden
  · intro unhidden
    have value (after : List Element) (text : Text) (last : LastUsable key (commandData r) after text) :
        getTrueValueFromXml (some r.root) key = some (strip text) := by
      rcases lastUsableForms last with ⟨found,_⟩ | ⟨_,x,mem,own,some⟩
      · exact found
      · obtain ⟨actual,value⟩ := Option.isSome_iff_exists.mp some
        obtain ⟨t,same⟩ := Option.ne_none_iff_exists'.mp (unhidden after text last x mem own actual value)
        have listed : x ∈ commandData r := by
          obtain ⟨before,e,split,_⟩ := last.here
          rw [split]
          exact List.mem_append_right _ (List.mem_cons_of_mem e mem)
        have nonempty : t ≠ [] := by
          rintro rfl
          exact filledValues r x listed actual value same
        exact absurd ⟨own,nonempty,actual,value,same⟩ (last.last x mem t)
    refine ⟨value,fun none e mem text usable => ?_,nothingUseless⟩
    obtain ⟨after,text,last⟩ := lastUsableExists ⟨e,mem,text,usable⟩
    rw [value after text last] at none
    cases none

end

def record (harnessCommand : Text) (actualValue : Option Text) : Element :=
  .mk "command_data".toList [] (some "\n".toList)
    [.mk "harness_command".toList [] (some harnessCommand) [],.mk "actual_value".toList [] actualValue []]

def emptyLast : Results where
  root := .mk "report".toList [] (some "\n".toList) [record "0.1.2.7".toList (some "5".toList),
    record "0.1.2.7".toList none]
  filled := by
    simp [descendants,forest,record,Element.text]

theorem emptyHidesEarlier :
    getTrueValueFromXml (some emptyLast.root) "0.1.2.7".toList = none ∧ ¬FindsLast emptyLast "0.1.2.7".toList := by
  have none : getTrueValueFromXml (some emptyLast.root) "0.1.2.7".toList = none := by decide
  refine ⟨none,fun finds => ?_⟩
  have usable : Usable "0.1.2.7".toList (record "0.1.2.7".toList (some "5".toList)) "5".toList :=
    ⟨⟨_,rfl,rfl⟩,by decide,_,rfl,rfl⟩
  exact finds.nothing.mp none _ (List.mem_cons_self) _ usable

end KernelTestTools.Xml
