import KernelTestTools.TextFile
import KernelTestTools.Regex

/-! The DAT update phase that Set_Return and Set_ACT_Return share: what one matching XML
file does to the E-*.DAT file that belongs to it, and the values it leaves in the script's
variables. A file that is not valid UTF-8 makes readlines raise before anything is assigned. -/
namespace KernelTestTools.DatFiles
open TextFile Regex

inductive DatFile where
  | text (content : Text)
  | undecodable
  deriving DecidableEq, Repr

structure XmlFile where
  name : Text
  content : Option Text
  deriving DecidableEq, Repr

def percent : Char := '%'

def numberedName : Re Char :=
  .seq (.group 1 (.rep isDigit 1 false)) (.seq (.lit ".XML".toList) (.atEnd ['\n']))

def unitTag : Re Char :=
  .seq (.lit "<unit>".toList) (.seq (.group 1 (.rep isDigit 1 false)) (.lit "</unit>".toList))

def subprogramTag : Re Char :=
  .seq (.lit "<subprogram>".toList)
    (.seq (.group 1 (.rep isDigit 1 false)) (.lit "</subprogram>".toList))

def datId (x : XmlFile) : Option Text := (search numberedName x.name).map (fun m => m.2.group 1)

def extractUnitAndSubprogram (x : XmlFile) : Option (Text × Text) := do
  let content ← x.content
  let unit ← search unitTag (universalNewlines content)
  let subprogram ← search subprogramTag (universalNewlines content)
  some (unit.2.group 1,subprogram.2.group 1)

def inSomeLine (pattern : Text) (x : XmlFile) : Bool := match x.content with
  | none => false
  | some content => (lines (universalNewlines content)).any (fun l => decide (pattern <:+: l))

def entryKey (globalId : Text) (unitSub : Text × Text) : Text :=
  "0.".toList ++ unitSub.1 ++ ['.'] ++ unitSub.2 ++ ['.'] ++ globalId

def entryLine (key newValue : Text) : Text := key ++ [percent] ++ newValue ++ ['\n']

structure Assigned where
  lines : Option (List Text)
  lastLine : Option Text
  keyPrefix : Option Text
  deriving DecidableEq, Repr

def unassigned : Assigned := ⟨none,none,none⟩

/- The key is none when the XML file gives no unit or no subprogram. -/
def updateDat (newValue : Text) (key : Option Text) (file : Option DatFile) :
    Option DatFile × Assigned :=
  match file with
  | none | some (.text []) => match key with
    | some k => (some (.text (entryLine k newValue)),unassigned)
    | none => (file,unassigned)
  | some .undecodable => (file,unassigned)
  | some (.text content) =>
    let ls := lines (universalNewlines content)
    match ls.getLast? with
    | none => (file,⟨some ls,none,none⟩)
    | some last =>
      let lastLine := strip last
      if percent ∉ lastLine then match key with
        | some k => (some (.text (content ++ entryLine k newValue)),⟨some ls,some lastLine,none⟩)
        | none => (file,⟨some ls,some lastLine,none⟩)
      else
        let keyPrefix := (fields percent lastLine).headD []
        let changed := ls.dropLast ++ [entryLine keyPrefix newValue]
        (some (.text changed.flatten),⟨some changed,some lastLine,some keyPrefix⟩)

abbrev Path := Text × Text
abbrev Dats := Path → Option DatFile

def write (dats : Dats) (path : Path) (file : Option DatFile) : Dats :=
  fun p => if p = path then file else dats p

structure Visit where
  path : Path
  key : Option Text
  deriving DecidableEq, Repr

def visitOf (targetDir globalId : Text) (x : XmlFile) : Option Visit :=
  (datId x).map (fun id => ⟨(targetDir,id),(extractUnitAndSubprogram x).map (entryKey globalId)⟩)

def formatIndex (index : Nat) : Text := (Nat.toDigits 10 index).leftpad 3 '0'

def fullFunction (functionName : Text) (index : Nat) : Text :=
  functionName ++ ['.'] ++ formatIndex index

def namePattern (functionName : Text) (index : Nat) : Text :=
  "<name>".toList ++ fullFunction functionName index ++ "</name>".toList

/- The body of the rglob loop, with the flag found and what a numbered match acts on. -/
def visitXml {S : Type} (act : S → Visit → S) (functionName globalId targetDir : Text) (index : Nat)
    (s : Bool × S) (x : XmlFile) : Bool × S :=
  if inSomeLine (namePattern functionName index) x then
    match visitOf targetDir globalId x with
    | none => (true,s.2)
    | some visit => (true,act s.2 visit)
  else s

def matchingVisits (functionName globalId targetDir : Text) (index : Nat) (xs : List XmlFile) :
    List Visit :=
  (xs.filter (inSomeLine (namePattern functionName index))).filterMap (visitOf targetDir globalId)

theorem visitXmlFold {S : Type} (act : S → Visit → S) (functionName globalId targetDir : Text)
    (index : Nat) (xs : List XmlFile) (flag : Bool) (s : S) :
    xs.foldl (visitXml act functionName globalId targetDir index) (flag,s) =
      (flag || xs.any (inSomeLine (namePattern functionName index)),
        (matchingVisits functionName globalId targetDir index xs).foldl act s) := by
  induction xs generalizing flag s with
  | nil => simp [matchingVisits]
  | cons x xs ih =>
    rw [List.foldl_cons]
    by_cases here : inSomeLine (namePattern functionName index) x
    · cases visit : visitOf targetDir globalId x with
      | none => simp [visitXml,matchingVisits,here,visit,ih]
      | some v => simp [visitXml,matchingVisits,here,visit,ih]
    · simp [visitXml,matchingVisits,here,ih]

theorem matchingDir {functionName globalId targetDir : Text} {index : Nat} {xs : List XmlFile}
    {v : Visit} (mem : v ∈ matchingVisits functionName globalId targetDir index xs) :
    v.path.1 = targetDir := by
  obtain ⟨x,_,visit⟩ := List.mem_filterMap.mp mem
  obtain ⟨id,_,rfl⟩ := Option.map_eq_some_iff.mp visit
  rfl

def applyVisit (newValue : Text) (dats : Dats) (visit : Visit) : Dats :=
  write dats visit.path (updateDat newValue visit.key (dats visit.path)).1

def entries : Option DatFile → List Text
  | some (.text content) => lines (universalNewlines content)
  | _ => []

def keyOf (l : Text) : Text := l.takeWhile (· != percent)

theorem spaceFree : isSpace percent = false ∧ isDigit percent = false ∧ isDigit '\n' = false ∧
    isDigit '\r' = false ∧ isSpace '0' = false := by decide

theorem dropLeft {p : Char → Bool} {x : Char} (stop : p x = false) (a b : Text) :
    (a ++ x::b).dropWhile p = a.dropWhile p ++ x::b := by
  induction a with
  | nil => simp [stop]
  | cons c a ih =>
    simp only [List.cons_append,List.dropWhile_cons]
    split
    · exact ih
    · rfl

theorem dropRight {p : Char → Bool} {x : Char} (stop : p x = false) (a b : Text) :
    (a ++ x::b).rdropWhile p = a ++ x::b.rdropWhile p := by
  have left := dropLeft stop b.reverse a.reverse
  have shape : (a ++ x::b).reverse = b.reverse ++ x::a.reverse := by simp
  rw [List.rdropWhile,shape,left]
  simp [List.rdropWhile]

theorem stripEntry (k r : Text) : strip (k ++ percent::r) = lstrip k ++ percent::rstrip r := by
  rw [strip,lstrip,dropLeft spaceFree.1,rstrip,dropRight spaceFree.1]
  rfl

theorem lstripSubset {s : Text} {c : Char} (mem : c ∈ lstrip s) : c ∈ s :=
  (List.dropWhile_suffix isSpace).subset mem

theorem keyOfEntry {k : Text} (r : Text) (free : percent ∉ k) :
    (fields percent (strip (k ++ percent::r))).headD [] = lstrip k := by
  rw [fieldsHead,stripEntry]
  have all : ∀ c ∈ lstrip k, (c != percent) = true := by
    intro c mem
    simp only [bne_iff_ne,ne_eq]
    intro same
    subst same
    exact free (lstripSubset mem)
  rw [List.takeWhile_append_of_pos all]
  simp

theorem takeFree {k : Text} (free : percent ∉ k) (r : Text) :
    (k ++ percent::r).takeWhile (· != percent) = k := by
  have all : ∀ c ∈ k, (c != percent) = true := by
    intro c mem
    have other : c ≠ percent := fun same => free (same ▸ mem)
    simpa using other
  rw [List.takeWhile_append_of_pos all]
  simp

theorem keyOfLine {k v : Text} (free : percent ∉ k) : keyOf (entryLine k v) = k := by
  have shape : entryLine k v = k ++ percent::(v ++ ['\n']) := by simp [entryLine]
  rw [keyOf,shape,takeFree free]

theorem percentFreeKey (l : Text) : percent ∉ keyOf l := by
  intro mem
  have off := List.mem_takeWhile_imp mem
  simp at off

theorem splitKey {l : Text} (marked : percent ∈ l) : ∃ r, l = keyOf l ++ percent::r := by
  obtain ⟨k,r,rfl,free⟩ := List.eq_append_cons_of_mem marked
  exact ⟨r,by rw [keyOf,takeFree free]⟩

theorem percentKept {l : Text} : percent ∈ strip l ↔ percent ∈ l := by
  constructor
  · intro mem
    have right : percent ∈ lstrip l := (List.rdropWhile_prefix isSpace _).subset mem
    exact lstripSubset right
  · intro mem
    obtain ⟨k,r,rfl⟩ := List.append_of_mem mem
    rw [stripEntry]
    simp

section
variable {newValue : Text} {key : Option Text}

theorem updateFresh {file : Option DatFile} (fresh : file = none ∨ file = some (.text [])) :
    updateDat newValue key file = ((key.map (fun k => DatFile.text (entryLine k newValue))).or file,
      unassigned) := by
  rcases fresh with rfl | rfl <;> cases key <;> rfl

theorem updatePercent {content k r : Text} {init : List Text}
    (split : lines (universalNewlines content) = init ++ [k ++ percent::r]) (free : percent ∉ k) :
    updateDat newValue key (some (.text content)) =
      (some (.text (init.flatten ++ entryLine (lstrip k) newValue)),
        ⟨some (init ++ [entryLine (lstrip k) newValue]),some (strip (k ++ percent::r)),
          some (lstrip k)⟩) := by
  have nonempty : content ≠ [] := by
    intro empty
    subst empty
    simp [universalNewlines] at split
  have marked : percent ∈ strip (k ++ percent::r) := percentKept.mpr (by simp)
  have name := keyOfEntry r free
  cases content with
  | nil => contradiction
  | cons c content =>
    simp only [updateDat,split,List.getLast?_append,List.getLast?_singleton,Option.some_or,
      List.dropLast_concat,name]
    rw [if_neg (by simpa using marked)]
    simp

theorem updateNoPercent {content last : Text} {init : List Text}
    (split : lines (universalNewlines content) = init ++ [last]) (free : percent ∉ last) :
    updateDat newValue key (some (.text content)) =
      ((key.map (fun k => DatFile.text (content ++ entryLine k newValue))).or (some (.text content)),
        ⟨some (init ++ [last]),some (strip last),none⟩) := by
  have nonempty : content ≠ [] := by
    intro empty
    subst empty
    simp [universalNewlines] at split
  have unmarked : percent ∉ strip last := fun mem => free (percentKept.mp mem)
  cases content with
  | nil => contradiction
  | cons c content =>
    simp only [updateDat,split,List.getLast?_append,List.getLast?_singleton,Option.some_or]
    rw [if_pos unmarked]
    cases key <;> rfl

end

theorem lineOrSplit {content : Text} (nonempty : content ≠ []) :
    ∃ init last, lines (universalNewlines content) = init ++ [last] := by
  rcases List.eq_nil_or_concat (lines (universalNewlines content)) with none | ⟨init,last,split⟩
  · exfalso
    have joined := linesJoin (universalNewlines content)
    rw [none] at joined
    induction content using universalNewlines.induct with
    | case1 => contradiction
    | case2 rest ih => simp [universalNewlines] at joined
    | case3 c rest other ih =>
      rw [universalNewlines] at joined
      · simp at joined
      · exact other
  · exact ⟨init,last,by simpa using split⟩

/- What the three ways through updateDat ask of a file: nothing in it, a last line with a
percent sign, a last line without. -/
theorem fileForms (file : Option DatFile) :
    (file = none ∨ file = some (.text [])) ∨ file = some .undecodable ∨
      (∃ content init k r, file = some (.text content) ∧ content ≠ [] ∧
        lines (universalNewlines content) = init ++ [k ++ percent::r] ∧ percent ∉ k) ∨
      ∃ content init last, file = some (.text content) ∧ content ≠ [] ∧
        lines (universalNewlines content) = init ++ [last] ∧ percent ∉ last := by
  cases file with
  | none => exact .inl (.inl rfl)
  | some dat =>
    cases dat with
    | undecodable => exact .inr (.inl rfl)
    | text content =>
      by_cases empty : content = []
      · exact .inl (.inr (by rw [empty]))
      obtain ⟨init,last,split⟩ := lineOrSplit empty
      by_cases marked : percent ∈ last
      · obtain ⟨k,r,rfl,free⟩ := List.eq_append_cons_of_mem marked
        exact .inr (.inr (.inl ⟨content,init,k,r,rfl,empty,split,free⟩))
      · exact .inr (.inr (.inr ⟨content,init,last,rfl,empty,split,marked⟩))

def Plain (v : Text) : Prop := '\n' ∉ v ∧ '\r' ∉ v

instance (v : Text) : Decidable (Plain v) := inferInstanceAs (Decidable ('\n' ∉ v ∧ '\r' ∉ v))

structure Settled (init : List Text) (k : Text) : Prop where
  terminated : ∀ l ∈ init, Terminated l ∧ '\r' ∉ l
  marked : percent ∉ k
  plain : Plain k
  trimmed : lstrip k = k

theorem entryTerminated {k v : Text} (key : Plain k) (value : Plain v) :
    Terminated (entryLine k v) ∧ '\r' ∉ entryLine k v := by
  refine ⟨⟨k ++ [percent] ++ v,?_,rfl⟩,?_⟩
  · simp [key.1,value.1,percent]
  · simp [entryLine,key.2,value.2,percent]

theorem settledLines {init k v} (settled : Settled init k) (value : Plain v) :
    lines (universalNewlines (init.flatten ++ entryLine k v)) = init ++ [entryLine k v] := by
  obtain ⟨line,clean⟩ := entryTerminated settled.plain value
  have noReturn : '\r' ∉ init.flatten ++ entryLine k v := by
    intro mem
    rcases List.mem_append.mp mem with early | late
    · obtain ⟨l,hl,inside⟩ := List.mem_flatten.mp early
      exact (settled.terminated l hl).2 inside
    · exact clean late
  rw [noReturnUnchanged noReturn,linesFlatten (fun l mem => (settled.terminated l mem).1)]
  have last := linesCons line []
  rw [List.append_nil] at last
  rw [last]
  rfl

theorem updateSettled {init k v v' key} (settled : Settled init k) (value : Plain v) :
    (updateDat v' key (some (.text (init.flatten ++ entryLine k v)))).1 =
      some (.text (init.flatten ++ entryLine k v')) := by
  have split := settledLines settled value
  have shape : entryLine k v = k ++ percent::(v ++ ['\n']) := by simp [entryLine]
  rw [shape] at split ⊢
  rw [updatePercent split settled.marked,settled.trimmed]

theorem breakFreeKey {k r : Text} {init : List Text} (shape : LineList (init ++ [k ++ percent::r])) : '\n' ∉ k := by
  intro mem
  have member : k ++ percent::r ∈ init ++ [k ++ percent::r] := by simp
  rcases lineListMember shape member with ⟨body,whole,same⟩ | ⟨whole,_⟩
  · obtain ⟨tail,c,split⟩ := (List.eq_nil_or_concat (percent::r)).resolve_left (by simp)
    rw [split,List.concat_eq_append,← List.append_assoc] at same
    have body' := List.append_inj_left' same rfl
    exact whole (by simp [← body',mem])
  · exact whole (by simp [mem])

theorem settledSplit {content k r : Text} {init : List Text}
    (split : lines (universalNewlines content) = init ++ [k ++ percent::r]) (free : percent ∉ k) :
    Settled init (lstrip k) := by
  have shape := linesShape (universalNewlines content)
  have clean : ∀ l ∈ init ++ [k ++ percent::r], '\r' ∉ l := by
    intro l mem
    rw [← split] at mem
    exact lineNoReturn mem
  rw [split] at shape
  have noReturn : '\r' ∉ k := fun mem => clean _ (List.mem_append_right _ (List.mem_singleton_self _))
    (List.mem_append_left _ mem)
  exact ⟨fun l mem => ⟨lineListInit shape l mem,clean l (List.mem_append_left _ mem)⟩,
    fun mem => free (lstripSubset mem),
    ⟨fun mem => breakFreeKey shape (lstripSubset mem),fun mem => noReturn (lstripSubset mem)⟩,
    List.dropWhile_idempotent isSpace k⟩

end KernelTestTools.DatFiles
