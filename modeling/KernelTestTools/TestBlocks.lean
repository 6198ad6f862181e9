import KernelTestTools.TestRenaming

/-! Splitting a script into its test cases. The scanner moves from one opening marker to the
next TEST.END with a line break behind it, so a script that ends right after its last
TEST.END loses that test case without notice. -/
namespace KernelTestTools.TestScript
open TextFile Regex

structure CaseBlock where
  inner : Text
  once : ¬ caseMarker <:+: inner
  unended : ¬ (endMarker ++ ['\n']) <:+: inner ++ ['\n']

def CaseBlock.text (b : CaseBlock) : Text := caseMarker ++ (b.inner ++ '\n'::endMarker)

/- Each test case but the last has a gap behind it; the last one has no line break behind it
when the trailing text is none. -/
structure Script where
  head : Text
  cases : List (CaseBlock × Text)
  last : CaseBlock
  trailing : Option Text
  headFree : ¬ caseMarker <:+: head
  gapsFree : ∀ c ∈ cases, ¬ caseMarker <:+: c.2
  trailingFree : ∀ t ∈ trailing, ¬ caseMarker <:+: t

def closing (last : CaseBlock) : Option Text → Text
  | none => last.text
  | some t => last.text ++ '\n'::t

def casesText (cases : List (CaseBlock × Text)) (last : CaseBlock) (trailing : Option Text) : Text :=
  cases.flatMap (fun c => c.1.text ++ '\n'::c.2) ++ closing last trailing

def Script.text (s : Script) : Text := s.head ++ casesText s.cases s.last s.trailing

def Script.inputs (s : Script) : List Text :=
  s.cases.map (fun c => c.1.text ++ ['\n']) ++ [s.last.text ++ (s.trailing.map (fun _ => ['\n'])).getD []]

def LosesNothing (script : Text) (s : Script) : Prop := ∃ outs : List Text,
  s.inputs.map handleTestCase = outs.map .ok ∧
  main script = .ok (s.head ++ outs.flatMap (· ++ ['\n']))

theorem caseUnbordered : Unbordered caseMarker := by decide

theorem endUnbordered : Unbordered (endMarker ++ ['\n']) := by decide

theorem caseStart {gap s : Text} (free : ¬ caseMarker <:+: gap) : NoStart caseMarker gap (caseMarker ++ s) :=
  noStartUnbordered caseUnbordered free s

theorem headFound {head s : Text} (free : ¬ caseMarker <:+: head) : getHead (head ++ (caseMarker ++ s)) = .ok head := by
  have here : matchHere (.lit caseMarker) (caseMarker ++ s) = some ⟨[],caseMarker,s⟩ := by
    rw [matchHere,literalRe caseMarker (caseMarker ++ s),if_pos (List.prefix_append caseMarker s)]
    simp
  have block : ∀ u v, head = u ++ v → v ≠ [] → tries (.lit caseMarker) (v ++ (caseMarker ++ s)) = [] := by
    intro u v split some
    rw [literalRe caseMarker,if_neg (caseStart free u v split some)]
  have found := lazyThen (lazyGroup anyChar 1) (fun _ _ => rfl) block here
  rw [getHead,found]
  simp [Match.before,Match.group]

theorem caseFound {gap s : Text} (b : CaseBlock) (free : ¬ caseMarker <:+: gap) :
    findall testCases 0 (gap ++ (b.text ++ '\n'::s)) = (b.text ++ ['\n'])::findall testCases 0 s := by
  have next : NoStart (endMarker ++ ['\n']) (b.inner ++ ['\n']) ((endMarker ++ ['\n']) ++ s) :=
    noStartUnbordered endUnbordered b.unended s
  have shape : gap ++ (b.text ++ '\n'::s) =
      gap ++ (caseMarker ++ ((b.inner ++ ['\n']) ++ ((endMarker ++ ['\n']) ++ s))) := by
    simp [CaseBlock.text]
  have found := searchBetween (literalRe caseMarker) (lazyRep anyChar) (literalRe (endMarker ++ ['\n']))
    (caseStart free) (fun _ _ => rfl) next
  rw [shape,findall,scanSome (r := testCases) found]
  simp [findall,Match.group,CaseBlock.text]

theorem noCaseFound {s : Text} (free : ¬ caseMarker <:+: s) : findall testCases 0 s = [] := by
  rw [findall,scanNone (r := testCases) (searchLiteralNone (literalRe caseMarker) free)]
  rfl

theorem unendedBlock (b : CaseBlock) : ¬ (endMarker ++ ['\n']) <:+: b.inner ++ '\n'::endMarker := by
  intro inside
  obtain ⟨p,q,same⟩ := inside
  have noBreak : '\n' ∉ endMarker := by decide
  have shape : (p ++ endMarker) ++ '\n'::q = (b.inner ++ ['\n']) ++ endMarker := by
    simpa using same
  rcases List.append_eq_append_iff.mp shape with ⟨z,split,tail⟩ | ⟨z,split,tail⟩
  · cases z with
    | nil => exact noBreak (by rw [List.nil_append] at tail; simp [← tail])
    | cons c z =>
      have same := (List.cons.inj tail).1
      exact b.unended ⟨p,z,by rw [split,same]; simp⟩
  · exact noBreak (by rw [tail]; simp)

theorem onceBlock (b : CaseBlock) : ¬ caseMarker <:+: b.inner ++ '\n'::endMarker := by
  have line := noStartLine (t := caseMarker) (c := '\n') (by decide) b.once endMarker
  have last : NoStart caseMarker endMarker [] := noStartApart (by decide) []
  have whole := noStartAppend (a := b.inner ++ ['\n']) (b := endMarker) (s := []) (by simpa using line) last
  have absent := absentOfNoStart (by decide) whole
  simpa using absent

theorem lastLost {gap : Text} (b : CaseBlock) (free : ¬ caseMarker <:+: gap) :
    findall testCases 0 (gap ++ b.text) = [] := by
  have none := searchUnclosed (literalRe caseMarker) (by decide) (lazyRep anyChar) (unendedBlock b)
    (caseStart free) (onceBlock b) caseUnbordered
  rw [findall,CaseBlock.text,scanNone (r := testCases) none]
  rfl

theorem casesFound {cases : List (CaseBlock × Text)} {last : CaseBlock} {trailing : Option Text}
    (gaps : ∀ c ∈ cases, ¬ caseMarker <:+: c.2) (after : ∀ t ∈ trailing, ¬ caseMarker <:+: t)
    {gap : Text} (free : ¬ caseMarker <:+: gap) :
    findall testCases 0 (gap ++ casesText cases last trailing) =
      cases.map (fun c => c.1.text ++ ['\n']) ++ (trailing.map (fun _ => last.text ++ ['\n'])).toList := by
  induction cases generalizing gap with
  | nil =>
    rw [casesText,List.flatMap_nil,List.nil_append]
    cases trailing with
    | none => exact lastLost last free
    | some t => rw [closing,caseFound last free,noCaseFound (after t rfl)]; rfl
  | cons c cases ih =>
    have shape : casesText (c::cases) last trailing =
        c.1.text ++ '\n'::(c.2 ++ casesText cases last trailing) := by simp [casesText]
    rw [shape,caseFound c.1 free,ih (fun k mem => gaps k (List.mem_cons_of_mem _ mem))
      (gaps c List.mem_cons_self)]
    rfl

theorem casesStart (cases : List (CaseBlock × Text)) (last : CaseBlock) (trailing : Option Text) :
    ∃ s, casesText cases last trailing = caseMarker ++ s := by
  cases cases with
  | nil => cases trailing <;> exact ⟨_,by simp only [casesText,closing,CaseBlock.text,List.flatMap_nil,
      List.nil_append,List.append_assoc]; rfl⟩
  | cons c cases => exact ⟨_,by simp only [casesText,CaseBlock.text,List.flatMap_cons,List.append_assoc]; rfl⟩

theorem writeCasesOk {inputs outs : List Text} (handled : inputs.map handleTestCase = outs.map .ok) :
    writeCases inputs = .ok (outs.flatMap (· ++ ['\n'])) := by
  induction inputs generalizing outs with
  | nil =>
    rw [List.map_nil,eq_comm,List.map_eq_nil_iff] at handled
    rw [handled]
    rfl
  | cons input inputs ih =>
    obtain ⟨out,rest,rfl,here,later⟩ := List.map_eq_cons_iff.mp handled.symm
    have tail := ih later.symm
    simp [writeCases,← here,tail,bind,Except.bind]

theorem handledAll {inputs : List Text} (each : ∀ input ∈ inputs, ∃ out, handleTestCase input = .ok out) :
    ∃ outs : List Text, inputs.map handleTestCase = outs.map .ok := by
  induction inputs with
  | nil => exact ⟨[],rfl⟩
  | cons input inputs ih =>
    obtain ⟨out,here⟩ := each input List.mem_cons_self
    obtain ⟨outs,rest⟩ := ih (fun k mem => each k (List.mem_cons_of_mem _ mem))
    exact ⟨out::outs,by rw [List.map_cons,List.map_cons,here,rest]⟩

theorem mainFound {script : Text} {s : Script} (read : universalNewlines script = s.text) :
    main script = (writeCases (s.cases.map (fun c => c.1.text ++ ['\n']) ++
      (s.trailing.map (fun _ => s.last.text ++ ['\n'])).toList)).map (s.head ++ ·) := by
  obtain ⟨rest,start⟩ := casesStart s.cases s.last s.trailing
  have cut : getHead s.text = .ok s.head := by
    rw [Script.text,start]
    exact headFound s.headFree
  have found := @casesFound s.cases s.last s.trailing s.gapsFree s.trailingFree s.head s.headFree
  rw [← Script.text] at found
  rw [main,read]
  simp only [cut,found,bind,Except.bind]
  generalize writeCases (s.cases.map (fun c => c.1.text ++ ['\n']) ++
    (s.trailing.map (fun _ => s.last.text ++ ['\n'])).toList) = written
  cases written <;> rfl

theorem losesNothingExactly {script : Text} {s : Script} (read : universalNewlines script = s.text) :
    LosesNothing script s ↔
      s.trailing ≠ none ∧ ∀ input ∈ s.inputs, ∃ out, handleTestCase input = .ok out := by
  have run := mainFound read
  constructor
  · intro nothingLost
    obtain ⟨outs,handled,output⟩ := nothingLost
    refine ⟨fun lost => ?_,fun input mem => ?_⟩
    · rw [Script.inputs,List.map_append] at handled
      obtain ⟨front,back,rfl,here,last⟩ := List.map_eq_append_iff.mp handled.symm
      rw [lost,Option.map_none,Option.toList_none,List.append_nil,writeCasesOk here.symm,output] at run
      have same := List.append_cancel_left (Except.ok.inj run)
      rw [List.flatMap_append] at same
      have empty := List.append_right_eq_self.mp same
      obtain ⟨out,rest,rfl,_⟩ := List.map_eq_cons_iff.mp last
      simp at empty
    · have image : handleTestCase input ∈ outs.map Except.ok := by
        rw [← handled]
        exact List.mem_map_of_mem mem
      obtain ⟨out,_,here⟩ := List.mem_map.mp image
      exact ⟨out,here.symm⟩
  · intro condition
    obtain ⟨closed,each⟩ := condition
    obtain ⟨outs,handled⟩ := handledAll each
    obtain ⟨t,ends⟩ := Option.ne_none_iff_exists'.mp closed
    refine ⟨outs,handled,?_⟩
    rw [Script.inputs,ends] at handled
    rw [run,ends]
    have written := writeCasesOk handled
    simp only [Option.map_some,Option.getD_some] at written
    simp only [Option.map_some,Option.toList_some,written]
    rfl

def ioctlCase : CaseBlock where
  inner := " generated\nTEST.UNIT:hal\nTEST.SUBPROGRAM:ioctl\n".toList ++
    "TEST.NEW\nTEST.NAME:ioctl.001\n".toList ++ "TEST.NOTES:\nTest Path 1\nTEST.END_NOTES:".toList
  once := by decide +kernel
  unended := by decide +kernel

def ioctlLater : CaseBlock where
  inner := " ioctl.002\nTEST.SUBPROGRAM:ioctl\nTEST.NAME:ioctl.002\n".toList ++
    "TEST.NOTES:\nTest Path 2\nTEST.END_NOTES:".toList
  once := by decide +kernel
  unended := by decide +kernel

def closedScript : Script where
  head := "-- Environment\n".toList
  cases := [(ioctlCase,"--\n".toList)]
  last := ioctlLater
  trailing := some []
  headFree := by decide
  gapsFree := by decide
  trailingFree := by decide

def openScript : Script where
  head := "-- Environment\n".toList
  cases := []
  last := ioctlCase
  trailing := none
  headFree := by decide
  gapsFree := by simp
  trailingFree := by simp

theorem ioctlCaseText : ioctlCase.text ++ ['\n'] = ioctlFirst.text "ioctl".toList := by decide +kernel

theorem sampleLosesNothing : LosesNothing closedScript.text closedScript ↔
    closedScript.trailing ≠ none ∧ ∀ input ∈ closedScript.inputs, ∃ out, handleTestCase input = .ok out :=
  losesNothingExactly (by decide +kernel)

/- The only test case of a script that ends right after TEST.END: handled on its own with its
line break, it is renamed, but the output is the head alone. -/
theorem lastCaseLost : (∃ out, handleTestCase (ioctlCase.text ++ ['\n']) = .ok out) ∧
    main openScript.text = .ok openScript.head ∧ ¬ LosesNothing openScript.text openScript := by
  have read : universalNewlines openScript.text = openScript.text := by decide +kernel
  have written : main openScript.text = .ok openScript.head := by
    rw [mainFound read]
    rfl
  refine ⟨?_,written,?_⟩
  · have fit : NotesFit ioctlFirst := ownNotesFit rfl (by decide)
    obtain ⟨rest,run⟩ := caseRenamed ioctlName (ownTriple (eachOf (by decide)) (by decide)) fit
    rw [ioctlCaseText]
    exact ⟨_,run⟩
  · intro nothingLost
    obtain ⟨outs,handled,output⟩ := nothingLost
    rw [written] at output
    have empty := List.append_right_eq_self.mp (Except.ok.inj output).symm
    obtain ⟨out,rest,rfl,_⟩ := List.map_eq_cons_iff.mp handled.symm
    simp at empty

end KernelTestTools.TestScript
