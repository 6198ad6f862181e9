import KernelTestTools.NotesSection

/-! What handle_test_case leaves alone. Without the names and without the notes a test case is
the same before and after, as long as the three substitutions meet the section where it is. -/
namespace KernelTestTools.TestScript
open TextFile Regex

def cutNotes (s : Text) : Text := substitute notesSection [.group 1,.group 3] s

def cut (s : Text) : Text := cutNotes (renames [] s)

def Framed (b : NotesBlock) : Prop := ∃ out, handleTestCase b.text = .ok out ∧ cut out = cut b.text

/- The notes do not run into the reference in front of them, or they run into it as an octal
escape that gives the first letter of the opening marker back. -/
def Fits (note : Text) : Prop := (∀ c ∈ note.head?, decimal c = false) ∨
  "24EST.NOTES:\n".toList <+: note ++ ['\n']

structure Steady (b : NotesBlock) : Prop where
  opened : Unlabelled (lastLine b.before)
  ended : Unlabelled (lastLine b.notes)
  apart : endNotesMarker <:+: b.newName → Unlabelled b.notes
  fits : ∃ note, handleTestNote b.renamedNotes = .ok note ∧ Fits note

theorem sectionCut {x n y : Text} (opens : ¬ opening <:+: x) (closes : ¬ endNotesMarker <:+: n)
    (once : ¬ opening <:+: y) : cutNotes (sectioned x n y) = x ++ (opening ++ (endNotesMarker ++ y)) := by
  rw [cutNotes,sectioned,sectionReplaced _ opens closes once]
  have kept : expand [.group 1,.group 3] (sectionMatch n y) = opening ++ endNotesMarker := rfl
  rw [kept,List.append_assoc]

theorem lastLineSame {l : Text} (line : '\n' ∉ l) : lastLine l = l := by
  cases l with
  | nil => rfl
  | cons c l => rw [lastLine,if_neg line]

theorem lastLineWhole {a l : Text} (whole : Whole a) (line : '\n' ∉ l) : lastLine (a ++ l) = l := by
  rcases whole with rfl | ⟨b,rfl⟩
  · exact lastLineSame line
  · rw [List.append_assoc,List.singleton_append]
    induction b with
    | nil => rw [List.nil_append,lastLine,if_pos List.mem_cons_self,lastLineSame line]
    | cons c b ih => rw [List.cons_append,lastLine,if_pos (by simp),ih]

theorem lastLineRenamed {t : Text} (N : Text) (free : Unlabelled (lastLine t)) :
    lastLine (renames N t) = lastLine t := by
  obtain ⟨line,a,split,whole⟩ := lastLineSplit t
  generalize lastLine t = l at line split free
  subst split
  rw [renamesWhole whole,renamesUnlabelled free,lastLineWhole (wholeRenamed whole N) line]

theorem cutOpened {s : Text} (opened : ¬ opening <:+: s) : ¬ opening <:+: renames [] s :=
  renamesOpened (by simp) (by simp) opened

theorem cutClosed {s : Text} (closed : ¬ endNotesMarker <:+: s) : ¬ endNotesMarker <:+: renames [] s :=
  renamesClosed (by simp) (by decide) closed

section
variable {b : NotesBlock}

theorem outCut {N z y : Text} (name : '\n' ∉ N) (opened : Unlabelled (lastLine b.before)) (whole : Whole z)
    (closed : ¬ endNotesMarker <:+: z) (once : ¬ opening <:+: y) :
    cut (sectioned (renames N b.before) z y) =
      renames [] b.before ++ (opening ++ (endNotesMarker ++ renames [] y)) := by
  have front := onlyFront (by decide) b.opens
  have free : Unlabelled (lastLine (renames N b.before)) := by
    rw [lastLineRenamed N opened]
    exact opened
  have marker := @renamesSkip endNotesMarker y [] (fun s => markerUnlabelled (x := []) (.inr rfl)
    ⟨by decide,by decide⟩ s)
  have names : renames [] (sectioned (renames N b.before) z y) =
      sectioned (renames [] b.before) (renames [] z) (renames [] y) := by
    rw [sectioned,beforeRenamed [] _ free,cutRenamed name,renamesWhole whole,marker]
    rfl
  rw [cut,names,sectionCut (cutOpened front) (cutClosed closed) (cutOpened once)]

theorem inCut (opened : Unlabelled (lastLine b.before)) (ended : Unlabelled (lastLine b.notes)) :
    cut b.text = renames [] b.before ++ (opening ++ (endNotesMarker ++ renames [] b.after)) := by
  obtain ⟨front,_,behind⟩ := @renamedOpenings b [] (by simp) (by simp)
  have closed := onlyFront (by decide) b.closes
  rw [cut,sectionRenamed [] opened ended,sectionCut front (cutClosed (fun inside => closed ?_)) behind]
  exact inside.trans ((List.suffix_append opening _).trans (List.suffix_append _ _)).isInfix

end

theorem plainReads {w : Text} {pieces : List (Piece Char)} (plain : '\\' ∉ w)
    (reads : Reads 3 (w ++ templateEnd) pieces) (old rest : Text) :
    expand pieces (sectionMatch old rest) = w ++ '\n'::endNotesMarker := by
  obtain ⟨own,whole,stands⟩ := verbatimReads (plainVerbatim plain)
  have same := (templateIff.mpr reads).symm.trans (templateIff.mpr whole)
  rw [Except.ok.inj same,expandAppend,stands]
  rfl

theorem plainPieces {note : Text} {pieces : List (Piece Char)} (plain : '\\' ∉ note)
    (parsed : template 3 (notesTemplate note) = .ok pieces) : ∃ q,
    (∀ old rest, expand pieces (sectionMatch old rest) = q ++ '\n'::endNotesMarker) ∧
      ((∀ c ∈ note.head?, decimal c = false) ∧ q = opening ++ note ∨
        ∃ d e w k, note = d::e::w ∧ octal d = true ∧ octal e = true ∧
          k = Char.ofNat (numeral 8 ['1',d,e]) ∧ q = k::w) := by
  by_cases start : ∀ c ∈ note.head?, decimal c = false
  · obtain ⟨own,whole,expanded⟩ := carriesTemplate ⟨plainVerbatim plain,start⟩
    rw [parsed] at whole
    obtain rfl := Except.ok.inj whole
    refine ⟨opening ++ note,fun old rest => ?_,.inl ⟨start,rfl⟩⟩
    rw [expanded,List.append_assoc]
  · simp only [not_forall,Bool.not_eq_false] at start
    obtain ⟨c,mem,digit⟩ := start
    cases note with
    | nil => cases mem
    | cons d note =>
      obtain rfl : d = c := by simpa using mem
      obtain ⟨e,w,k,tail,rfl,two,three,code,rfl,reads⟩ := digitTemplate digit parsed
      refine ⟨k::w,fun old rest => ?_,.inr ⟨d,e,w,k,rfl,two,three,code,rfl⟩⟩
      have rest' : '\\' ∉ w := fun inside => plain (by simp [inside])
      rw [expandCons,plainReads rest' reads]
      rfl

theorem sectionShape {s before : Text} {m : Match Char} (found : search notesSection.re s = some (before,m)) :
    ∃ old, m = sectionMatch old m.rest ∧ s = sectioned before old m.rest := by
  obtain ⟨t,split,here⟩ := searchMatch found
  obtain ⟨k,j,first,next,rfl⟩ := matchSeq here
  obtain ⟨l,i,second,last,rfl⟩ := matchSeq next
  have opens := literalOnly (literalGroup opening 1) first
  have inside : l.groups = [(2,l.taken)] := by
    rw [lazyGroup anyChar 2 k.rest] at second
    obtain ⟨q,_,rfl⟩ := List.mem_map.mp second
    rfl
  have ends := literalOnly (literalGroup endNotesMarker 3) (List.mem_of_head? last)
  refine ⟨l.taken,?_,?_⟩
  · simp only [Match.before,opens,inside,ends]
    rfl
  · rw [split,triesSplit first,triesSplit second,opens.2]
    have tail : l.rest = endNotesMarker ++ i.rest := by
      have whole := triesSplit (List.mem_of_head? last)
      rwa [ends.2] at whole
    rw [tail]
    rfl

theorem cutNotesFound {s before old rest : Text} (found : search notesSection.re s = some (before,sectionMatch old rest)) :
    cutNotes s = before ++ (opening ++ (endNotesMarker ++ cutNotes rest)) := by
  have kept : expand [.group 1,.group 3] (sectionMatch old rest) = opening ++ endNotesMarker := rfl
  have left : (sectionMatch old rest).rest = rest := rfl
  rw [cutNotes,substituteSome found,kept,left,cutNotes]
  simp

theorem cutWithoutEnd {s : Text} (absent : ¬ endNotesMarker <:+: s) : cutNotes s = s :=
  substituteNone (searchLast (literalGroup endNotesMarker 3) absent)

theorem cutKeepsOpening {x s : Text} (opens : ¬ opening <:+: x) :
    ∃ t, cutNotes (x ++ (opening ++ s)) = x ++ (opening ++ t) := by
  cases found : search notesSection.re (x ++ (opening ++ s)) with
  | none => exact ⟨s,substituteNone found⟩
  | some k =>
    obtain ⟨before,m⟩ := k
    obtain ⟨old,shape,split⟩ := sectionShape found
    rw [shape] at found
    rw [cutNotesFound found]
    rw [sectioned] at split
    rcases List.append_eq_append_iff.mp split with ⟨v,longer,rest⟩ | ⟨v,longer,rest⟩
    · by_cases empty : v = []
      · rw [longer,empty,List.append_nil]
        exact ⟨_,rfl⟩
      · have front : opening <+: v := by
          have some : opening <:+: v := by
            by_contra absent
            exact noStartUnbordered (by decide) absent _ [] v rfl empty ⟨s,rest⟩
          refine List.prefix_of_prefix_length_le ⟨s,rest⟩ (List.prefix_append v _) some.length_le
        obtain ⟨w,own⟩ := front
        refine ⟨w ++ (opening ++ (endNotesMarker ++ cutNotes m.rest)),?_⟩
        rw [longer,← own]
        simp
    · by_cases empty : v = []
      · rw [longer,empty,List.append_nil]
        exact ⟨_,rfl⟩
      · exact absurd ⟨_,rest⟩ (noStartUnbordered (by decide) opens s before v longer empty)

theorem noOpening {l : Text} (absent : ¬ opening <:+: l ++ ['\n']) (s : Text) :
    NoStart opening (l ++ ['\n']) s := by
  intro x y split some front
  rcases List.eq_nil_or_concat y with rfl | ⟨v,c,rfl⟩
  · exact some rfl
  · rw [List.concat_eq_append,← List.append_assoc] at split
    have last : '\n' = c := (List.cons.inj (List.append_inj_right' split rfl)).1
    have before : l = x ++ v := List.append_inj_left' split rfl
    rw [List.concat_eq_append,← last] at front
    by_cases short : opening.length ≤ (v ++ ['\n']).length
    · have inside := List.prefix_of_prefix_length_le front (List.prefix_append _ s) short
      refine absent (inside.isInfix.trans ⟨x,[],?_⟩)
      rw [before]
      simp
    · have marker : notesMarker.length + 1 = opening.length := by decide
      have inside := List.prefix_of_prefix_length_le (List.prefix_append (v ++ ['\n']) s) front (by omega)
      have within := List.prefix_of_prefix_length_le inside (List.prefix_append notesMarker ['\n']) (by omega)
      exact absurd (within.subset (by simp)) (show '\n' ∉ notesMarker by decide)

theorem cutLine {a g s : Text} (whole : Whole a) (opens : ¬ opening <:+: a) (line : '\n' ∉ g) :
    ∃ t, cutNotes (a ++ (g ++ '\n'::s)) = a ++ (g ++ '\n'::t) := by
  by_cases ends : notesMarker <:+ g
  · obtain ⟨h,rfl⟩ := ends
    have front : ¬ opening <:+: a ++ h := by
      refine wholeOpened whole opens (fun inside => line ?_)
      exact List.mem_append_left _ (inside.subset (by decide))
    have shape (t : Text) : a ++ ((h ++ notesMarker) ++ '\n'::t) = (a ++ h) ++ (opening ++ t) := by
      simp [opening]
    obtain ⟨t,kept⟩ := @cutKeepsOpening _ s front
    exact ⟨t,by rw [shape,shape,kept]⟩
  · have absent : ¬ opening <:+: (a ++ g) ++ ['\n'] := by
      rw [List.append_assoc]
      exact wholeOpened whole opens (fun inside => ends (lineEnds line inside))
    have skip := @substituteSkip _ _ notesSection opening _ _ _ (literalGroup opening 1) rfl
      [.group 1,.group 3] _ _ (noOpening absent s)
    have shape (t : Text) : a ++ (g ++ '\n'::t) = ((a ++ g) ++ ['\n']) ++ t := by simp
    exact ⟨cutNotes s,by rw [shape,shape,cutNotes,skip,cutNotes]⟩

theorem openingKept {b : NotesBlock} {N q t : Text} (name : '\n' ∉ N)
    (opened : Unlabelled (lastLine b.before)) (same : cut (renames N b.before ++ (q ++ '\n'::t)) = cut b.text) :
    ∃ z, q ++ ['\n'] = opening ++ z := by
  have first : ∃ l r, '\n' ∉ l ∧ q ++ ['\n'] = l ++ '\n'::r := by
    by_cases more : '\n' ∈ q
    · obtain ⟨l,r,rfl,line⟩ := List.eq_append_cons_of_mem more
      exact ⟨l,r ++ ['\n'],line,by simp⟩
    · exact ⟨q,[],more,rfl⟩
  obtain ⟨l,r,line,start⟩ := first
  have front := onlyFront (by decide) b.opens
  obtain ⟨leadLine,a,split,whole⟩ := lastLineSplit b.before
  generalize lastLine b.before = lead at leadLine split opened
  have absent : ¬ opening <:+: renames [] a := by
    refine cutOpened (fun inside => front ?_)
    rw [split]
    exact inside.trans (List.prefix_append a lead).isInfix
  have out : renames [] (renames N b.before ++ (q ++ '\n'::t)) =
      renames [] a ++ (renames [] (lead ++ l) ++ '\n'::renames [] (r ++ t)) := by
    have shape : renames N b.before ++ (q ++ '\n'::t) = renames N a ++ ((lead ++ l) ++ '\n'::(r ++ t)) := by
      have tail : q ++ '\n'::t = l ++ '\n'::(r ++ t) := by
        have whole : (q ++ ['\n']) ++ t = (l ++ '\n'::r) ++ t := by rw [start]
        simpa using whole
      rw [split,renamesWhole whole,renamesUnlabelled opened,tail]
      simp
    rw [shape,renamesWhole (wholeRenamed whole N),cutRenamed name,renamesBreak]
  have own : renames [] b.text = renames [] a ++ ((lead ++ notesMarker) ++
      '\n'::renames [] (b.notes ++ (endNotesMarker ++ b.after))) := by
    have shape : b.text = a ++ ((lead ++ notesMarker) ++ '\n'::(b.notes ++ (endNotesMarker ++ b.after))) := by
      rw [NotesBlock.text,sectioned,split]
      simp [opening]
    rw [shape,renamesWhole whole,renamesBreak,renamesUnlabelled (markerFree (.inl rfl) opened)]
  have cutLead : '\n' ∉ renames [] (lead ++ l) := renamesLine (by simp) (by simp [leadLine,line])
  have marked : '\n' ∉ lead ++ notesMarker := by
    have marker : '\n' ∉ notesMarker := by decide
    simp [leadLine,marker]
  obtain ⟨u,left⟩ := @cutLine _ _ (renames [] (r ++ t)) (wholeRenamed whole []) absent cutLead
  obtain ⟨v,right⟩ := @cutLine _ _ (renames [] (b.notes ++ (endNotesMarker ++ b.after))) (wholeRenamed whole [])
    absent marked
  rw [cut,cut,out,own,left,right] at same
  have even := sameLine cutLead marked (List.append_cancel_left same)
  by_cases free : Unlabelled (lead ++ l)
  · rw [renamesUnlabelled free] at even
    refine ⟨r,?_⟩
    rw [start,List.append_cancel_left even]
    simp [opening]
  · obtain ⟨p,y,labelled,label⟩ := labelFound free
    have rest : '\n' ∉ y := by
      intro mem
      have all : '\n' ∈ lead ++ l := by rw [labelled]; simp [mem]
      simp [leadLine,line] at all
    rw [labelled,cutLabel label rest] at even
    exact absurd ⟨lead,even.symm⟩ (labelOpened label)

theorem renamedPlain {b : NotesBlock} (plain : '\\' ∉ b.notes) : '\\' ∉ b.renamedNotes := by
  intro mem
  rcases renamesMember (blockNameLine b) b.notes _ mem with old | new
  · exact plain old
  · exact blockNamePlain b new

theorem apartClosed {b : NotesBlock} (apart : endNotesMarker <:+: b.newName → Unlabelled b.notes) :
    ¬ endNotesMarker <:+: b.renamedNotes := by
  have front := onlyFront (by decide) b.closes
  have closed : ¬ endNotesMarker <:+: b.notes := fun inside =>
    front (inside.trans ((List.suffix_append opening _).trans (List.suffix_append b.before _)).isInfix)
  by_cases own : endNotesMarker <:+: b.newName
  · rwa [NotesBlock.renamedNotes,renamesUnlabelled (apart own)]
  · exact renamesClosed (blockNameLine b) own closed

theorem framedOut {b : NotesBlock} {z : Text} (opened : Unlabelled (lastLine b.before))
    (ended : Unlabelled (lastLine b.notes)) (whole : Whole z) (closed : ¬ endNotesMarker <:+: z)
    (run : handleTestCase b.text = .ok (sectioned (renames b.newName b.before) z (renames b.newName b.after))) :
    Framed b := by
  obtain ⟨_,_,behind⟩ := @renamedOpenings b _ (blockNameLine b) (blockNameLast b)
  refine ⟨_,run,?_⟩
  rw [outCut (blockNameLine b) opened whole closed behind,cutRenamed (blockNameLine b),inCut opened ended]

/- An octal escape gives the letter back that the reference stood for. -/
theorem octalPieces {w : Text} (plain : '\\' ∉ w) : ∃ pieces,
    template 3 (notesTemplate ('2' :: '4' :: w)) = .ok pieces ∧
      ∀ old rest, expand pieces (sectionMatch old rest) = 'T'::(w ++ '\n'::endNotesMarker) := by
  obtain ⟨pieces,reads,stands⟩ := verbatimReads (plainVerbatim plain)
  refine ⟨.text ['T']::(pieces ++ [.text ['\n'],.group 3]),?_,fun old rest => ?_⟩
  · rw [notesTemplateShape,templateIff]
    exact .escape rfl reads
  · rw [expandCons,expandAppend,stands]
    rfl

theorem wholeEnd {a z t : Text} (split : a ++ ['\n'] = t ++ z) : Whole z := by
  rcases List.eq_nil_or_concat z with rfl | ⟨u,c,rfl⟩
  · exact .inl rfl
  · rw [List.concat_eq_append,← List.append_assoc] at split
    have last := (List.cons.inj (List.append_inj_right' split rfl)).1
    exact .inr ⟨u,by rw [List.concat_eq_append,last]⟩

theorem octalSplit {note z : Text} (split : "24EST.NOTES:\n".toList ++ z = note ++ ['\n']) :
    ∃ w, note = '2' :: '4' :: w ∧ opening ++ z = 'T'::(w ++ ['\n']) := by
  have start : "24EST.NOTES:\n".toList = '2' :: '4' :: opening.tail := by decide
  have whole : opening = 'T'::opening.tail := by decide
  rw [start] at split
  cases note with
  | nil => exact absurd (List.cons.inj split).1 (by decide)
  | cons c note =>
    obtain ⟨first,rest⟩ := List.cons.inj split
    cases note with
    | nil => exact absurd (List.cons.inj rest).1 (by decide)
    | cons d w =>
      obtain ⟨second,rest⟩ := List.cons.inj rest
      refine ⟨w,by rw [first,second],?_⟩
      rw [whole]
      exact congrArg ('T' :: ·) rest

theorem octalLetter {d e : Char} (two : octal d = true) (three : octal e = true)
    (code : 'T' = Char.ofNat (numeral 8 ['1',d,e])) : d = '2' ∧ e = '4' := by
  have codes : ∀ i j : Fin 8, 'T' = Char.ofNat (numeral 8 ['1',Char.ofNat (48+i),Char.ofNat (48+j)]) →
      Char.ofNat (48+i) = '2' ∧ Char.ofNat (48+j) = '4' := by decide
  have digit : ∀ c, octal c = true → ∃ i : Fin 8, c = Char.ofNat (48+i) := by
    intro c own
    simp only [octal,Bool.and_eq_true,decide_eq_true_eq] at own
    exact charBetween own.1 own.2
  obtain ⟨i,rfl⟩ := digit d two
  obtain ⟨j,rfl⟩ := digit e three
  exact codes i j code

theorem steadyFramed {b : NotesBlock} (plain : '\\' ∉ b.notes) (steady : Steady b) : Framed b := by
  obtain ⟨front,_,behind⟩ := @renamedOpenings b _ (blockNameLine b) (blockNameLast b)
  obtain ⟨note,rewritten,fits⟩ := steady.fits
  have closed := apartClosed steady.apart
  have noteEnds := closedLine (noteClosed rewritten closed)
  have clear := noteSlash rewritten (renamedPlain plain)
  have run := fun pieces parsed => @sectionRun b _ _ _ note (sectionRenamed _ steady.opened steady.ended) front
    closed behind rewritten pieces parsed
  rcases fits with start | octal
  · obtain ⟨pieces,parsed,expanded⟩ := carriesTemplate ⟨plainVerbatim clear,start⟩
    refine framedOut steady.opened steady.ended (.inr ⟨note,rfl⟩) noteEnds ?_
    rw [run pieces parsed,expanded,sectioned]
    simp
  · obtain ⟨z,split⟩ := octal
    obtain ⟨w,rfl,same⟩ := octalSplit split
    obtain ⟨pieces,parsed,expanded⟩ := octalPieces (fun mem => clear (by simp [mem]) : '\\' ∉ w)
    refine framedOut (z := z) steady.opened steady.ended (wholeEnd split.symm) (fun inside => noteEnds ?_) ?_
    · rw [← split]
      exact inside.trans (List.suffix_append _ z).isInfix
    · rw [run pieces parsed,expanded,sectioned]
      have shape : 'T'::(w ++ '\n'::endNotesMarker) = opening ++ (z ++ endNotesMarker) := by
        rw [← List.append_assoc,same]
        simp
      rw [shape]
      simp

section
variable {b : NotesBlock} {n y : Text}

theorem framedSection (framed : Framed b) (opened : Unlabelled (lastLine b.before))
    (shape : renames b.newName b.text = sectioned (renames b.newName b.before) n y)
    (closed : ¬ endNotesMarker <:+: n) (once : ¬ opening <:+: y) (plain : '\\' ∉ n) :
    (∃ note, handleTestNote n = .ok note ∧ Fits note) ∧
      cut b.text = renames [] b.before ++ (opening ++ (endNotesMarker ++ renames [] y)) := by
  obtain ⟨out,run,same⟩ := framed
  obtain ⟨front,_,_⟩ := @renamedOpenings b _ (blockNameLine b) (blockNameLast b)
  obtain ⟨note,rewritten⟩ := handleTestNoteOk n
  have clear := noteSlash rewritten plain
  have noteEnds := closedLine (noteClosed rewritten closed)
  cases parsed : template 3 (notesTemplate note) with
  | error e =>
    rw [sectionFails shape front closed rewritten parsed] at run
    cases run
  | ok pieces =>
    obtain ⟨q,expanded,forms⟩ := plainPieces clear parsed
    rw [sectionRun shape front closed once rewritten parsed,expanded] at run
    have text : out = renames b.newName b.before ++ (q ++ '\n'::(endNotesMarker ++ y)) := by
      rw [← Except.ok.inj run]
      simp
    rw [text] at same
    obtain ⟨z,split⟩ := openingKept (blockNameLine b) opened same
    have shown : renames b.newName b.before ++ (q ++ '\n'::(endNotesMarker ++ y)) =
        sectioned (renames b.newName b.before) z y := by
      have tail : q ++ '\n'::(endNotesMarker ++ y) = (q ++ ['\n']) ++ (endNotesMarker ++ y) := by simp
      rw [tail,split,sectioned,List.append_assoc]
    have kept : Fits note ∧ ¬ endNotesMarker <:+: z := by
      rcases forms with ⟨start,rfl⟩ | ⟨d,e,w,k,rfl,two,three,code,rfl⟩
      · rw [List.append_assoc] at split
        refine ⟨.inl start,?_⟩
        rw [← List.append_cancel_left split]
        exact noteEnds
      · have whole : opening = 'T'::opening.tail := by decide
        have start : "24EST.NOTES:\n".toList = '2' :: '4' :: opening.tail := by decide
        rw [whole] at split
        obtain ⟨letter,rest⟩ := List.cons.inj split
        rw [letter] at code
        obtain ⟨rfl,rfl⟩ := octalLetter two three code
        refine ⟨.inr ⟨z,?_⟩,fun inside => noteEnds ?_⟩
        · rw [start]
          exact congrArg ('2' :: '4' :: ·) rest.symm
        · have later : w ++ ['\n'] = opening.tail ++ z := rest
          rw [List.cons_append,List.cons_append,later]
          exact inside.trans ⟨'2' :: '4' :: opening.tail,[],by simp⟩
    refine ⟨⟨note,rewritten,kept.1⟩,?_⟩
    rw [← same,shown,outCut (blockNameLine b) opened (wholeEnd split) kept.2 once]

/- A name with a closing marker in it, behind a label in the notes, closes the section there. -/
theorem framedEarly (framed : Framed b) (opened : Unlabelled (lastLine b.before)) (plain : '\\' ∉ b.notes)
    (own : endNotesMarker <:+: b.newName) {p s : Text} (notes : b.notes = p ++ s) (label : Label p) :
    ∃ x y : Text, cut b.text = renames [] b.before ++ (opening ++ (endNotesMarker ++ renames [] y)) ∧
      x.count '\n' ≤ p.count '\n' ∧ x.count '\n' + y.count '\n' = b.notes.count '\n' + b.after.count '\n' := by
  have name := blockNameLine b
  obtain ⟨w,rest,renamed,line,letters⟩ := labelFront (s ++ (endNotesMarker ++ b.after)) label name
  rw [← List.append_assoc,← notes] at renamed
  have inside : endNotesMarker <:+: p ++ (w ++ b.newName) :=
    own.trans ((List.suffix_append w _).trans (List.suffix_append p _)).isInfix
  obtain ⟨x,y,early,first⟩ := firstOccurrence inside
  have body : renames b.newName (b.notes ++ (endNotesMarker ++ b.after)) =
      x ++ (endNotesMarker ++ (y ++ rest)) := by
    rw [renamed,early]
    simp
  have shape : renames b.newName b.text = sectioned (renames b.newName b.before) x (y ++ rest) := by
    rw [NotesBlock.text,sectioned,beforeRenamed _ _ opened,body]
    rfl
  have closed : ¬ endNotesMarker <:+: x := absentOfNoStart (by decide) (first [])
  have once : ¬ opening <:+: y ++ rest := by
    intro within
    have absent := @tailOpening b _ name (blockNameLast b)
    refine absent (within.trans ?_)
    rw [body]
    exact ((List.suffix_append endNotesMarker _).trans (List.suffix_append x _)).isInfix
  have clear : '\\' ∉ x := by
    intro mem
    have all : '\\' ∈ p ++ (w ++ b.newName) := by rw [early]; simp [mem]
    rcases List.mem_append.mp all with front | new
    · exact plain (by rw [notes]; simp [front])
    · exact blockNamePlain b (letters _ new)
  have breaks := renamesBreaks name (b.notes ++ (endNotesMarker ++ b.after))
  have marker : endNotesMarker.count '\n' = 0 := by decide
  have fewer := congrArg (List.count '\n') early
  have none := List.count_eq_zero_of_not_mem line
  rw [body] at breaks
  simp only [List.count_append] at breaks fewer none
  refine ⟨x,y ++ rest,(framedSection framed opened shape closed once clear).2,by omega,?_⟩
  rw [List.count_append]
  omega

end

theorem lastLineAppend {s t : Text} (line : '\n' ∉ t) : lastLine (s ++ t) = lastLine s ++ t := by
  obtain ⟨free,a,split,whole⟩ := lastLineSplit s
  generalize lastLine s = l at free split
  subst split
  rw [List.append_assoc,lastLineWhole whole]
  simp [free,line]

theorem framedSteady {b : NotesBlock} (plain : '\\' ∉ b.notes) (framed : Framed b) : Steady b := by
  have run := framed
  obtain ⟨out,run,_⟩ := run
  have opened : Unlabelled (lastLine b.before) := by
    by_contra labelled
    rw [unopened (openingLost (blockNameLine b) (blockNameLast b) labelled)] at run
    cases run
  have ended : Unlabelled (lastLine b.notes) := by
    by_contra labelled
    by_cases own : endNotesMarker <:+: b.newName
    · have whole : ¬ Unlabelled b.notes := by
        intro free
        refine labelled (unlabelledPart ?_ free)
        obtain ⟨_,a,split,_⟩ := lastLineSplit b.notes
        exact ⟨a,[],by rw [List.append_nil,← split]⟩
      obtain ⟨p,s,notes,label⟩ := labelFound whole
      obtain ⟨x,y,early,_⟩ := framedEarly framed opened plain own notes label
      have absent := @closingLost b [] (by simp) (by decide) labelled
      rw [cut,cutWithoutEnd absent] at early
      refine absent ?_
      rw [early]
      exact ⟨renames [] b.before ++ opening,renames [] y,by simp⟩
    · rw [unclosed (closingLost (blockNameLine b) own labelled)] at run
      cases run
  have apart : endNotesMarker <:+: b.newName → Unlabelled b.notes := by
    intro own
    by_contra labelled
    obtain ⟨p,s,notes,label⟩ := labelFound labelled
    obtain ⟨x,y,early,fewer,breaks⟩ := framedEarly framed opened plain own notes label
    rw [inCut opened ended] at early
    have later := List.append_cancel_left (List.append_cancel_left (List.append_cancel_left early))
    have same := congrArg (List.count '\n') later
    have all := congrArg (List.count '\n') notes
    rw [renamesBreaks (by simp),renamesBreaks (by simp)] at same
    rw [List.count_append] at all
    have line : '\n' ∉ s := List.count_eq_zero.mp (by omega)
    have last : ∀ m x, '\n' ∉ m → p = x ++ m → m <:+: lastLine b.notes := by
      intro m x free split
      rw [notes,split,List.append_assoc,lastLineAppend (by simp [free,line])]
      exact ⟨lastLine x,s,by simp⟩
    obtain ⟨x',_,title | name⟩ := labelEnd label
    · exact ended.1 (last _ x' (by decide) title)
    · exact ended.2 (last _ x' (by decide) name)
  have closed := apartClosed apart
  obtain ⟨_,_,behind⟩ := @renamedOpenings b _ (blockNameLine b) (blockNameLast b)
  have fits := (framedSection framed opened (sectionRenamed _ opened ended) closed behind (renamedPlain plain)).1
  exact ⟨opened,ended,apart,fits⟩

theorem framedExactly (b : NotesBlock) (plain : '\\' ∉ b.notes) : Framed b ↔ Steady b :=
  ⟨framedSteady plain,steadyFramed plain⟩

def pathNotes : NotesBlock :=
  sampleNotes "This is an automatically generated test case.\n".toList (by decide +kernel) (by decide +kernel)

def numberedNotes : NotesBlock :=
  sampleNotes "1. This is an automatically generated test case.\n".toList (by decide +kernel) (by decide +kernel)

theorem samplePathFramed : Framed pathNotes := by
  have note : handleTestNote pathNotes.notes = .ok "Test Case Description:\n".toList :=
    sampleNote (x := []) (r := ['\n']) (by decide +kernel) (by decide) (by decide +kernel) (by decide +kernel)
      (by decide +kernel)
  have free : Unlabelled pathNotes.notes := ⟨by decide +kernel,by decide +kernel⟩
  have same : pathNotes.renamedNotes = pathNotes.notes := renamesUnlabelled free
  refine (framedExactly pathNotes (by decide +kernel)).mpr ⟨⟨by decide,by decide⟩,⟨by decide,by decide⟩,
    fun _ => free,_,by rw [same]; exact note,.inl (eachOption (by decide))⟩

theorem numberedNotesFail : ¬ Framed numberedNotes := by
  intro framed
  have note : handleTestNote numberedNotes.notes = .ok "1. Test Case Description:\n".toList :=
    sampleNote (x := ['1','.',' ']) (r := ['\n']) (by decide +kernel) (by decide) (by decide +kernel)
      (by decide +kernel) (by decide +kernel)
  have same : numberedNotes.renamedNotes = numberedNotes.notes :=
    renamesUnlabelled ⟨by decide +kernel,by decide +kernel⟩
  obtain ⟨_,rewritten,fits⟩ := (framedSteady (by decide +kernel) framed).fits
  rw [same,note] at rewritten
  cases rewritten
  rcases fits with start | octal
  · exact absurd (start '1' (by decide)) (by decide)
  · exact absurd octal (by decide +kernel)

end KernelTestTools.TestScript
