import KernelTestTools.NoteTemplates

/-! A test case with one section of notes, for any text around and inside it. The renaming
goes line by line: a line without a title or a name stays, any other keeps what stands up to
the first of the two markers and gets the new name behind it. -/
namespace KernelTestTools.TestScript
open TextFile Regex

theorem titleSome : titleMarker ≠ [] := by decide

theorem nameSome : nameMarker ≠ [] := by decide

def renames (N s : Text) : Text :=
  substitute (lineWith nameMarker nameSome) (renamedTo N) (substitute (lineWith titleMarker titleSome) (renamedTo N) s)

def Unlabelled (t : Text) : Prop := ¬ titleMarker <:+: t ∧ ¬ nameMarker <:+: t

/- A text up to its first title or name. -/
def Label (p : Text) : Prop := ¬ Unlabelled p ∧ ∀ q, q <+: p → q ≠ p → Unlabelled q

theorem linewise {motive : Text → Prop} (last : ∀ l, '\n' ∉ l → motive l)
    (line : ∀ l s, '\n' ∉ l → motive s → motive (l ++ '\n'::s)) (s : Text) : motive s := by
  induction hn : s.length using Nat.strong_induction_on generalizing s with
  | _ n ih =>
    by_cases whole : '\n' ∈ s
    · obtain ⟨l,t,rfl,free⟩ := List.eq_append_cons_of_mem whole
      refine line l t free (ih t.length ?_ t rfl)
      rw [← hn,List.length_append,List.length_cons]
      omega
    · exact last s whole

theorem lineInfix {u l s : Text} (line : '\n' ∉ u) (inside : u <:+: l ++ '\n'::s) :
    u <:+: l ∨ u <:+: s := by
  by_contra none
  simp only [not_or] at none
  refine absentAppend (noStartLine line none.1 s) none.2 ?_
  simpa using inside

theorem closedLine {t : Text} (closed : ¬ endNotesMarker <:+: t) : ¬ endNotesMarker <:+: t ++ ['\n'] := by
  intro inside
  rcases lineInfix (by decide) inside with here | later
  · exact closed here
  · exact absurd later (by decide)

theorem lineSuffix {u l s : Text} (line : '\n' ∉ u) (inside : u ++ ['\n'] <:+: l ++ '\n'::s) :
    u ++ ['\n'] <:+: l ++ ['\n'] ∨ u ++ ['\n'] <:+: s := by
  obtain ⟨x,y,same⟩ := inside
  have split : (x ++ u) ++ '\n'::y = l ++ '\n'::s := by
    rw [← same]
    simp
  rcases List.append_eq_append_iff.mp split with ⟨v,longer,rest⟩ | ⟨v,longer,rest⟩
  · cases v with
    | nil => exact .inl ⟨x,[],by rw [longer]; simp⟩
    | cons c v =>
      have first : '\n' = c := (List.cons.inj rest).1
      exact .inl ⟨x,v ++ ['\n'],by rw [longer,← first]; simp⟩
  · cases v with
    | nil => exact .inl ⟨x,[],by rw [List.append_nil] at longer; rw [← longer]; simp⟩
    | cons c v =>
      obtain ⟨first,rest⟩ := List.cons.inj rest
      rw [← first] at longer
      have own : u <:+ l ++ '\n'::v := ⟨x,longer⟩
      have right : u <:+ v := by
        rcases List.suffix_or_suffix_of_suffix own (List.suffix_append l _) with short | long
        · rcases List.suffix_cons_iff.mp short with same | inner
          · exact absurd (by rw [same]; simp) line
          · exact inner
        · exact absurd (long.subset List.mem_cons_self) line
      obtain ⟨w,rfl⟩ := right
      exact .inr ⟨w,y,by rw [rest]; simp⟩

theorem lineEnds {u l : Text} (whole : '\n' ∉ l) (inside : u ++ ['\n'] <:+: l ++ ['\n']) : u <:+ l := by
  obtain ⟨x,y,same⟩ := inside
  rcases List.eq_nil_or_concat y with rfl | ⟨y,c,rfl⟩
  · rw [List.append_nil,← List.append_assoc] at same
    exact ⟨x,List.append_inj_left' same rfl⟩
  · rw [List.concat_eq_append,← List.append_assoc] at same
    have front := List.append_inj_left' same rfl
    exact absurd (by rw [← front]; simp) whole

section
variable {m N : Text} {some : m ≠ []}

theorem labelledEnd {x y : Text} (first : NoStart m x (m ++ y)) (line : '\n' ∉ y) :
    substitute (lineWith m some) (renamedTo N) (x ++ (m ++ y)) = x ++ (m ++ N) := by
  have found := searchToEnd (s := []) (literalGroup m 1) (greedyGroup inLine 0 2) (by simpa using first)
    (insideLine line) rfl
  rw [List.append_nil] at found
  rw [substituteSome (r := lineWith m some) found,substituteEmpty,List.append_nil]
  have group : Match.group ⟨[(1,m)] ++ [(2,y)],m ++ y,[]⟩ 1 = m := by simp [Match.group]
  have rest := @expandText N ⟨[(1,m)] ++ [(2,y)],m ++ y,[]⟩
  rw [expand] at rest ⊢
  rw [renamedTo,List.flatMap_cons,rest]
  simp only [group]

theorem unmarkedKept {s : Text} (absent : ¬ m <:+: s) :
    substitute (lineWith m some) (renamedTo N) s = s :=
  substituteNone (searchLiteralNone (literalGroup m 1) absent)

theorem lineKept {y : Text} (line : '\n' ∉ y) (name : '\n' ∉ N) :
    '\n' ∉ substitute (lineWith m some) (renamedTo N) y := by
  by_cases inside : m <:+: y
  · obtain ⟨x,z,rfl,first⟩ := firstOccurrence inside
    have own := first []
    rw [List.append_nil] at own
    simp only [List.mem_append,not_or] at line
    rw [labelledEnd own line.2.2]
    simp [line,name]
  · rwa [unmarkedKept inside]

theorem lineBreak (hm : m ∈ markers) (a b : Text) :
    substitute (lineWith m some) (renamedTo N) (a ++ '\n'::b) =
      substitute (lineWith m some) (renamedTo N) a ++
        '\n'::substitute (lineWith m some) (renamedTo N) b := by
  induction hn : a.length using Nat.strong_induction_on generalizing a with
  | _ n ih =>
    by_cases inside : m <:+: a
    · obtain ⟨x,y,rfl,first⟩ := firstOccurrence inside
      by_cases more : '\n' ∈ y
      · obtain ⟨l,t,rfl,line⟩ := List.eq_append_cons_of_mem more
        have shorter : t.length < n := by
          rw [← hn]
          simp only [List.length_append,List.length_cons]
          omega
        have rest := ih _ shorter t rfl
        have whole := first ('\n'::b)
        have own := first []
        simp only [List.append_assoc,List.cons_append,List.append_nil] at whole own ⊢
        rw [renamedLine hm whole line,renamedLine hm own line,rest]
        simp
      · have whole := first ('\n'::b)
        have own := first []
        rw [List.append_nil] at own
        rw [labelledEnd own more,List.append_assoc,List.append_assoc,renamedLine hm whole more]
        simp
    · rw [unmarkedKept inside]
      have free := noStartLine (markersOneLine m hm).1 inside b
      have kept := @keptText m N some _ _ free
      simpa using kept

end

theorem renamesBreak (N a b : Text) : renames N (a ++ '\n'::b) = renames N a ++ '\n'::renames N b := by
  rw [renames,lineBreak (by decide),lineBreak (by decide)]
  rfl

theorem renamesUnlabelled {N s : Text} (free : Unlabelled s) : renames N s = s := by
  rw [renames,unmarkedKept free.1,unmarkedKept free.2]

theorem unlabelledPart {s t : Text} (inside : s <:+: t) (free : Unlabelled t) : Unlabelled s :=
  ⟨fun title => free.1 (title.trans inside),fun name => free.2 (name.trans inside)⟩

theorem labelFound {s : Text} (labelled : ¬ Unlabelled s) : ∃ p y, s = p ++ y ∧ Label p := by
  induction hn : s.length using Nat.strong_induction_on generalizing s with
  | _ n ih =>
    by_cases least : ∀ q, q <+: s → q ≠ s → Unlabelled q
    · exact ⟨s,[],by simp,labelled,least⟩
    · simp only [not_forall] at least
      obtain ⟨q,⟨t,rfl⟩,proper,own⟩ := least
      have some : t ≠ [] := by
        intro empty
        simp [empty] at proper
      have positive := List.length_pos_iff.mpr some
      obtain ⟨p,y,rfl,label⟩ := ih q.length (by rw [← hn,List.length_append]; omega) own rfl
      exact ⟨p,y ++ t,by simp,label⟩

theorem labelEnd {p : Text} (label : Label p) :
    ∃ x, Unlabelled x ∧ (p = x ++ titleMarker ∨ p = x ++ nameMarker) := by
  obtain ⟨labelled,least⟩ := label
  have ends : ∀ m, m ≠ [] → (∀ t, m <:+: t → ¬ Unlabelled t) → m <:+: p →
      ∃ x, Unlabelled x ∧ p = x ++ m := by
    intro m some marks inside
    obtain ⟨x,y,same⟩ := inside
    have front : x ++ m = p := by
      by_contra proper
      exact marks _ ⟨x,[],by simp⟩ (least (x ++ m) ⟨y,same⟩ proper)
    refine ⟨x,least x ⟨m,front⟩ ?_,front.symm⟩
    intro whole
    rw [← whole] at front
    exact some (List.append_right_eq_self.mp front)
  by_cases title : titleMarker <:+: p
  · obtain ⟨x,free,split⟩ := ends _ (by decide) (fun t inside free => free.1 inside) title
    exact ⟨x,free,.inl split⟩
  · have name : nameMarker <:+: p := by
      by_contra name
      exact labelled ⟨title,name⟩
    obtain ⟨x,free,split⟩ := ends _ (by decide) (fun t inside free => free.2 inside) name
    exact ⟨x,free,.inr split⟩

/- A line with a label keeps it and gets the new name, twice if the name has a marker itself. -/
theorem labelRenamed {p y N : Text} (label : Label p) (line : '\n' ∉ y) (name : '\n' ∉ N) :
    ∃ w, renames N (p ++ y) = p ++ (w ++ N) ∧
      (w = [] ∨ ∃ n n', N = n ++ (nameMarker ++ n') ∧ w = n ++ nameMarker) := by
  obtain ⟨x,free,rfl | rfl⟩ := labelEnd label
  · have first : NoStart titleMarker x (titleMarker ++ y) := noStartUnbordered (by decide) free.1 y
    rw [renames,List.append_assoc,labelledEnd first line]
    have before : NoStart nameMarker x (titleMarker ++ N) :=
      noStartBefore free.2 (markersApart titleMarker (by decide) nameMarker (by decide) (by decide)) N
    have title : NoStart nameMarker titleMarker N :=
      noStartApart (markersApart nameMarker (by decide) titleMarker (by decide) (by decide)) N
    by_cases again : nameMarker <:+: N
    · obtain ⟨n,n',rfl,later⟩ := firstOccurrence again
      have own := later []
      rw [List.append_nil] at own
      have whole := noStartAppend (noStartAppend before title) own
      have after : '\n' ∉ n' := fun mem => name (by simp [mem])
      have renamed := @labelledEnd nameMarker (n ++ (nameMarker ++ n')) (by decide) _ _ whole after
      refine ⟨n ++ nameMarker,?_,.inr ⟨n,n',rfl,rfl⟩⟩
      simpa using renamed
    · refine ⟨[],?_,.inl rfl⟩
      rw [unmarkedKept (absentAppend before (absentAppend title again))]
      simp
  · have before : NoStart titleMarker x (nameMarker ++ y) :=
      noStartBefore free.1 (markersApart nameMarker (by decide) titleMarker (by decide) (by decide)) y
    have marker : NoStart titleMarker nameMarker y :=
      noStartApart (markersApart titleMarker (by decide) nameMarker (by decide) (by decide)) y
    rw [renames,keptText (noStartAppend before marker),List.append_assoc]
    have later := @lineKept titleMarker N (by decide) y line name
    refine ⟨[],?_,.inl rfl⟩
    rw [labelledEnd (noStartUnbordered (by decide) free.2 _) later]
    simp

theorem labelFront {N p : Text} (s : Text) (label : Label p) (name : '\n' ∉ N) :
    ∃ w rest, renames N (p ++ s) = (p ++ (w ++ N)) ++ rest ∧ '\n' ∉ w ++ N ∧ (∀ c ∈ w ++ N, c ∈ N) := by
  have forms : ∀ w, (w = [] ∨ ∃ n n', N = n ++ (nameMarker ++ n') ∧ w = n ++ nameMarker) →
      ∀ c ∈ w ++ N, c ∈ N := by
    intro w forms c mem
    rcases List.mem_append.mp mem with more | own
    · rcases forms with rfl | ⟨n,n',rfl,rfl⟩
      · cases more
      · rcases List.mem_append.mp more with first | marker
        · exact List.mem_append_left _ first
        · exact List.mem_append_right _ (List.mem_append_left _ marker)
    · exact own
  by_cases more : '\n' ∈ s
  · obtain ⟨l,t,rfl,line⟩ := List.eq_append_cons_of_mem more
    obtain ⟨w,renamed,shape⟩ := labelRenamed label line name
    refine ⟨w,'\n'::renames N t,?_,fun mem => name (forms w shape _ mem),forms w shape⟩
    rw [← List.append_assoc,renamesBreak,renamed]
  · obtain ⟨w,renamed,shape⟩ := labelRenamed label more name
    exact ⟨w,[],by rw [renamed,List.append_nil],fun mem => name (forms w shape _ mem),forms w shape⟩

theorem lineForms {N l : Text} (line : '\n' ∉ l) (name : '\n' ∉ N) : renames N l = l ∨
    ∃ p y w, l = p ++ y ∧ Label p ∧ renames N l = p ++ (w ++ N) ∧
      (w = [] ∨ ∃ n n', N = n ++ (nameMarker ++ n') ∧ w = n ++ nameMarker) := by
  by_cases free : Unlabelled l
  · exact .inl (renamesUnlabelled free)
  · obtain ⟨p,y,rfl,label⟩ := labelFound free
    obtain ⟨w,renamed,forms⟩ := labelRenamed label
      (fun mem => line (List.mem_append_right p mem)) name
    exact .inr ⟨p,y,w,rfl,label,renamed,forms⟩

theorem cutLabel {p y : Text} (label : Label p) (line : '\n' ∉ y) : renames [] (p ++ y) = p := by
  obtain ⟨w,renamed,none | ⟨n,n',empty,_⟩⟩ := labelRenamed label line (N := []) (by simp)
  · rw [renamed,none]
    simp
  · have some : nameMarker ≠ [] := by decide
    simp [some] at empty

theorem cutRenamed {N : Text} (name : '\n' ∉ N) (s : Text) : renames [] (renames N s) = renames [] s := by
  have one : ∀ l, '\n' ∉ l → renames [] (renames N l) = renames [] l := by
    intro l line
    rcases lineForms line name with same | ⟨p,y,w,rfl,label,renamed,forms⟩
    · rw [same]
    · have after : '\n' ∉ w ++ N := by
        rcases forms with rfl | ⟨n,n',rfl,rfl⟩
        · exact name
        · simp only [List.mem_append,not_or] at name ⊢
          exact ⟨⟨name.1,name.2.1⟩,name⟩
      rw [renamed,cutLabel label after,cutLabel label (fun mem => line (by simp [mem]))]
  induction s using linewise with
  | last l line => exact one l line
  | line l s line ih => rw [renamesBreak,renamesBreak,renamesBreak,one l line,ih]

theorem renamesMember {N : Text} (name : '\n' ∉ N) (s : Text) : ∀ c ∈ renames N s, c ∈ s ∨ c ∈ N := by
  have one : ∀ l, '\n' ∉ l → ∀ c ∈ renames N l, c ∈ l ∨ c ∈ N := by
    intro l line c mem
    rcases lineForms line name with same | ⟨p,y,w,rfl,label,renamed,forms⟩
    · rw [same] at mem
      exact .inl mem
    · rw [renamed,List.mem_append,List.mem_append] at mem
      rcases mem with front | more | new
      · exact .inl (by simp [front])
      · rcases forms with rfl | ⟨n,n',rfl,rfl⟩
        · cases more
        · refine .inr ?_
          rcases List.mem_append.mp more with own | marker
          · simp [own]
          · simp [marker]
      · exact .inr new
  induction s using linewise with
  | last l line => exact one l line
  | line l s line ih =>
    intro c mem
    rw [renamesBreak] at mem
    simp only [List.mem_append,List.mem_cons] at mem ⊢
    rcases mem with front | same | later
    · rcases one l line c front with old | new
      · exact .inl (.inl old)
      · exact .inr new
    · exact .inl (.inr (.inl same))
    · rcases ih c later with old | new
      · exact .inl (.inr (.inr old))
      · exact .inr new

theorem renamesLine {N l : Text} (name : '\n' ∉ N) (line : '\n' ∉ l) : '\n' ∉ renames N l := by
  intro mem
  rcases renamesMember name l _ mem with old | new
  · exact line old
  · exact name new

theorem renamesBreaks {N : Text} (name : '\n' ∉ N) (s : Text) : (renames N s).count '\n' = s.count '\n' := by
  have one : ∀ l, '\n' ∉ l → (renames N l).count '\n' = l.count '\n' := by
    intro l line
    rw [List.count_eq_zero_of_not_mem (renamesLine name line),List.count_eq_zero_of_not_mem line]
  induction s using linewise with
  | last l line => exact one l line
  | line l s line ih =>
    rw [renamesBreak,List.count_append,List.count_append,List.count_cons,List.count_cons,one l line,ih]

theorem labelClosed {x s : Text} {m : Text} (hm : m ∈ markers) (other : endNotesMarker ≠ m)
    (closed : ¬ endNotesMarker <:+: x) (rest : ¬ endNotesMarker <:+: s) :
    ¬ endNotesMarker <:+: x ++ m ++ s := by
  have before : NoStart endNotesMarker x (m ++ s) :=
    noStartBefore closed (markersApart m hm endNotesMarker (by decide) other.symm) s
  have marker : NoStart endNotesMarker m s :=
    noStartApart (markersApart endNotesMarker (by decide) m hm other) s
  exact absentAppend (noStartAppend before marker) rest

theorem labelledClosed {N p y : Text} (name : '\n' ∉ N) (own : ¬ endNotesMarker <:+: N) (label : Label p)
    (line : '\n' ∉ y) (closed : ¬ endNotesMarker <:+: p) : ¬ endNotesMarker <:+: renames N (p ++ y) := by
  obtain ⟨w,renamed,forms⟩ := labelRenamed label line name
  have whole : ¬ endNotesMarker <:+: w ++ N := by
    rcases forms with rfl | ⟨n,n',split,rfl⟩
    · exact own
    · refine labelClosed (by decide) (by decide) (fun inside => own (inside.trans ?_)) own
      rw [split]
      exact (List.prefix_append n _).isInfix
  rw [renamed]
  obtain ⟨x,_,rfl | rfl⟩ := labelEnd label
  · exact labelClosed (by decide) (by decide)
      (fun inside => closed (inside.trans (List.prefix_append x _).isInfix)) whole
  · exact labelClosed (by decide) (by decide)
      (fun inside => closed (inside.trans (List.prefix_append x _).isInfix)) whole

theorem renamesClosed {N s : Text} (name : '\n' ∉ N) (own : ¬ endNotesMarker <:+: N)
    (closed : ¬ endNotesMarker <:+: s) : ¬ endNotesMarker <:+: renames N s := by
  have one : ∀ l, '\n' ∉ l → ¬ endNotesMarker <:+: l → ¬ endNotesMarker <:+: renames N l := by
    intro l line closed
    by_cases free : Unlabelled l
    · rwa [renamesUnlabelled free]
    · obtain ⟨p,y,rfl,label⟩ := labelFound free
      exact labelledClosed name own label (fun mem => line (List.mem_append_right p mem))
        (fun inside => closed (inside.trans (List.prefix_append p y).isInfix))
  intro inside
  induction s using linewise with
  | last l line => exact one l line closed inside
  | line l s line ih =>
    rw [renamesBreak] at inside
    rcases lineInfix (by decide) inside with here | later
    · exact one l line (fun h => closed (h.trans (List.prefix_append l _).isInfix)) here
    · refine ih (fun h => closed (h.trans ?_)) later
      exact ((List.suffix_cons '\n' s).trans (List.suffix_append l _)).isInfix

theorem notesLast {t : Text} (ends : notesMarker <:+ t) : t.getLast? = some ':' := by
  obtain ⟨x,rfl⟩ := ends
  have last : notesMarker = notesMarker.dropLast ++ [':'] := by decide
  rw [last,← List.append_assoc]
  simp

theorem labelOpened {p : Text} (label : Label p) : ¬ notesMarker <:+ p := by
  intro ends
  obtain ⟨x,_,rfl | rfl⟩ := labelEnd label
  · have colon := notesLast ends
    have blank : titleMarker = titleMarker.dropLast ++ [' '] := by decide
    rw [blank,← List.append_assoc] at colon
    simp at colon
  · rcases List.suffix_or_suffix_of_suffix ends (List.suffix_append x nameMarker) with short | long
    · exact absurd short (by decide)
    · exact absurd long (by decide)

theorem labelledOpened {N p y : Text} (name : '\n' ∉ N) (last : ∀ c ∈ N.getLast?, c ≠ ':') (label : Label p)
    (line : '\n' ∉ y) : ¬ notesMarker <:+ renames N (p ++ y) := by
  obtain ⟨w,renamed,forms⟩ := labelRenamed label line name
  rw [renamed]
  intro ends
  rcases List.eq_nil_or_concat N with rfl | ⟨n,c,rfl⟩
  · rcases forms with rfl | ⟨n,n',empty,_⟩
    · refine labelOpened label ?_
      simpa using ends
    · have some : nameMarker ≠ [] := by decide
      simp [some] at empty
  · have colon := notesLast ends
    rw [List.concat_eq_append] at colon last
    rw [← List.append_assoc,← List.append_assoc,List.getLast?_concat] at colon
    exact last c (by simp) (Option.some.inj colon)

theorem lineOpened {N l : Text} (name : '\n' ∉ N) (last : ∀ c ∈ N.getLast?, c ≠ ':') (line : '\n' ∉ l)
    (opened : ¬ notesMarker <:+ l) : ¬ notesMarker <:+ renames N l := by
  by_cases free : Unlabelled l
  · rwa [renamesUnlabelled free]
  · obtain ⟨p,y,rfl,label⟩ := labelFound free
    exact labelledOpened name last label (fun mem => line (List.mem_append_right p mem))

theorem renamesOpened {N s : Text} (name : '\n' ∉ N) (last : ∀ c ∈ N.getLast?, c ≠ ':')
    (opened : ¬ opening <:+: s) : ¬ opening <:+: renames N s := by
  intro inside
  induction s using linewise with
  | last l line => exact renamesLine name line (inside.subset (by decide))
  | line l s line ih =>
    rw [renamesBreak] at inside
    rcases lineSuffix (by decide) inside with here | later
    · refine lineOpened name last line (fun ends => opened ?_) (lineEnds (renamesLine name line) here)
      obtain ⟨x,rfl⟩ := ends
      exact ⟨x,s,by simp [opening]⟩
    · refine ih (fun h => opened (h.trans ?_)) later
      exact ((List.suffix_cons '\n' s).trans (List.suffix_append l _)).isInfix

def lastLine : Text → Text
  | [] => []
  | c::s => if '\n' ∈ c::s then lastLine s else c::s

def Whole (a : Text) : Prop := a = [] ∨ ∃ b, a = b ++ ['\n']

theorem lastLineSplit (t : Text) : '\n' ∉ lastLine t ∧ ∃ a, t = a ++ lastLine t ∧ Whole a := by
  induction t with
  | nil => exact ⟨by simp [lastLine],[],rfl,.inl rfl⟩
  | cons c s ih =>
    rw [lastLine]
    split
    · rename_i more
      obtain ⟨line,a,split,whole⟩ := ih
      refine ⟨line,c::a,by rw [List.cons_append,← split],.inr ?_⟩
      rcases whole with rfl | ⟨b,rfl⟩
      · rw [List.nil_append] at split
        rw [← split] at line
        have first : '\n' = c := (List.mem_cons.mp more).resolve_right line
        exact ⟨[],by rw [first]; rfl⟩
      · exact ⟨c::b,rfl⟩
    · rename_i line
      exact ⟨line,[],rfl,.inl rfl⟩

theorem renamesEmpty (N : Text) : renames N [] = [] := renamesUnlabelled ⟨by decide,by decide⟩

section
variable {a s : Text}

theorem renamesWhole (whole : Whole a) (N s : Text) :
    renames N (a ++ s) = renames N a ++ renames N s := by
  have empty := renamesEmpty N
  rcases whole with rfl | ⟨b,rfl⟩
  · rw [empty]
    rfl
  · rw [List.append_assoc,List.singleton_append,renamesBreak,renamesBreak,empty]
    simp

theorem wholeRenamed (whole : Whole a) (N : Text) : Whole (renames N a) := by
  have empty := renamesEmpty N
  rcases whole with rfl | ⟨b,rfl⟩
  · exact .inl empty
  · exact .inr ⟨renames N b,by rw [renamesBreak,empty]⟩

theorem wholeOpened (whole : Whole a) (left : ¬ opening <:+: a) (right : ¬ opening <:+: s) :
    ¬ opening <:+: a ++ s := by
  rcases whole with rfl | ⟨b,rfl⟩
  · exact right
  · rw [List.append_assoc,List.singleton_append]
    intro inside
    rcases lineSuffix (by decide) inside with before | behind
    · exact left before
    · exact right behind

theorem wholeClosed (whole : Whole a) (left : ¬ endNotesMarker <:+: a) (right : ¬ endNotesMarker <:+: s) :
    ¬ endNotesMarker <:+: a ++ s := by
  rcases whole with rfl | ⟨b,rfl⟩
  · exact right
  · rw [List.append_assoc,List.singleton_append]
    intro inside
    rcases lineInfix (by decide) inside with before | behind
    · exact left (before.trans (List.prefix_append b _).isInfix)
    · exact right behind

end

theorem markerUnlabelled {x m : Text} (hm : m = notesMarker ∨ m = endNotesMarker) (free : Unlabelled x)
    (s : Text) : NoStart titleMarker (x ++ m) s ∧ NoStart nameMarker (x ++ m) s := by
  have apart : ∀ k ∈ [titleMarker,nameMarker], Apart k m ∧ Apart m k := by
    rcases hm with rfl | rfl <;> decide
  have one : ∀ k ∈ [titleMarker,nameMarker], ¬ k <:+: x → NoStart k (x ++ m) s := fun k mem absent =>
    noStartAppend (noStartBefore absent (apart k mem).2 s) (noStartApart (apart k mem).1 s)
  exact ⟨one titleMarker (by simp) free.1,one nameMarker (by simp) free.2⟩

theorem markerFree {x m : Text} (hm : m = notesMarker ∨ m = endNotesMarker) (free : Unlabelled x) :
    Unlabelled (x ++ m) := by
  obtain ⟨title,name⟩ := markerUnlabelled hm free []
  exact ⟨absentOfNoStart (by decide) title,absentOfNoStart (by decide) name⟩

theorem renamesSkip {x s : Text} (N : Text) (free : ∀ s, NoStart titleMarker x s ∧ NoStart nameMarker x s) :
    renames N (x ++ s) = x ++ renames N s := by
  rw [renames,keptText (free s).1,keptText (free _).2]
  rfl

/- The section opens where it did, if no label stands in front of it on its line. -/
theorem beforeRenamed {before : Text} (N s : Text) (free : Unlabelled (lastLine before)) :
    renames N (before ++ (opening ++ s)) = renames N before ++ (opening ++ renames N s) := by
  obtain ⟨_,a,split,whole⟩ := lastLineSplit before
  generalize lastLine before = lead at split free
  subst split
  have kept := @renamesSkip (lead ++ notesMarker) ('\n'::s) N (markerUnlabelled (.inl rfl) free)
  have next := renamesBreak N [] s
  rw [renamesEmpty,List.nil_append,List.nil_append] at next
  have shape (t : Text) : lead ++ (opening ++ t) = (lead ++ notesMarker) ++ '\n'::t := by simp [opening]
  rw [renamesWhole whole,renamesUnlabelled free,List.append_assoc,renamesWhole whole,shape,kept,next,
    List.append_assoc (renames N a),shape]

theorem notesRenamed {notes : Text} (N s : Text) (free : Unlabelled (lastLine notes)) :
    renames N (notes ++ (endNotesMarker ++ s)) = renames N notes ++ (endNotesMarker ++ renames N s) := by
  obtain ⟨_,a,split,whole⟩ := lastLineSplit notes
  generalize lastLine notes = trail at split free
  subst split
  have kept := @renamesSkip (trail ++ endNotesMarker) s N (markerUnlabelled (.inr rfl) free)
  rw [renamesWhole whole,renamesUnlabelled free,List.append_assoc,renamesWhole whole,
    ← List.append_assoc trail,kept,List.append_assoc (renames N a),List.append_assoc trail]

def OnlyAt (m x y : Text) : Prop := ∀ x' y', x ++ (m ++ y) = x' ++ (m ++ y') → x' = x

theorem onlyFront {m x y : Text} (some : m ≠ []) (only : OnlyAt m x y) : ¬ m <:+: x := by
  intro inside
  obtain ⟨u,v,rfl⟩ := inside
  have same := only u (v ++ (m ++ y)) (by simp)
  simp [some] at same

theorem onlyBehind {m x y : Text} (some : m ≠ []) (only : OnlyAt m x y) : ¬ m <:+: y := by
  intro inside
  obtain ⟨u,v,rfl⟩ := inside
  have same := only (x ++ (m ++ u)) v (by simp)
  simp [some] at same

def FirstRest (marker s rest : Text) : Prop := '\n' ∉ rest ∧ ∃ x y, s = x ++ (marker ++ (rest ++ y)) ∧
  (∀ c ∈ y.head?, c = '\n') ∧ ∀ x' y', s = x' ++ (marker ++ y') → x.length ≤ x'.length

theorem restFound {m s v : Text} {some : m ≠ []} (rest : FirstRest m s v) :
    first (findall (valueAfter m some) 1 s) = .ok v := by
  obtain ⟨line,x,y,rfl,ends,least⟩ := rest
  have start : NoStart m x (m ++ (v ++ y)) := by
    intro a b split nonempty front
    obtain ⟨z,same⟩ := front
    have shorter := least a z (by rw [same,split,List.append_assoc])
    have positive := List.length_pos_iff.mpr nonempty
    rw [split,List.length_append] at shorter
    omega
  have stop : y.takeWhile inLine = [] := by
    cases y with
    | nil => rfl
    | cons c y =>
      rw [ends c rfl]
      exact lineEnd y
  have found := searchToEnd (literalRe m) (greedyGroup inLine 0 1) start (insideLine line) stop
  refine firstOf ?_
  rw [findallHead]
  simp only [valueAfter,found]
  simp [Match.group]

def sectioned (before notes after : Text) : Text :=
  before ++ (opening ++ (notes ++ (endNotesMarker ++ after)))

/- A test case: its section of notes, and the name and the subprogram it gives. -/
structure NotesBlock where
  before : Text
  notes : Text
  after : Text
  name : Text
  number : Text
  subprogram : Text
  opens : OnlyAt opening before (notes ++ (endNotesMarker ++ after))
  closes : OnlyAt endNotesMarker (before ++ (opening ++ notes)) after
  named : FirstRest nameMarker (sectioned before notes after) name
  numbered : FirstTriple name number
  called : FirstRest subprogramMarker (sectioned before notes after) subprogram
  plain : '\\' ∉ subprogram
  start : ∀ c ∈ subprogram.head?, decimal c = false

def NotesBlock.text (b : NotesBlock) : Text := sectioned b.before b.notes b.after

def NotesBlock.newName (b : NotesBlock) : Text := TestScript.newName b.subprogram b.number

def NotesBlock.renamedNotes (b : NotesBlock) : Text := renames b.newName b.notes

theorem numberFound {name number : Text} (triple : FirstTriple name number) :
    first (findall threeDigits 0 name) = .ok number := by
  have occurs := triple
  obtain ⟨three,x,y,split,_⟩ := occurs
  obtain ⟨before,m,found,own⟩ := tripleFound ⟨x,number,y,split,three⟩
  refine firstOf ?_
  rw [findallHead,found,firstTripleUnique triple own]
  rfl

section
variable (b : NotesBlock)

theorem blockNameLine : '\n' ∉ b.newName := by
  intro mem
  simp only [NotesBlock.newName,newName,List.mem_append,List.mem_singleton] at mem
  rcases mem with (name | dot) | digit
  · exact b.called.1 name
  · cases dot
  · exact absurd (b.numbered.1.2 _ digit) (by decide)

theorem blockNamePlain : '\\' ∉ b.newName := by
  intro mem
  simp only [NotesBlock.newName,newName,List.mem_append,List.mem_singleton] at mem
  rcases mem with (name | dot) | digit
  · exact b.plain name
  · cases dot
  · exact absurd (b.numbered.1.2 _ digit) (by decide)

theorem blockNameLast : ∀ c ∈ b.newName.getLast?, c ≠ ':' := by
  intro c mem same
  have three := b.numbered.1.1
  rcases List.eq_nil_or_concat b.number with empty | ⟨n,d,split⟩
  · rw [empty] at three
    cases three
  · have digit := b.numbered.1.2 d (by rw [split]; simp)
    rw [NotesBlock.newName,newName,split,List.concat_eq_append,← List.append_assoc,List.getLast?_concat] at mem
    obtain rfl : d = c := Option.some.inj mem
    rw [same] at digit
    exact absurd digit (by decide)

theorem namesRun : handleTestCase b.text = (do
    let testNotes ← first (findall notes 1 (renames b.newName b.text))
    let newTestNotes ← handleTestNote testNotes
    substituted notesSection (notesTemplate newTestNotes) (renames b.newName b.text)) := by
  have parsed : template 2 ('\\' :: '1' :: (b.subprogram ++ ['.'] ++ b.number)) = .ok (renamedTo b.newName) :=
    labelTemplate b.plain b.start b.numbered.1.2
  have testName : first (findall (valueAfter nameMarker (by decide)) 1 b.text) = .ok b.name := restFound b.named
  have testSubprogram : first (findall (valueAfter subprogramMarker (by decide)) 1 b.text) =
      .ok b.subprogram := restFound b.called
  have testNum := numberFound b.numbered
  have titled := @substitutedOk (lineWith titleMarker (by decide)) _ b.text _ parsed
  have named := @substitutedOk (lineWith nameMarker (by decide)) _
    (substitute (lineWith titleMarker (by decide)) (renamedTo b.newName) b.text) _ parsed
  simp only [handleTestCase,bind,Except.bind,testName,testNum,testSubprogram,titled,named]
  rfl

end

section
variable {x n y : Text}

theorem sectionFound (opens : ¬ opening <:+: x) (closes : ¬ endNotesMarker <:+: n) :
    search notesSection.re (x ++ (opening ++ (n ++ (endNotesMarker ++ y)))) = some (x,sectionMatch n y) :=
  searchBetween (literalGroup opening 1) (lazyGroup anyChar 2) (literalGroup endNotesMarker 3)
    (noStartUnbordered (by decide) opens _) (fun _ _ => rfl) (noStartUnbordered (by decide) closes _)

theorem notesTaken (opens : ¬ opening <:+: x) (closes : ¬ endNotesMarker <:+: n) :
    first (findall notes 1 (x ++ (opening ++ (n ++ (endNotesMarker ++ y))))) = .ok n := by
  have found := @searchBetween Char _ opening endNotesMarker _ _ _ anyChar _ _ _ (literalRe opening)
    (lazyGroup anyChar 1) (literalRe endNotesMarker) x n y (noStartUnbordered (by decide) opens _)
    (fun _ _ => rfl) (noStartUnbordered (by decide) closes _)
  refine firstOf ?_
  rw [findallHead]
  simp only [notes]
  rw [show notesMarker ++ ['\n'] = opening from rfl,found]
  simp [Match.group]

theorem sectionReplaced (pieces : List (Piece Char)) (opens : ¬ opening <:+: x)
    (closes : ¬ endNotesMarker <:+: n) (once : ¬ opening <:+: y) :
    substitute notesSection pieces (x ++ (opening ++ (n ++ (endNotesMarker ++ y)))) =
      x ++ (expand pieces (sectionMatch n y) ++ y) := by
  have none : search notesSection.re y = none := searchLiteralNone (literalGroup opening 1) once
  rw [substituteSome (sectionFound opens closes),List.append_assoc]
  have rest : (sectionMatch n y).rest = y := rfl
  rw [rest,substituteNone none]

end

section
variable {b : NotesBlock} {x n y note : Text}

theorem sectionRun (shape : renames b.newName b.text = sectioned x n y) (opens : ¬ opening <:+: x)
    (closes : ¬ endNotesMarker <:+: n) (once : ¬ opening <:+: y) (rewritten : handleTestNote n = .ok note)
    {pieces : List (Piece Char)} (parsed : template 3 (notesTemplate note) = .ok pieces) :
    handleTestCase b.text = .ok (x ++ (expand pieces (sectionMatch n y) ++ y)) := by
  have replaced := @substitutedOk notesSection _ (sectioned x n y) _ parsed
  rw [sectioned,sectionReplaced pieces opens closes once,← sectioned] at replaced
  have taken := notesTaken (y := y) opens closes
  rw [← sectioned] at taken
  rw [namesRun,shape]
  simp only [bind,Except.bind,taken,rewritten,replaced]

theorem sectionFails (shape : renames b.newName b.text = sectioned x n y) (opens : ¬ opening <:+: x)
    (closes : ¬ endNotesMarker <:+: n) (rewritten : handleTestNote n = .ok note) {e : TemplateError}
    (parsed : template 3 (notesTemplate note) = .error e) : handleTestCase b.text = .error (.template e) := by
  have replaced := @substitutedBad notesSection _ (sectioned x n y) _ parsed
  have taken := notesTaken (y := y) opens closes
  rw [← sectioned] at taken
  rw [namesRun,shape]
  simp only [bind,Except.bind,taken,rewritten,replaced]

theorem unfound (none : search notes.re (renames b.newName b.text) = none) :
    handleTestCase b.text = .error .indexError := by
  have missing : first (findall notes 1 (renames b.newName b.text)) = .error .indexError := by
    rw [findall,scanNone none]
    rfl
  rw [namesRun]
  simp only [bind,Except.bind,missing]

theorem unopened (absent : ¬ opening <:+: renames b.newName b.text) :
    handleTestCase b.text = .error .indexError :=
  unfound (searchLiteralNone (literalRe opening) absent)

theorem unclosed (absent : ¬ endNotesMarker <:+: renames b.newName b.text) :
    handleTestCase b.text = .error .indexError :=
  unfound (searchLast (literalRe endNotesMarker) absent)

end

section
variable {b : NotesBlock} {N : Text}

/- A label in front of the opening marker takes it away with the rest of its line. -/
theorem openingLost (name : '\n' ∉ N) (last : ∀ c ∈ N.getLast?, c ≠ ':')
    (labelled : ¬ Unlabelled (lastLine b.before)) : ¬ opening <:+: renames N b.text := by
  have front := onlyFront (by decide) b.opens
  have behind := onlyBehind (by decide) b.opens
  obtain ⟨line,a,split,whole⟩ := lastLineSplit b.before
  obtain ⟨p,y,lead,label⟩ := labelFound labelled
  rw [lead] at line split
  have shape : b.text = a ++ ((p ++ (y ++ notesMarker)) ++ '\n'::(b.notes ++ (endNotesMarker ++ b.after))) := by
    rw [NotesBlock.text,sectioned,split]
    simp [opening]
  have rest : '\n' ∉ y ++ notesMarker := by
    have marker : '\n' ∉ notesMarker := by decide
    simp only [List.mem_append,not_or] at line ⊢
    exact ⟨line.2,marker⟩
  rw [shape,renamesWhole whole,renamesBreak]
  refine wholeOpened (wholeRenamed whole _) ?_ (fun inside => ?_)
  · refine renamesOpened name last (fun inside => front ?_)
    rw [split]
    exact inside.trans (List.prefix_append a _).isInfix
  · rcases lineSuffix (by decide) inside with here | later
    · refine labelledOpened name last label rest (lineEnds ?_ here)
      exact renamesLine name (fun mem => (List.mem_append.mp mem).elim
        (fun own => line (List.mem_append_left y own)) rest)
    · exact renamesOpened name last behind later

theorem closingLost (name : '\n' ∉ N) (own : ¬ endNotesMarker <:+: N)
    (labelled : ¬ Unlabelled (lastLine b.notes)) : ¬ endNotesMarker <:+: renames N b.text := by
  have front := onlyFront (by decide) b.closes
  have behind := onlyBehind (by decide) b.closes
  obtain ⟨line,a,split,whole⟩ := lastLineSplit b.notes
  obtain ⟨p,y,trail,label⟩ := labelFound labelled
  rw [trail] at line split
  have shape : b.text = (b.before ++ (opening ++ a)) ++ (p ++ (y ++ (endNotesMarker ++ b.after))) := by
    rw [NotesBlock.text,sectioned,split]
    simp
  have upTo : Whole (b.before ++ (opening ++ a)) := by
    rcases whole with rfl | ⟨c,rfl⟩
    · exact .inr ⟨b.before ++ notesMarker,by simp [opening]⟩
    · exact .inr ⟨b.before ++ (opening ++ c),by simp⟩
  have part : b.before ++ (opening ++ a) ++ (p ++ y) = b.before ++ (opening ++ b.notes) := by
    rw [split]
    simp
  have early : ¬ endNotesMarker <:+: b.before ++ (opening ++ a) := by
    intro inside
    rw [← part] at front
    exact front (inside.trans (List.prefix_append _ _).isInfix)
  have start : ¬ endNotesMarker <:+: p := by
    intro inside
    rw [← part] at front
    exact front (inside.trans ((List.prefix_append p y).isInfix.trans (List.suffix_append _ _).isInfix))
  have marker : '\n' ∉ endNotesMarker := by decide
  simp only [List.mem_append,not_or] at line
  rw [shape,renamesWhole upTo]
  refine wholeClosed (wholeRenamed upTo _) (renamesClosed name own early) ?_
  by_cases more : '\n' ∈ b.after
  · obtain ⟨l,t,after,free⟩ := List.eq_append_cons_of_mem more
    have rest : '\n' ∉ y ++ (endNotesMarker ++ l) := by
      simp only [List.mem_append,not_or]
      exact ⟨line.2,marker,free⟩
    have tail : p ++ (y ++ (endNotesMarker ++ b.after)) =
        (p ++ (y ++ (endNotesMarker ++ l))) ++ '\n'::t := by
      rw [after]
      simp
    rw [tail,renamesBreak]
    intro inside
    rcases lineInfix (by decide) inside with here | later
    · exact labelledClosed name own label rest start here
    · refine renamesClosed name own (fun h => behind ?_) later
      rw [after]
      exact h.trans ((List.suffix_cons '\n' t).trans (List.suffix_append l _)).isInfix
  · refine labelledClosed name own label ?_ start
    simp only [List.mem_append,not_or]
    exact ⟨line.2,marker,more⟩

theorem sectionRenamed (N : Text) (opened : Unlabelled (lastLine b.before))
    (ended : Unlabelled (lastLine b.notes)) : renames N b.text =
      sectioned (renames N b.before) (renames N b.notes) (renames N b.after) := by
  rw [NotesBlock.text,sectioned,beforeRenamed _ _ opened,notesRenamed _ _ ended]
  rfl

theorem tailOpening (name : '\n' ∉ N) (last : ∀ c ∈ N.getLast?, c ≠ ':') :
    ¬ opening <:+: renames N (b.notes ++ (endNotesMarker ++ b.after)) :=
  renamesOpened name last (onlyBehind (by decide) b.opens)

theorem renamedOpenings (name : '\n' ∉ N) (last : ∀ c ∈ N.getLast?, c ≠ ':') :
    ¬ opening <:+: renames N b.before ∧ ¬ opening <:+: renames N b.notes ∧ ¬ opening <:+: renames N b.after := by
  have behind := onlyBehind (by decide) b.opens
  refine ⟨renamesOpened name last (onlyFront (by decide) b.opens),
    renamesOpened name last (fun inside => behind ?_),renamesOpened name last (fun inside => behind ?_)⟩
  · exact inside.trans (List.prefix_append _ _).isInfix
  · exact inside.trans ((List.suffix_append endNotesMarker _).trans (List.suffix_append _ _)).isInfix

end

theorem onlyOnce {m x y : Text} (free : Unbordered m) (left : ¬ m <:+: x) (right : ¬ m <:+: y) :
    OnlyAt m x y := by
  intro x' y' same
  rcases List.append_eq_append_iff.mp same with ⟨v,longer,rest⟩ | ⟨v,longer,rest⟩
  · rcases List.append_eq_append_iff.mp rest with ⟨w,inside,later⟩ | ⟨w,inside,later⟩
    · exact absurd ⟨w,y',by rw [later,List.append_assoc]⟩ right
    · by_cases empty : v = []
      · rw [longer,empty,List.append_nil]
      · cases w with
        | nil =>
          rw [List.nil_append] at later
          exact absurd ⟨[],y',later⟩ right
        | cons c w =>
          have suffix : c::w <:+ m := ⟨v,inside.symm⟩
          have proper : c::w ≠ m := by
            intro own
            rw [own] at inside
            exact empty (List.self_eq_append_left.mp inside)
          have off := free (c::w) ((List.mem_tails _ m).mpr suffix) (by simp) proper
          have shorter := suffix.length_le
          refine absurd (List.prefix_of_prefix_length_le ?_ (List.prefix_append m y') shorter) off
          rw [later]
          exact List.prefix_append _ y
  · by_cases empty : v = []
    · rw [longer,empty,List.append_nil]
    · exact absurd ⟨y',rest⟩ (noStartUnbordered free left y x' v longer empty)

theorem firstRestOf {m x v y : Text} (free : Unbordered m) (absent : ¬ m <:+: x) (line : '\n' ∉ v)
    (ends : ∀ c ∈ y.head?, c = '\n') : FirstRest m (x ++ (m ++ (v ++ y))) v := by
  refine ⟨line,x,y,rfl,ends,fun x' y' same => ?_⟩
  by_contra short
  rcases List.append_eq_append_iff.mp same with ⟨u,longer,_⟩ | ⟨u,longer,rest⟩
  · rw [longer,List.length_append] at short
    omega
  · have some : u ≠ [] := by
      intro empty
      rw [longer,empty,List.append_nil] at short
      omega
    exact noStartUnbordered free absent (v ++ y) x' u longer some ⟨y',rest⟩

theorem firstTripleOf {letters t rest : Text} (free : ∀ c ∈ letters, isDigit c = false) (triple : Triple t) :
    FirstTriple (letters ++ (t ++ rest)) t :=
  ⟨triple,letters,rest,rfl,fun _ _ _ split own => tripleAfter free split own⟩

def sampleHead : Text := "-- Test Case: ioctl.001\nTEST.UNIT:hal\n".toList
def sampleMiddle : Text := "\nTEST.NEW\n".toList
def sampleAfter : Text := "\nTEST.END\n".toList

def sampleBefore : Text := sampleHead ++ (subprogramMarker ++ ("ioctl".toList ++ (sampleMiddle ++
  (nameMarker ++ ("ioctl.001".toList ++ ['\n'])))))

def sampleNotes (notes : Text) (opens : ¬ opening <:+: notes ++ (endNotesMarker ++ sampleAfter))
    (closes : ¬ endNotesMarker <:+: notes) : NotesBlock where
  before := sampleBefore
  notes := notes
  after := sampleAfter
  name := "ioctl.001".toList
  number := "001".toList
  subprogram := "ioctl".toList
  opens := onlyOnce (by decide) (by decide +kernel) opens
  closes := by
    refine onlyOnce (by decide) ?_ (by decide +kernel)
    rw [← List.append_assoc]
    exact wholeClosed (.inr ⟨sampleBefore ++ notesMarker,by simp [opening]⟩) (by decide +kernel) closes
  named := by
    have shape : sectioned sampleBefore notes sampleAfter = (sampleHead ++ (subprogramMarker ++
        ("ioctl".toList ++ sampleMiddle))) ++ (nameMarker ++ ("ioctl.001".toList ++
          '\n'::(opening ++ (notes ++ (endNotesMarker ++ sampleAfter))))) := by
      simp only [sectioned,sampleBefore,List.append_assoc,List.cons_append,List.nil_append]
    rw [shape]
    exact firstRestOf (by decide) (by decide +kernel) (by decide) (eachOption rfl)
  numbered := @firstTripleOf "ioctl.".toList "001".toList [] (eachOf (by decide)) ⟨by decide,eachOf (by decide)⟩
  called := by
    have shape : sectioned sampleBefore notes sampleAfter = sampleHead ++ (subprogramMarker ++
        ("ioctl".toList ++ (sampleMiddle ++ (nameMarker ++ ("ioctl.001".toList ++
          '\n'::(opening ++ (notes ++ (endNotesMarker ++ sampleAfter)))))))) := by
      simp only [sectioned,sampleBefore,List.append_assoc,List.cons_append,List.nil_append]
    rw [shape]
    exact firstRestOf (by decide) (by decide +kernel) (by decide) (eachOption rfl)
  plain := by decide
  start := eachOption (by decide)

theorem sampleNote {x r t note : Text} (shape : t = x ++ (generated ++ r)) (before : ¬ generated <:+: x)
    (behind : ¬ generated <:+: r) (fresh : ¬ generationNotes <:+: x ++ (head ++ r))
    (result : note = x ++ (head ++ r)) : handleTestNote t = .ok note := by
  rw [shape,result]
  exact generatedOnce before behind fresh

end KernelTestTools.TestScript
