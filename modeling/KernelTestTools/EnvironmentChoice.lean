import KernelTestTools.StubPipeline

/-! Which environment the two steps of run_all_py.sh work on: the first line that find prints
gives the linker output, the first name that glob lists gives ENVIRO.AUX. -/
namespace KernelTestTools.StubTool
open TextFile FileTree

def linkerOutputSuffix : Text := "_linker_output.txt".toList
def auxName : Name := "ENVIRO.AUX".toList

/- Where the linker output is read and where the stubs are written, when both steps succeed. -/
def filesUsed {t : Tree} (l : Listing t) : Option (Location × Location) := do
  let env ← envName l
  let extracted := extractUndef (linkerOutputPath env) t
  if extracted.1 ≠ 0 then none
  else
    let name ← getEnvironmentName l.glob
    if (insertInto name extracted.2).isSome then
      some (resolve t.cwd (linkerOutputPath env),resolve t.cwd (auxPath name))
    else none

def OneEnvironment {t : Tree} (l : Listing t) : Prop :=
  ∀ read modified, filesUsed l = some (read,modified) → ∃ E : Name,
    read = t.cwd ++ [E,E ++ linkerOutputSuffix] ∧ modified = t.cwd ++ [E,auxName]

def envFile {t : Tree} (l : Listing t) : Option Text :=
  l.find.head?.map (fun p => (foundPath p).takeWhile (· != '\n'))

/- glob lists r.env first, and find prints ./r.env first, or ./r of a name that a line break
cuts. -/
def SameFirst {t : Tree} (l : Listing t) : Prop :=
  ∃ r : Name, l.glob.head? = some (r ++ envSuffix) ∧
    (envFile l = some (dot ++ '/' :: r ++ envSuffix) ∨
      (envFile l = some (dot ++ '/' :: r) ∧ ¬envSuffix <:+ dot ++ '/' :: r))

theorem withoutSuffixIff {suffix x y : Text} :
    withoutSuffix suffix x = y ↔ x = y ++ suffix ∨ (x = y ∧ ¬suffix <:+ y) := by
  unfold withoutSuffix
  split
  · rename_i ends
    obtain ⟨front,rfl⟩ := ends
    have cut : (front ++ suffix).take ((front ++ suffix).length - suffix.length) = front := by
      rw [List.length_append,Nat.add_sub_cancel,List.take_left]
    rw [cut,List.append_left_inj]
    refine ⟨.inl,fun either => ?_⟩
    rcases either with same | ⟨rfl,no⟩
    · exact same
    · exact absurd (List.suffix_append front suffix) no
  · rename_i no
    constructor
    · rintro rfl
      exact .inr ⟨rfl,no⟩
    · intro either
      rcases either with rfl | ⟨same,_⟩
      · exact absurd (List.suffix_append y suffix) no
      · exact same

theorem envNameIff {t : Tree} {l : Listing t} {env : Text} : envName l = some env ↔
    envFile l = some (env ++ envSuffix) ∨ (envFile l = some env ∧ ¬envSuffix <:+ env) := by
  have line : envName l = (envFile l).map (withoutSuffix envSuffix) := by
    rw [envFile,Option.map_map]
    rfl
  rw [line]
  cases envFile l with
  | none => simp
  | some first =>
    simp only [Option.map_some,Option.some.injEq]
    exact withoutSuffixIff

theorem foundFront {s : Text} {p : Location} (whole : ∀ n ∈ p, '/' ∉ n) (front : s <+: p.flatMap ('/' :: ·))
    (some : s ≠ []) : ∃ vs c, s = vs.flatMap ('/' :: ·) ++ '/' :: c ∧ vs <+: p ∧ '/' ∉ c := by
  induction p generalizing s with
  | nil => exact absurd (List.prefix_nil.mp front) some
  | cons n p ih =>
    have here := whole n List.mem_cons_self
    rw [List.flatMap_cons] at front
    rcases List.prefix_or_prefix_of_prefix front (List.prefix_append _ _) with short | long
    · obtain ⟨a,s,rfl⟩ := List.exists_cons_of_ne_nil some
      obtain ⟨rfl,inside⟩ := List.cons_prefix_cons.mp short
      exact ⟨[],s,rfl,List.nil_prefix,fun mem => here (inside.subset mem)⟩
    · obtain ⟨rest,rfl⟩ := long
      have behind := (List.prefix_append_right_inj _).mp front
      by_cases last : rest = []
      · exact ⟨[],n,by simp [last],List.nil_prefix,here⟩
      · obtain ⟨vs,c,rfl,inside,free⟩ := ih (fun m mem => whole m (List.mem_cons_of_mem n mem)) behind last
        exact ⟨n::vs,c,by simp,List.cons_prefix_cons.mpr ⟨rfl,inside⟩,free⟩

theorem resolveFound (cwd : Location) {vs : List Name} (valid : ∀ v ∈ vs, ValidName v) :
    resolve cwd (dot ++ vs.flatMap ('/' :: ·)) = cwd ++ vs := by
  induction vs using List.reverseRecOn with
  | nil => exact (List.append_nil cwd).symm
  | append_singleton vs v ih =>
    have front := ih (fun w mem => valid w (List.mem_append_left _ mem))
    rw [List.flatMap_append,List.flatMap_singleton,← List.append_assoc,resolveJoin,front,
      resolveName _ (valid v (by simp)),List.append_assoc]

theorem linkerOutputValid {c : Name} (whole : '/' ∉ c) : ValidName (c ++ linkerOutputSuffix) := by
  have long : 2 < (c ++ linkerOutputSuffix).length := by
    have suffix : linkerOutputSuffix.length = 18 := rfl
    rw [List.length_append,suffix]
    omega
  have apart {d : Name} (short : d.length ≤ 2) : c ++ linkerOutputSuffix ≠ d := by
    intro same
    rw [same] at long
    omega
  refine ⟨apart (Nat.zero_le 2),apart (by decide),apart (by decide),?_⟩
  rw [List.mem_append]
  exact not_or.mpr ⟨whole,by decide⟩

theorem linkerOutputShape (env : Text) : linkerOutputPath env = env ++ '/' :: (env ++ linkerOutputSuffix) := rfl

/- Where the path that repeats the found one leads: through its directories twice. -/
theorem linkerOutputPlace (cwd : Location) {vs : List Name} {c : Name} (valid : ∀ v ∈ vs, ValidName v)
    (whole : '/' ∉ c) : resolve cwd (linkerOutputPath (dot ++ vs.flatMap ('/' :: ·) ++ '/' :: c)) =
      (resolve (cwd ++ vs) c ++ vs) ++ [c ++ linkerOutputSuffix] := by
  have again : dot ++ vs.flatMap ('/' :: ·) ++ '/' :: c ++ linkerOutputSuffix =
      dot ++ vs.flatMap ('/' :: ·) ++ '/' :: (c ++ linkerOutputSuffix) := by
    rw [List.append_assoc,List.cons_append]
  rw [linkerOutputShape,resolveJoin,resolveJoin,resolveFound cwd valid,again,resolveJoin,resolveFound _ valid,
    resolveName _ (linkerOutputValid whole)]

theorem linkerOutputPlaceIff (cwd : Location) {vs : List Name} {c r : Name} (valid : ∀ v ∈ vs, ValidName v)
    (whole : '/' ∉ c) (own : ValidName r) :
    resolve cwd (linkerOutputPath (dot ++ vs.flatMap ('/' :: ·) ++ '/' :: c)) =
      cwd ++ [r,r ++ linkerOutputSuffix] ↔ vs = [] ∧ c = r := by
  rw [linkerOutputPlace cwd valid whole]
  have shape : cwd ++ [r,r ++ linkerOutputSuffix] = (cwd ++ [r]) ++ [r ++ linkerOutputSuffix] := by simp
  rw [shape]
  constructor
  · intro same
    obtain ⟨front,last⟩ := List.append_inj' same rfl
    have name : c = r := List.append_cancel_right (List.cons.inj last).1
    rw [name,resolveName _ own] at front
    have count := congrArg List.length front
    simp only [List.length_append,List.length_singleton] at count
    exact ⟨List.length_eq_zero_iff.mp (by omega),name⟩
  · intro both
    obtain ⟨rfl,rfl⟩ := both
    rw [List.append_nil,List.append_nil,resolveName _ own]

theorem withoutSuffixPrefix (suffix x : Text) : withoutSuffix suffix x <+: x := by
  unfold withoutSuffix
  split
  · exact List.take_prefix _ _
  · exact List.prefix_rfl

theorem slashKept {x env : Text} (start : dot ++ ['/'] <+: x) (cut : withoutSuffix envSuffix x = env) :
    dot ++ ['/'] <+: env := by
  rcases withoutSuffixIff.mp cut with rfl | ⟨rfl,_⟩
  · rcases List.prefix_or_prefix_of_prefix start (List.prefix_append env envSuffix) with inside | short
    · exact inside
    · match env,short with
      | [],_ => exact absurd start (by decide)
      | [a],short =>
        obtain ⟨rfl,_⟩ := List.cons_prefix_cons.mp short
        exact absurd start (by decide)
      | a::b::env,_ =>
        obtain ⟨rfl,rest⟩ := List.cons_prefix_cons.mp start
        obtain ⟨rfl,_⟩ := List.cons_prefix_cons.mp rest
        exact ⟨env,rfl⟩
  · exact start

theorem splitextVisible {c : Char} (visible : c ≠ '.') (r : Name) : splitext ((c::r) ++ envSuffix) = c::r := by
  have cut : ((c::r) ++ envSuffix).rdropWhile (· != '.') = (c::r) ++ ['.'] := by
    have shape : (c::r) ++ envSuffix = ((((c::r) ++ ['.']) ++ ['e']) ++ ['n']) ++ ['v'] := by
      simp [envSuffix]
    rw [shape,List.rdropWhile_concat_pos _ _ _ (by decide),List.rdropWhile_concat_pos _ _ _ (by decide),
      List.rdropWhile_concat_pos _ _ _ (by decide),List.rdropWhile_concat_neg _ _ _ (by decide)]
  have dots : '.' ∈ (c::r) ++ envSuffix := List.mem_append_right _ (by decide)
  unfold splitext
  rw [cut,List.dropLast_concat]
  exact if_pos ⟨dots,by simp [visible]⟩

section
variable {t : Tree} {l : Listing t} {env : Text}

theorem envNameFront (named : envName l = some env) : ∃ (vs : List Name) (c : Name),
    env = dot ++ vs.flatMap ('/' :: ·) ++ '/' :: c ∧ (∀ v ∈ vs, ValidName v) ∧ '/' ∉ c := by
  obtain ⟨p,first,rfl⟩ := Option.map_eq_some_iff.mp named
  obtain ⟨file,n,last,_⟩ := (l.findExact p).mp (List.mem_of_mem_head? first)
  have present := filePresent file
  have valid : ∀ v ∈ p, ValidName v := fun v mem => t.named _ present v (List.mem_append_right _ mem)
  have line : dot ++ ['/'] <+: (foundPath p).takeWhile (· != '\n') := by
    obtain ⟨k,p,rfl⟩ := List.exists_cons_of_ne_nil (List.ne_nil_of_mem (List.mem_of_mem_getLast? last))
    simp [foundPath,dot]
  obtain ⟨rest,slash⟩ := slashKept line rfl
  have front : dot ++ ['/'] ++ rest <+: foundPath p :=
    slash ▸ (withoutSuffixPrefix _ _).trans (List.takeWhile_prefix _)
  rw [← slash]
  rw [foundPath,List.append_assoc,List.prefix_append_right_inj] at front
  obtain ⟨vs,c,shape,inside,free⟩ := foundFront (fun v mem => (valid v mem).2.2.2) front (by simp)
  exact ⟨vs,c,by rw [List.append_assoc,shape,List.append_assoc],fun v mem => valid v (inside.subset mem),free⟩

theorem environmentNamed {n : Name} (first : l.glob.head? = some n) : ∃ r, n = r ++ envSuffix ∧
    getEnvironmentName l.glob = some r ∧ ValidName r := by
  obtain ⟨present,⟨r,rfl⟩,visible⟩ := (l.globExact n).mp (List.mem_of_mem_head? first)
  have valid : ValidName (r ++ envSuffix) := t.named _ present _ (by simp)
  obtain ⟨c,r,rfl⟩ : ∃ c rest, r = c::rest := by
    cases r with
    | nil => exact absurd rfl visible
    | cons c r => exact ⟨c,r,rfl⟩
  have plain : c ≠ '.' := fun same => visible (by rw [same]; rfl)
  refine ⟨c::r,rfl,by rw [getEnvironmentName,first,Option.map_some,splitextVisible plain],nofun,?_,?_,?_⟩
  · exact fun same => plain (List.cons.inj same).1
  · exact fun same => plain (List.cons.inj same).1
  · exact fun mem => valid.2.2.2 (List.mem_append_left _ mem)

theorem auxPlace (cwd : Location) {r : Name} (valid : ValidName r) :
    resolve cwd (auxPath r) = cwd ++ [r,auxName] := by
  have aux : ValidName auxName := by decide
  unfold auxPath
  rw [resolveJoin,resolveName _ valid]
  exact (resolveName _ aux).trans (by simp)

end

section
variable {t : Tree} {l : Listing t}

theorem filesUsedIff {read modified : Location} : filesUsed l = some (read,modified) ↔ ∃ env output name aux,
    envName l = some env ∧ Extracts t env output ∧ getEnvironmentName l.glob = some name ∧ Reaches l name aux ∧
      read = resolve t.cwd (linkerOutputPath env) ∧ modified = resolve t.cwd (auxPath name) := by
  constructor
  · intro used
    obtain ⟨env,named,used⟩ := Option.bind_eq_some_iff.mp used
    simp only at used
    split at used
    · cases used
    rename_i passed
    obtain ⟨name,chosen,used⟩ := Option.bind_eq_some_iff.mp used
    split at used
    · rename_i inserted
      cases used
      obtain ⟨output,extracts⟩ : ∃ output, Extracts t env output := by
        by_contra none
        exact passed (by rw [extractFails none]; decide)
      obtain ⟨t',extracted,wrote⟩ := extractSucceeds extracts
      rw [extracted] at inserted
      obtain ⟨final,inserted⟩ := Option.isSome_iff_exists.mp inserted
      obtain ⟨aux,reaches⟩ := insertedReaches wrote chosen inserted rfl
      exact ⟨env,output,name,aux,named,extracts,chosen,reaches,rfl,rfl⟩
    · cases used
  · intro inputs
    obtain ⟨env,output,name,aux,named,extracts,chosen,reaches,rfl,rfl⟩ := inputs
    obtain ⟨t',extracted,wrote⟩ := extractSucceeds extracts
    obtain ⟨final,inserted,_⟩ := insertReaches wrote reaches
    rw [chosen,Option.bind_some] at inserted
    simp [filesUsed,named,extracted,chosen,inserted]

theorem filesUsedRun {read modified : Location} (used : filesUsed l = some (read,modified)) :
    (runAllPyScript l).1 = 0 ∧ ∀ q, q ≠ modified → q ≠ resolve t.cwd functionsPath →
      (runAllPyScript l).2.node q = t.node q := by
  obtain ⟨env,output,name,aux,named,extracts,chosen,reaches,rfl,rfl⟩ := filesUsedIff.mp used
  obtain ⟨t',extracted,wrote⟩ := extractSucceeds extracts
  obtain ⟨final,inserted,_⟩ := insertReaches wrote reaches
  rw [scriptSucceeds named extracted,inserted]
  refine ⟨rfl,fun q other list => ?_⟩
  rw [chosen,Option.bind_some] at inserted
  obtain ⟨_,_,_,_,_,last⟩ := insertIntoExactly.mp inserted
  rw [← writeKeepsCwd wrote] at other
  exact (writeElsewhere last other).trans (writeElsewhere wrote list)

theorem sameFirstIff {env : Text} {name : Name} (named : envName l = some env)
    (chosen : getEnvironmentName l.glob = some name) :
    (∃ E : Name, resolve t.cwd (linkerOutputPath env) = t.cwd ++ [E,E ++ linkerOutputSuffix] ∧
      resolve t.cwd (auxPath name) = t.cwd ++ [E,auxName]) ↔ SameFirst l := by
  obtain ⟨n,first,_⟩ := Option.map_eq_some_iff.mp chosen
  obtain ⟨r,rfl,same,valid⟩ := environmentNamed first
  cases same.symm.trans chosen
  obtain ⟨vs,c,rfl,whole,free⟩ := envNameFront named
  constructor
  · intro one
    obtain ⟨E,read,modified⟩ := one
    rw [auxPlace _ valid,List.append_cancel_left_eq] at modified
    cases (List.cons.inj modified).1
    obtain ⟨rfl,rfl⟩ := (linkerOutputPlaceIff t.cwd whole free valid).mp read
    exact ⟨c,first,envNameIff.mp named⟩
  · intro same
    obtain ⟨r,first',line⟩ := same
    have own : r = name := List.append_cancel_right (Option.some.inj (first'.symm.trans first))
    rw [own] at line
    have front : dot ++ vs.flatMap ('/' :: ·) ++ '/' :: c = dot ++ '/' :: name :=
      Option.some.inj (named.symm.trans (envNameIff.mpr line))
    have place := (@linkerOutputPlaceIff t.cwd [] name name (by simp) valid.2.2.2 valid).mpr ⟨rfl,rfl⟩
    rw [front]
    exact ⟨name,place,auxPlace _ valid⟩

theorem oneEnvironmentExactly (t : Tree) (l : Listing t) : OneEnvironment l ↔
    (∀ env output, envName l = some env → ¬Extracts t env output) ∨
      (∀ name aux, getEnvironmentName l.glob = some name → ¬Reaches l name aux) ∨ SameFirst l := by
  constructor
  · intro one
    by_cases extracts : ∃ env output, envName l = some env ∧ Extracts t env output
    · by_cases reaches : ∃ name aux, getEnvironmentName l.glob = some name ∧ Reaches l name aux
      · obtain ⟨env,output,named,extracts⟩ := extracts
        obtain ⟨name,aux,chosen,reaches⟩ := reaches
        have used := filesUsedIff.mpr ⟨env,output,name,aux,named,extracts,chosen,reaches,rfl,rfl⟩
        exact .inr (.inr ((sameFirstIff named chosen).mp (one _ _ used)))
      · exact .inr (.inl (fun name aux chosen reached => reaches ⟨name,aux,chosen,reached⟩))
    · exact .inl (fun env output named extracted => extracts ⟨env,output,named,extracted⟩)
  · intro either read modified used
    obtain ⟨env,output,name,aux,named,extracts,chosen,reaches,rfl,rfl⟩ := filesUsedIff.mp used
    rcases either with first | second | same
    · exact absurd extracts (first env output named)
    · exact absurd reaches (second name aux chosen)
    · exact (sameFirstIff named chosen).mpr same

end

/- Two environments: one has the linker output, the other has ENVIRO.AUX. -/
def twoEntries : List (Location × Node) :=
  [([],.dir true),(["HAL1.env".toList],plainFile []),(["HAL2.env".toList],plainFile []),
    (["HAL1".toList],.dir true),(["HAL2".toList],.dir true),
    (["HAL1".toList,"HAL1_linker_output.txt".toList],plainFile singleOutput.text),
    (["HAL2".toList,"ENVIRO.AUX".toList],plainFile "ENVIRO.NEW\nENVIRO.LIBRARY_STUBS:\n".toList)]

theorem twoList : EntryList [] twoEntries := ⟨by decide,by decide,by decide⟩

theorem twoFound (p : Location) : p ∈ [["HAL1.env".toList],["HAL2.env".toList]] ↔
    IsFile (treeOf [] twoEntries twoList) ([] ++ p) ∧ ∃ n ∈ p.getLast?, envSuffix <:+ n :=
  entriesFound (by decide) (by decide) p

theorem twoGlobbed (n : Name) : n ∈ ["HAL2.env".toList,"HAL1.env".toList] ↔
    ((treeOf [] twoEntries twoList).node ([] ++ [n])).isSome ∧ envSuffix <:+ n ∧ n.head? ≠ some '.' :=
  entriesGlobbed (by decide) (by decide) n

def twoListing : Listing (treeOf [] twoEntries twoList) where
  find := [["HAL1.env".toList],["HAL2.env".toList]]
  glob := ["HAL2.env".toList,"HAL1.env".toList]
  findExact := twoFound
  globExact := twoGlobbed
  once := ⟨by decide,by decide⟩

theorem twoEnvironments : filesUsed twoListing = some (["HAL1".toList,"HAL1_linker_output.txt".toList],
    ["HAL2".toList,"ENVIRO.AUX".toList]) ∧ ¬OneEnvironment twoListing := by
  have used : filesUsed twoListing = some (["HAL1".toList,"HAL1_linker_output.txt".toList],
      ["HAL2".toList,"ENVIRO.AUX".toList]) := by decide +kernel
  refine ⟨used,fun one => ?_⟩
  obtain ⟨E,read,modified⟩ := one _ _ used
  have first := (List.cons.inj read).1
  have second := (List.cons.inj modified).1
  rw [← first] at second
  revert second
  decide

end KernelTestTools.StubTool
