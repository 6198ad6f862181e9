import KernelTestTools.TextFile

/-! A tree of directories and files without links, as a process in one of its directories sees
it: relative paths, and text files opened by name. A file's permissions are those that the
process has. -/
namespace KernelTestTools.FileTree
open TextFile

abbrev Name := Text
abbrev Location := List Name

def dot : Name := ['.']
def dotDot : Name := ['.','.']

def ValidName (n : Name) : Prop := n ≠ [] ∧ n ≠ dot ∧ n ≠ dotDot ∧ '/' ∉ n

instance (n : Name) : Decidable (ValidName n) := inferInstanceAs (Decidable (_ ∧ _ ∧ _ ∧ _))

/- The text of a file that does not decode is what is left when the bad bytes are skipped. -/
structure File where
  text : Text
  decodable : Bool
  readable : Bool
  writable : Bool
  deriving DecidableEq, Repr

inductive Node where
  | dir (writable : Bool)
  | file (f : File)
  deriving DecidableEq, Repr

structure Tree where
  cwd : Location
  node : Location → Option Node
  rooted : ∀ p n, (node (p ++ [n])).isSome → ∃ w, node p = some (.dir w)
  named : ∀ p, (node p).isSome → ∀ n ∈ p, ValidName n
  working : ∃ w, node cwd = some (.dir w)

def resolve (cwd : Location) (path : Text) : Location :=
  ((fields '/' path).filter (fun n => n ≠ [] ∧ n ≠ dot)).foldl
    (fun here n => if n = dotDot then here.dropLast else here ++ [n]) cwd

def fileOf : Option Node → Option File
  | some (.file f) => some f
  | _ => none

def fileAt (t : Tree) (path : Text) : Option File := fileOf (t.node (resolve t.cwd path))

/- open(path, 'r') and read. -/
def readText (t : Tree) (path : Text) : Option Text :=
  (fileAt t path).bind (fun f => if f.readable ∧ f.decodable then some f.text else none)

def Creatable (t : Tree) (p : Location) : Prop :=
  p ≠ [] ∧ t.node p.dropLast = some (.dir true) ∧ ∀ n ∈ p, ValidName n

instance (t : Tree) (p : Location) : Decidable (Creatable t p) := inferInstanceAs (Decidable (_ ∧ _ ∧ _))

def Placeable (t : Tree) (p : Location) : Prop :=
  (∃ f, t.node p = some (.file f)) ∨ (t.node p = none ∧ Creatable t p)

theorem placeableNoDir {t : Tree} {p : Location} (free : Placeable t p) (w : Bool) : t.node p ≠ some (.dir w) := by
  intro dir
  rcases free with ⟨f,file⟩ | ⟨none,_⟩
  · rw [file] at dir
    cases dir
  · rw [none] at dir
    cases dir

theorem placeableParent {t : Tree} {p : Location} {n : Name} (free : Placeable t (p ++ [n])) :
    ∃ w, t.node p = some (.dir w) := by
  rcases free with ⟨f,file⟩ | ⟨_,_,parent,_⟩
  · exact t.rooted p n (by rw [file]; rfl)
  · rw [List.dropLast_concat] at parent
    exact ⟨true,parent⟩

section
variable {t : Tree} {p : Location}

def putNode (t : Tree) (p : Location) (f : File) (q : Location) : Option Node :=
  if q = p then some (.file f) else t.node q

theorem putRooted (f : File) (free : Placeable t p) (q : Location) (n : Name)
    (present : (putNode t p f (q ++ [n])).isSome) : ∃ w, putNode t p f q = some (.dir w) := by
  have parent : ∃ w, t.node q = some (.dir w) := by
    unfold putNode at present
    split at present
    · rename_i here
      exact placeableParent (here ▸ free)
    · exact t.rooted q n present
  obtain ⟨w,dir⟩ := parent
  have other : q ≠ p := fun same => placeableNoDir free w (same ▸ dir)
  exact ⟨w,by rw [putNode,if_neg other,dir]⟩

theorem putNamed (f : File) (free : Placeable t p) (q : Location) (present : (putNode t p f q).isSome) :
    ∀ n ∈ q, ValidName n := by
  unfold putNode at present
  split at present
  · rename_i here
    rw [here]
    rcases free with ⟨g,file⟩ | ⟨_,_,_,valid⟩
    · exact t.named p (by rw [file]; rfl)
    · exact valid
  · exact t.named q present

theorem putWorking (f : File) (free : Placeable t p) : ∃ w, putNode t p f t.cwd = some (.dir w) := by
  obtain ⟨w,dir⟩ := t.working
  have other : t.cwd ≠ p := fun same => placeableNoDir free w (same ▸ dir)
  exact ⟨w,by rw [putNode,if_neg other,dir]⟩

end

def put (t : Tree) (p : Location) (f : File) (free : Placeable t p) : Tree :=
  ⟨t.cwd,putNode t p f,putRooted f free,putNamed f free,putWorking f free⟩

def newFile : File := ⟨[],true,true,true⟩

/- What open(path, 'w') opens: the file that is there, or a new one. -/
def opened (t : Tree) (p : Location) : Option {_f : File // Placeable t p} :=
  match here : t.node p with
  | some (.dir _) => none
  | some (.file f) => if f.writable then some ⟨f,.inl ⟨f,here⟩⟩ else none
  | none => if free : Creatable t p then some ⟨newFile,.inr ⟨here,free⟩⟩ else none

def writeText (t : Tree) (path text : Text) : Option Tree :=
  (opened t (resolve t.cwd path)).map
    (fun f => put t (resolve t.cwd path) {f.val with text := text,decodable := true} f.property)

def WritableAt (t : Tree) (p : Location) : Prop :=
  (∃ f, t.node p = some (.file f) ∧ f.writable) ∨ (t.node p = none ∧ Creatable t p)

section
variable {t t' : Tree} {path text : Text}

theorem openedIff {p : Location} : (opened t p).isSome ↔ WritableAt t p := by
  unfold opened WritableAt
  split
  · rename_i w here
    simp [here]
  · rename_i f here
    simp [here]
  · rename_i here
    simp [here]

theorem writeTextIff : (writeText t path text).isSome ↔ WritableAt t (resolve t.cwd path) := by
  rw [writeText,Option.isSome_map,openedIff]

theorem writtenTree (wrote : writeText t path text = some t') : ∃ f : File, ∃ free : Placeable t (resolve t.cwd path),
    t' = put t (resolve t.cwd path) {f with text := text,decodable := true} free ∧
      f.readable = (fileAt t path).elim true File.readable := by
  rw [writeText,Option.map_eq_some_iff] at wrote
  obtain ⟨⟨f,free⟩,open',same⟩ := wrote
  refine ⟨f,free,same.symm,?_⟩
  unfold opened at open'
  rw [fileAt]
  split at open'
  · cases open'
  · rename_i g here
    split at open'
    · cases open'
      rw [here]
      rfl
    · cases open'
  · rename_i here
    split at open'
    · cases open'
      rw [here]
      rfl
    · cases open'

theorem writeKeepsCwd (wrote : writeText t path text = some t') : t'.cwd = t.cwd := by
  obtain ⟨f,free,rfl,_⟩ := writtenTree wrote
  rfl

theorem writtenFile (wrote : writeText t path text = some t') : ∃ f, fileAt t' path = some f ∧
    f.text = text ∧ f.decodable = true ∧ f.readable = (fileAt t path).elim true File.readable := by
  obtain ⟨f,free,rfl,readable⟩ := writtenTree wrote
  refine ⟨{f with text := text,decodable := true},?_,rfl,rfl,readable⟩
  have here : (put t (resolve t.cwd path) {f with text := text,decodable := true} free).node
      (resolve t.cwd path) = some (.file {f with text := text,decodable := true}) := if_pos rfl
  unfold fileAt
  rw [show (put t (resolve t.cwd path) {f with text := text,decodable := true} free).cwd = t.cwd from rfl,here]
  rfl

theorem writeElsewhere (wrote : writeText t path text = some t') {q : Location}
    (other : q ≠ resolve t.cwd path) : t'.node q = t.node q := by
  obtain ⟨f,free,rfl,_⟩ := writtenTree wrote
  exact if_neg other

theorem fileElsewhere (wrote : writeText t path text = some t') {other : Text}
    (apart : resolve t.cwd other ≠ resolve t.cwd path) : fileAt t' other = fileAt t other := by
  rw [fileAt,fileAt,writeKeepsCwd wrote,writeElsewhere wrote apart]

end

theorem readTextFile {t : Tree} {path text : Text} (read : readText t path = some text) : ∃ f,
    fileAt t path = some f ∧ f.readable = true ∧ f.decodable = true ∧ f.text = text := by
  obtain ⟨f,found,open'⟩ := Option.bind_eq_some_iff.mp read
  split at open'
  · rename_i allowed
    exact ⟨f,found,allowed.1,allowed.2,Option.some.inj open'⟩
  · cases open'

theorem writableFile {t : Tree} {path : Text} {f : File} (found : fileAt t path = some f) :
    WritableAt t (resolve t.cwd path) ↔ f.writable = true := by
  unfold fileAt fileOf at found
  split at found
  · rename_i g node
    cases found
    simp [WritableAt,node]
  · cases found

theorem readWrittenText {t t' : Tree} {path text : Text} (wrote : writeText t path text = some t') :
    readText t' path = if (fileAt t path).elim true File.readable then some text else none := by
  obtain ⟨f,here,same,decodable,readable⟩ := writtenFile wrote
  rw [readText,here,Option.bind_some,same,decodable,readable]
  simp

theorem resolveJoin (cwd : Location) (a b : Text) :
    resolve cwd (a ++ '/' :: b) = resolve (resolve cwd a) b := by
  unfold resolve fields
  rw [List.splitOn_append_cons_self,List.filter_append,List.foldl_append]

theorem resolveName (cwd : Location) {n : Name} (valid : ValidName n) : resolve cwd n = cwd ++ [n] := by
  obtain ⟨nonempty,here,up,whole⟩ := valid
  unfold resolve fields
  rw [List.splitOn_eq_singleton whole,List.filter_cons_of_pos (by simp [nonempty,here])]
  exact if_neg up

def entryAt (entries : List (Location × Node)) (p : Location) : Option Node :=
  (entries.find? (fun e => e.1 = p)).map Prod.snd

structure EntryList (cwd : Location) (entries : List (Location × Node)) : Prop where
  rooted : ∀ e ∈ entries, e.1 = [] ∨ entryAt entries e.1.dropLast = some (.dir true)
  named : ∀ e ∈ entries, ∀ n ∈ e.1, ValidName n
  working : entryAt entries cwd = some (.dir true)

section
variable {cwd : Location} {entries : List (Location × Node)}

theorem entryListed {p : Location} (present : (entryAt entries p).isSome) : ∃ e ∈ entries, e.1 = p := by
  rw [entryAt,Option.isSome_map,List.find?_isSome] at present
  obtain ⟨e,mem,same⟩ := present
  exact ⟨e,mem,of_decide_eq_true same⟩

theorem entriesRooted (list : EntryList cwd entries) (p : Location) (n : Name)
    (present : (entryAt entries (p ++ [n])).isSome) : ∃ w, entryAt entries p = some (.dir w) := by
  obtain ⟨e,mem,same⟩ := entryListed present
  rcases list.rooted e mem with root | parent
  · rw [root] at same
    exact absurd same.symm (by simp)
  · rw [same,List.dropLast_concat] at parent
    exact ⟨true,parent⟩

theorem entriesNamed (list : EntryList cwd entries) (p : Location) (present : (entryAt entries p).isSome) :
    ∀ n ∈ p, ValidName n := by
  obtain ⟨e,mem,rfl⟩ := entryListed present
  exact list.named e mem

end

def treeOf (cwd : Location) (entries : List (Location × Node)) (list : EntryList cwd entries) : Tree :=
  ⟨cwd,entryAt entries,entriesRooted list,entriesNamed list,⟨true,list.working⟩⟩

end KernelTestTools.FileTree
