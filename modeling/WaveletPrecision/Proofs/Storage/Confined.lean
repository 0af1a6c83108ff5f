import WaveletPrecision.Proofs.Storage.Artifact

/-
Actions that keep to some places.

An action on a file tree keeps to places (`FileTree.Confined`) if it changes no file elsewhere,
and if the content of a file elsewhere has no part in what it does: on two trees that differ in
such contents only (`FileTree.SameWithin`) it has the same result, and it leaves two trees that
differ in such contents only.  Directories, and where there is nothing, are seen everywhere, since
a path is followed through directories.

Reading keeps to the place of its path, putting a file changes the file at the place of its path,
and making directories looks at no content at all.  Actions one after the other, and lists of them,
keep to the places of the actions (`FileTree.Confined.bind`, `FileTree.Confined.foldlM`).
-/
namespace WaveletPrecision

namespace FileTree

/-! ### Trees that differ in contents -/

/-- There is the same at a location of two trees, but for the content of a file, which is the same
under a condition. -/
inductive Alike (same : Prop) : Option TreeEntry → Option TreeEntry → Prop where
  | nothing : Alike same none none
  | directory : Alike same (some .directory) (some .directory)
  | file {content content' : ByteArray} (h : same → content' = content) :
      Alike same (some (.file content)) (some (.file content'))

lemma Alike.refl (same : Prop) (entry : Option TreeEntry) : Alike same entry entry := by
  rcases entry with _ | _ | content
  · exact .nothing
  · exact .directory
  · exact .file fun _ => rfl

/-- Two trees, on devices that do the same with the next writes, that differ in nothing but the
contents of files, and not at some places. -/
structure SameWithin (places : Location → Prop) (tree other : FileTree) : Prop where
  device : other.interruptions = tree.interruptions
  entry : ∀ l, Alike (places l) (tree.lookup l) (other.lookup l)

/-- Two results that are the same fault, or related values. -/
inductive Agree {A : Type} (related : A → A → Prop) : Except Fault A → Except Fault A → Prop where
  | fault (fault : Fault) : Agree related (.error fault) (.error fault)
  | value {a a' : A} (h : related a a') : Agree related (.ok a) (.ok a')

lemma Agree.refl {A : Type} (x : Except Fault A) : Agree Eq x x := by
  cases x with
  | error fault => exact .fault fault
  | ok a => exact .value rfl

lemma Agree.bind {A B : Type} {related : A → A → Prop} {related' : B → B → Prop}
    {x x' : Except Fault A} {f f' : A → Except Fault B} (h : Agree related x x')
    (hnext : ∀ a a', related a a' → Agree related' (f a) (f' a')) :
    Agree related' (x >>= f) (x' >>= f') := by
  cases h with
  | fault fault => exact .fault fault
  | value h => exact hnext _ _ h

section Operations

variable {places : Location → Prop} {tree other : FileTree}

lemma SameWithin.find (h : SameWithin places tree other) (l : Location) :
    Agree (Alike (places l)) (tree.find l) (other.find l) := by
  cases l with
  | nil => exact .value (h.entry [])
  | cons name l =>
    rw [FileTree.find, FileTree.find]
    split
    · exact .fault _
    · exact .value (h.entry _)

/-- The same, and a location without a directory is not the root, so something can be put there. -/
lemma SameWithin.find_of_ne_directory (h : SameWithin places tree other) (l : Location) :
    Agree (fun entry entry' => Alike (places l) entry entry' ∧
      (entry ≠ some .directory → l ≠ [])) (tree.find l) (other.find l) := by
  have hfind := h.find l
  have hroot : l = [] → tree.find l = .ok (some .directory) := by
    rintro rfl
    rw [FileTree.find, lookup_root]
  generalize tree.find l = x, other.find l = x' at hfind hroot
  cases hfind with
  | fault fault => exact .fault fault
  | value hentry =>
    refine .value ⟨hentry, fun hne hl => hne ?_⟩
    cases hroot hl
    rfl

/-- A path is followed by the directories alone. -/
lemma SameWithin.follow (h : SameWithin places tree other) (place : Location)
    (pieces : List String) : other.follow place pieces = tree.follow place pieces := by
  induction pieces generalizing place with
  | nil => rfl
  | cons piece pieces ih =>
    rw [FileTree.follow, FileTree.follow]
    have hfind := h.find place
    generalize tree.find place = x, other.find place = x' at hfind
    cases hfind with
    | fault fault => rfl
    | value hentry =>
      cases hentry with
      | nothing => rfl
      | file => rfl
      | directory =>
        simp only [bind, Except.bind, ih]

lemma SameWithin.locate (h : SameWithin places tree other) (path : Path) :
    other.locate path = tree.locate path := by
  rw [FileTree.locate, FileTree.locate]
  simp only [h.follow]

lemma SameWithin.entryAt (h : SameWithin places tree other) (path : Path) :
    Agree (Alike (places path.place)) (tree.entryAt path) (other.entryAt path) := by
  rw [FileTree.entryAt, FileTree.entryAt, h.locate]
  cases hlocate : tree.locate path with
  | error fault => exact .fault fault
  | ok l =>
    obtain rfl := locate_eq_place hlocate
    exact h.find path.place

lemma SameWithin.read (h : SameWithin places tree other) {path : Path}
    (hplace : places path.place) : other.read path = tree.read path := by
  rw [FileTree.read, FileTree.read]
  have hentry := h.entryAt path
  generalize tree.entryAt path = x, other.entryAt path = x' at hentry
  cases hentry with
  | fault fault => rfl
  | value hentry =>
    cases hentry with
    | nothing => rfl
    | directory => rfl
    | file hsame => rw [hsame hplace]

lemma SameWithin.isDirectory (h : SameWithin places tree other) (path : Path) :
    other.isDirectory path = tree.isDirectory path := by
  rw [FileTree.isDirectory, FileTree.isDirectory]
  have hentry := h.entryAt path
  generalize tree.entryAt path = x, other.entryAt path = x' at hentry
  cases hentry with
  | fault fault => rfl
  | value hentry => cases hentry <;> rfl

lemma SameWithin.put (h : SameWithin places tree other) {place : Location} (hplace : place ≠ [])
    (entry : TreeEntry) : SameWithin places (tree.put place entry) (other.put place entry) := by
  refine ⟨h.device, fun l => ?_⟩
  rw [lookup_put hplace, lookup_put hplace]
  split
  · exact .refl _ _
  · exact h.entry l

lemma SameWithin.advance (h : SameWithin places tree other) :
    SameWithin places tree.advance other.advance :=
  ⟨congrArg List.tail h.device, h.entry⟩

lemma sameWithin_put_file (tree : FileTree) {place : Location} (hroot : place ≠ [])
    (hplace : ¬places place) (content content' : ByteArray) :
    SameWithin places (tree.put place (.file content)) (tree.put place (.file content')) := by
  refine ⟨rfl, fun l => ?_⟩
  rw [lookup_put hroot, lookup_put hroot]
  split
  · rename_i hl
    exact .file fun hsame => absurd (hl ▸ hsame) hplace
  · exact .refl _ _

/-- Where a file can be put depends on no content, and it is not the root. -/
lemma SameWithin.target (h : SameWithin places tree other) (path : Path) :
    Agree (fun l l' => l' = l ∧ l ≠ []) (tree.target path) (other.target path) := by
  rw [FileTree.target, FileTree.target, h.follow]
  refine (Agree.refl path.validate).bind fun _ _ _ => (Agree.refl _).bind ?_
  rintro l _ rfl
  split
  · exact .fault _
  · refine (h.find_of_ne_directory l).bind ?_
    rintro _ _ ⟨hentry, hroot⟩
    cases hentry with
    | directory => exact .fault _
    | nothing => exact .value ⟨rfl, hroot (by simp)⟩
    | file => exact .value ⟨rfl, hroot (by simp)⟩

/-- Two runs that end with one result, on trees that differ in contents elsewhere only. -/
structure SameRun {R : Type} (places : Location → Prop) (x x' : R × FileTree) : Prop where
  result : x'.1 = x.1
  trees : SameWithin places x.2 x'.2

/-- Putting a file looks at no content. -/
lemma SameWithin.write (h : SameWithin places tree other) (path : Path) (content : ByteArray) :
    SameRun places (tree.write path content) (other.write path content) := by
  have htarget := h.target path
  have hstop : other.interruption? = tree.interruption? :=
    congrArg (fun stops => stops.head?.join) h.device
  rw [FileTree.write, FileTree.write, hstop]
  generalize tree.target path = x, other.target path = x' at htarget
  cases htarget with
  | fault fault => exact ⟨rfl, h⟩
  | value hplace =>
    obtain ⟨rfl, hroot⟩ := hplace
    cases tree.interruption? with
    | none => exact ⟨rfl, h.advance.put hroot _⟩
    | some stop => exact ⟨rfl, h.advance.put hroot _⟩

lemma SameWithin.makeDirectory (h : SameWithin places tree other) (path : Path) :
    Agree (SameWithin places) (tree.makeDirectory path) (other.makeDirectory path) := by
  rw [FileTree.makeDirectory, FileTree.makeDirectory, h.follow]
  refine (Agree.refl path.validate).bind fun _ _ _ => (Agree.refl _).bind ?_
  rintro l _ rfl
  split
  · exact .fault _
  · refine (h.find_of_ne_directory l).bind ?_
    rintro _ _ ⟨hentry, hroot⟩
    cases hentry with
    | nothing => exact .value (h.put (hroot (by simp)) _)
    | directory => exact .fault _
    | file => exact .fault _

lemma SameWithin.ensureDirectory (h : SameWithin places tree other) (path : Path) :
    SameRun places (tree.ensureDirectory path) (other.ensureDirectory path) := by
  rw [FileTree.ensureDirectory, FileTree.ensureDirectory, h.isDirectory]
  have hmade := h.makeDirectory path
  generalize tree.makeDirectory path = x, other.makeDirectory path = x' at hmade
  cases hmade with
  | value hmade => exact ⟨rfl, hmade⟩
  | fault fault =>
    simp only
    split <;> exact ⟨rfl, h⟩

lemma SameWithin.ensureLineage (h : SameWithin places tree other) (paths : List Path) :
    SameRun places (tree.ensureLineage paths) (other.ensureLineage paths) := by
  induction paths generalizing tree other with
  | nil => exact ⟨rfl, h⟩
  | cons path above ih =>
    rw [FileTree.ensureLineage, FileTree.ensureLineage]
    split
    · exact ⟨rfl, h⟩
    · have hfirst := h.ensureDirectory path
      generalize tree.ensureDirectory path = x, other.ensureDirectory path = x' at hfirst
      obtain ⟨result, between⟩ := x
      obtain ⟨result', between'⟩ := x'
      obtain ⟨hresult, hbetween⟩ := hfirst
      obtain rfl : result = result' := hresult.symm
      cases result with
      | ok => exact ⟨rfl, hbetween⟩
      | error fault =>
        cases fault with
        | notFound =>
          -- something is missing above, which is made before the second attempt
          have habove := ih hbetween
          simp only
          generalize between.ensureLineage above = y, between'.ensureLineage above = y' at habove
          obtain ⟨result, lowest⟩ := y
          obtain ⟨result', lowest'⟩ := y'
          obtain ⟨hresult, hlowest⟩ := habove
          obtain rfl : result = result' := hresult.symm
          cases result with
          | ok => exact hlowest.ensureDirectory path
          | error => exact ⟨rfl, hlowest⟩
        | _ => exact ⟨rfl, hbetween⟩

/-- **Making directories** looks at no content. -/
lemma SameWithin.makeDirectories (h : SameWithin places tree other) (path : Path) :
    SameRun places (tree.makeDirectories path) (other.makeDirectories path) :=
  h.ensureLineage path.lineage

end Operations

/-! ### Actions -/

/-- An action looks at the contents of files at some places only, and changes files at some places
only. -/
structure Confined {A : Type} (reads writes : Location → Prop) (action : StateM FileTree A) :
    Prop where
  changesOnly : ∀ tree, ChangesOnly writes tree (Id.run (action.run tree)).2
  sameRun : ∀ tree other, SameWithin reads tree other →
    SameRun reads (Id.run (action.run tree)) (Id.run (action.run other))

namespace Confined

variable {A B E : Type} {reads writes : Location → Prop}

/-- An action that does nothing to the tree. -/
protected lemma pure (a : A) : Confined reads writes (pure a : StateM FileTree A) :=
  ⟨fun tree => .refl _ tree, fun _ _ h => ⟨rfl, h⟩⟩

/-- **Two actions one after the other** keep to the places of both. -/
protected lemma bind {action : StateM FileTree A} {next : A → StateM FileTree B}
    (h : Confined reads writes action) (hnext : ∀ a, Confined reads writes (next a)) :
    Confined reads writes (action >>= next) := by
  constructor
  · intro tree
    exact (h.changesOnly tree).trans ((hnext _).changesOnly _)
  · intro tree other hsame
    obtain ⟨hresult, htrees⟩ := h.sameRun tree other hsame
    change SameRun reads _
      (Id.run ((next (Id.run (action.run other)).1).run (Id.run (action.run other)).2))
    rw [hresult]
    exact (hnext (Id.run (action.run tree)).1).sameRun _ _ htrees

/-- The same for actions that may fail. -/
lemma bindResult {action : ExceptT E (StateM FileTree) A} {next : A → ExceptT E (StateM FileTree) B}
    (h : Confined reads writes action.run) (hnext : ∀ a, Confined reads writes (next a).run) :
    Confined reads writes (action >>= next).run := by
  rw [ExceptT.run_bind]
  refine h.bind fun result => ?_
  cases result with
  | error e => exact .pure _
  | ok a => exact hnext a

lemma ofResult (result : Except Error A) :
    Confined reads writes (Store.ofResult (M := StateM FileTree) result).run :=
  .pure result

lemma attempt {F : Type} (told : F → Error) {act : StateM FileTree (Except F A)}
    (h : Confined reads writes act) : Confined reads writes (Store.attempt told act).run := by
  rw [Store.attempt, ExceptT.run_mk]
  refine h.bind fun result => ?_
  cases result <;> exact .pure _

/-- Two trees that differ in contents elsewhere give one result. -/
lemma result_eq {action : StoreM (StateM FileTree) A} (h : Confined reads writes action.run)
    {tree other : FileTree} (hsame : SameWithin reads tree other) :
    (other.run action).1 = (tree.run action).1 :=
  (h.sameRun tree other hsame).result

lemma changesOnly_run {action : StoreM (StateM FileTree) A} (h : Confined reads writes action.run)
    (tree : FileTree) : ChangesOnly writes tree (tree.run action).2 :=
  h.changesOnly tree

/-! ### Lists of actions -/

lemma mapM {f : A → StateM FileTree B} {l : List A} (h : ∀ a ∈ l, Confined reads writes (f a)) :
    Confined reads writes (l.mapM f) := by
  induction l with
  | nil => exact .pure _
  | cons a l ih =>
    rw [List.forall_mem_cons] at h
    rw [List.mapM_cons]
    exact h.1.bind fun b => (ih h.2).bind fun bs => .pure _

lemma forM {f : A → ExceptT E (StateM FileTree) Unit} {l : List A}
    (h : ∀ a ∈ l, Confined reads writes (f a).run) : Confined reads writes (l.forM f).run := by
  induction l with
  | nil => exact .pure _
  | cons a l ih =>
    rw [List.forall_mem_cons] at h
    exact h.1.bindResult fun _ => ih h.2

lemma foldlM {f : B → A → ExceptT E (StateM FileTree) B} {l : List A}
    (h : ∀ a ∈ l, ∀ b, Confined reads writes (f b a).run) (start : B) :
    Confined reads writes (l.foldlM f start).run := by
  induction l generalizing start with
  | nil => exact .pure _
  | cons a l ih =>
    rw [List.forall_mem_cons] at h
    rw [List.foldlM_cons]
    exact (h.1 start).bindResult fun b => ih h.2 b

/-! ### The actions of a store -/

section Store

variable {path : Path}

lemma readBytes (hplace : reads path.place) :
    Confined reads writes (Store.readBytes (M := StateM FileTree) path).run := by
  refine attempt _ ⟨fun tree => .refl _ tree, fun tree other h => ⟨?_, h⟩⟩
  exact h.read hplace

lemma createDirectories (path : Path) :
    Confined reads writes (Store.createDirectories (M := StateM FileTree) path).run := by
  refine attempt _ ⟨fun tree => ?_, fun tree other h => h.makeDirectories path⟩
  exact (changesOnly_makeDirectories tree path).mono fun _ => False.elim

lemma putBytes (hplace : writes path.place) (content : ByteArray) :
    Confined reads writes (Store.putBytes (M := StateM FileTree) path content).run := by
  refine attempt _ ⟨fun tree => ?_, fun tree other h => h.write path content⟩
  exact (changesOnly_write tree path content).mono fun l hl => hl ▸ hplace

lemma writeBytes (hplace : writes path.place) (content : ByteArray) :
    Confined reads writes (Store.writeBytes (M := StateM FileTree) path content).run := by
  rw [Store.writeBytes]
  cases path.parent? with
  | none => exact putBytes hplace content
  | some parent => exact (createDirectories parent).bindResult fun _ => putBytes hplace content

lemma readTensor (hplace : reads path.place) (shape : List Nat) :
    Confined reads writes (Artifact.readTensor (M := StateM FileTree) path shape).run := by
  refine bindResult (bindResult (readBytes hplace) fun content => ?_) fun values => ofResult _
  cases Artifact.decode? content <;> exact .pure _

end Store

end Confined

end FileTree

end WaveletPrecision
