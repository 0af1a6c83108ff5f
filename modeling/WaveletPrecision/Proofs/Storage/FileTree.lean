import WaveletPrecision.Proofs.Error
import WaveletPrecision.Proofs.Storage.Path

/-
What the operations on a file tree change.

An operation that succeeds follows its path through directories, so all of its paths are
known from their places (`FileTree.locate_eq_place`), and whether a path can be followed
depends on the directories of the tree alone (`FileTree.follow_mono`).

The trees before and after operations are related by `FileTree.ChangesOnly`: directories
stay, and files are only touched at some places.  Making directories touches no file
(`FileTree.changesOnly_makeDirectories`), and putting a file at a path touches the one at
its place (`FileTree.changesOnly_write`), which can then be read (`FileTree.read_write`); if the
write is broken off, then the first bytes are read (`FileTree.write_eq_error`).
What is read at any other place was there before (`FileTree.ChangesOnly.read`).
-/
namespace WaveletPrecision

namespace FileTree

/-! ### One location -/

lemma lookup_root (tree : FileTree) : tree.lookup [] = some .directory := if_pos rfl

lemma lookup_put {tree : FileTree} {place other : Location} {entry : TreeEntry}
    (hplace : place ≠ []) :
    (tree.put place entry).lookup other
      = if other = place then some entry else tree.lookup other := by
  by_cases hother : other = place
  · subst hother
    simp [lookup, put, hplace]
  · rw [if_neg hother, lookup, lookup]
    have hkept : (tree.put place entry).entries.find? (fun entry => entry.1 == other)
        = tree.entries.find? (fun entry => entry.1 == other) := by
      simp only [put, erase, List.find?_cons, List.find?_filter, beq_false_of_ne (Ne.symm hother)]
      congr 1
      funext entry
      by_cases hentry : entry.1 = other <;> simp [hentry, hother]
    rw [hkept]

/-- A name is short enough to be looked up. -/
def FitsName (place : Location) : Prop := ∀ name ∈ place.head?, name.utf8ByteSize ≤ nameLimit

lemma find_eq_ok_iff {tree : FileTree} {place : Location} {entry : Option TreeEntry} :
    tree.find place = .ok entry ↔ FitsName place ∧ tree.lookup place = entry := by
  cases place with
  | nil => simp [find, FitsName]
  | cons name place =>
    rw [find]
    split
    · rename_i hlong
      simp [FitsName, Nat.not_le_of_lt hlong]
    · rename_i hshort
      simp [FitsName, Nat.le_of_not_lt hshort]

/-! ### Following a path -/

lemma follow_cons_eq_ok_iff {tree : FileTree} {place l : Location} {piece : String}
    {pieces : List String} :
    tree.follow place (piece :: pieces) = .ok l ↔
      tree.find place = .ok (some .directory) ∧
        tree.follow (Path.stepTo place piece) pieces = .ok l := by
  rw [follow, Path.stepTo]
  cases hfind : tree.find place with
  | error fault => simp [bind, Except.bind]
  | ok entry =>
    rcases entry with _ | _ | content
    · simp [bind, Except.bind, throw, throwThe, MonadExceptOf.throw]
    · simp only [bind, Except.bind, true_and]
      split
      · rfl
      · split <;> rfl
    · simp [bind, Except.bind, throw, throwThe, MonadExceptOf.throw]

/-- Pieces that can be followed lead where they would lead in any tree. -/
lemma follow_eq_foldl {tree : FileTree} {place l : Location} {pieces : List String}
    (h : tree.follow place pieces = .ok l) : l = pieces.foldl Path.stepTo place := by
  induction pieces generalizing place with
  | nil =>
    rw [follow] at h
    cases h
    rfl
  | cons piece pieces ih => exact ih (follow_cons_eq_ok_iff.mp h).2

/-- Pieces that can be followed in a tree can be followed in any tree with the directories of
that one. -/
lemma follow_mono {before after : FileTree}
    (hdirectory : ∀ l, before.lookup l = some .directory → after.lookup l = some .directory)
    {place l : Location} {pieces : List String} (h : before.follow place pieces = .ok l) :
    after.follow place pieces = .ok l := by
  induction pieces generalizing place with
  | nil => exact h
  | cons piece pieces ih =>
    rw [follow_cons_eq_ok_iff, find_eq_ok_iff] at h ⊢
    obtain ⟨⟨hfits, hlookup⟩, hrest⟩ := h
    exact ⟨⟨hfits, hdirectory place hlookup⟩, ih hrest⟩

lemma locate_eq_ok_iff {tree : FileTree} {path : Path} {l : Location} :
    tree.locate path = .ok l ↔ path.validate = .ok () ∧ tree.follow [] path.pieces = .ok l := by
  rw [locate, check_bind_eq_ok_iff]

/-- **A path that can be followed leads to its place.** -/
lemma locate_eq_place {tree : FileTree} {path : Path} {l : Location}
    (h : tree.locate path = .ok l) : l = path.place :=
  follow_eq_foldl (locate_eq_ok_iff.mp h).2

lemma follow_append (tree : FileTree) (place : Location) (front back : List String) :
    tree.follow place (front ++ back)
      = tree.follow place front >>= fun between => tree.follow between back := by
  induction front generalizing place with
  | nil => rfl
  | cons piece front ih =>
    rw [List.cons_append, follow, follow]
    rcases tree.find place with fault | _ | _ | content
    · rfl
    · rfl
    · simp only [bind, Except.bind] at ih ⊢
      split
      · exact ih _
      · split <;> exact ih _
    · rfl

lemma follow_append_eq_ok_iff {tree : FileTree} {place l : Location} {front back : List String} :
    tree.follow place (front ++ back) = .ok l ↔
      ∃ between, tree.follow place front = .ok between ∧ tree.follow between back = .ok l := by
  rw [follow_append, bind_eq_ok_iff]

/-- If there is a way to one name below a directory, then there is a way to any other one. -/
lemma locate_sibling {tree : FileTree} {directory : Path} {name name' : String} {l : Location}
    (hname : Path.separator ∉ name.toList) (hname' : Path.separator ∉ name'.toList)
    (h : tree.locate (directory.join (.ofString name)) = .ok l)
    (hvalid : (directory.join (.ofString name')).validate = .ok ()) :
    tree.locate (directory.join (.ofString name'))
      = .ok (directory.join (.ofString name')).place := by
  rw [locate_eq_ok_iff, Path.pieces_join_name _ hname, follow_append_eq_ok_iff] at h
  obtain ⟨-, below, hstem, hlast⟩ := h
  have hlocate : tree.locate (directory.join (.ofString name'))
      = .ok (Path.stepTo below name') := by
    rw [locate_eq_ok_iff, Path.pieces_join_name _ hname', follow_append_eq_ok_iff]
    exact ⟨hvalid, below, hstem, follow_cons_eq_ok_iff.mpr
      ⟨(follow_cons_eq_ok_iff.mp hlast).1, rfl⟩⟩
  rw [hlocate, ← locate_eq_place hlocate]

/-! ### Reading and writing -/

lemma read_eq_ok_iff {tree : FileTree} {path : Path} {content : ByteArray} :
    tree.read path = .ok content ↔ tree.locate path = .ok path.place ∧
      FitsName path.place ∧ tree.lookup path.place = some (.file content) := by
  rw [← find_eq_ok_iff, read, entryAt]
  constructor
  · intro h
    obtain ⟨entry, hentry, h⟩ := bind_eq_ok_iff.mp h
    obtain ⟨l, hlocate, hfind⟩ := bind_eq_ok_iff.mp hentry
    obtain rfl := locate_eq_place hlocate
    rcases entry with _ | _ | found
    · cases h
    · cases h
    · cases h
      exact ⟨hlocate, hfind⟩
  · rintro ⟨hlocate, hfind⟩
    refine bind_eq_ok_iff.mpr ⟨_, bind_eq_ok_iff.mpr ⟨_, hlocate, hfind⟩, rfl⟩

lemma target_eq_ok {tree : FileTree} {path : Path} {l : Location}
    (h : tree.target path = .ok l) : l = path.place ∧ tree.locate path = .ok path.place ∧
      FitsName path.place ∧ tree.lookup path.place ≠ some .directory := by
  rw [target] at h
  obtain ⟨_, hvalid, h⟩ := bind_eq_ok_iff.mp h
  obtain ⟨place, hfollow, h⟩ := bind_eq_ok_iff.mp h
  split at h
  · obtain ⟨_, hthrow, -⟩ := bind_eq_ok_iff.mp h
    cases hthrow
  · rename_i hname
    obtain ⟨entry, hfind, h⟩ := bind_eq_ok_iff.mp h
    have hpieces : namedPieces path = path.pieces := by
      by_contra hne
      exact hname (by simp [hne])
    have hlocate : tree.locate path = .ok place := locate_eq_ok_iff.mpr ⟨hvalid, hpieces ▸ hfollow⟩
    obtain rfl := locate_eq_place hlocate
    rw [find_eq_ok_iff] at hfind
    split at h
    · cases h
    · rename_i hfile
      cases h
      exact ⟨rfl, hlocate, hfind.1, fun hdirectory => hfile (hfind.2.symm.trans hdirectory)⟩

/-- What is in a file after a write with some result: all bytes, or those up to where the write was
broken off. -/
inductive Written (content : ByteArray) : Except (FileAction × Fault) Unit → ByteArray → Prop where
  | all : Written content (.ok ()) content
  | part (fault : Fault) (n : Nat) : Written content (.error (.write, fault)) (content.extract 0 n)

/-- **What a write does.**  It puts no file and tells that none could be created, or it puts one at
the place of the path. -/
lemma write_cases (tree : FileTree) (path : Path) (content : ByteArray) :
    (∃ fault, tree.write path content = (.error (.create, fault), tree)) ∨
    ∃ result stored, tree.target path = .ok path.place ∧ Written content result stored ∧
      tree.write path content = (result, tree.advance.put path.place (.file stored)) := by
  rw [write]
  cases htarget : tree.target path with
  | error fault => exact .inl ⟨fault, rfl⟩
  | ok place =>
    obtain ⟨rfl, -⟩ := target_eq_ok htarget
    right
    cases hstop : tree.interruption? with
    | none => exact ⟨_, _, rfl, .all, rfl⟩
    | some stop => exact ⟨_, _, rfl, .part stop.fault stop.written, rfl⟩

lemma makeDirectory_eq_ok {tree after : FileTree} {path : Path}
    (h : tree.makeDirectory path = .ok after) :
    ∃ place, tree.lookup place = none ∧ after = tree.put place .directory := by
  rw [makeDirectory] at h
  obtain ⟨_, -, h⟩ := bind_eq_ok_iff.mp h
  obtain ⟨l, -, h⟩ := bind_eq_ok_iff.mp h
  split at h
  · obtain ⟨_, hthrow, -⟩ := bind_eq_ok_iff.mp h
    cases hthrow
  · obtain ⟨entry, hfind, h⟩ := bind_eq_ok_iff.mp h
    rw [find_eq_ok_iff] at hfind
    split at h
    · cases h
    · cases h
      exact ⟨l, hfind.2, rfl⟩

/-! ### What changes -/

/-- Directories stay directories, and no file is made, changed or removed but at some places. -/
structure ChangesOnly (places : Location → Prop) (before after : FileTree) : Prop where
  directory : ∀ l, before.lookup l = some .directory → after.lookup l = some .directory
  file : ∀ l content, ¬places l →
    (after.lookup l = some (.file content) ↔ before.lookup l = some (.file content))

variable {places : Location → Prop} {before between after : FileTree}

lemma ChangesOnly.refl (places : Location → Prop) (tree : FileTree) :
    ChangesOnly places tree tree :=
  ⟨fun _ h => h, fun _ _ _ => Iff.rfl⟩

lemma ChangesOnly.trans (h : ChangesOnly places before between)
    (h' : ChangesOnly places between after) : ChangesOnly places before after :=
  ⟨fun l hl => h'.directory l (h.directory l hl),
    fun l content hl => (h'.file l content hl).trans (h.file l content hl)⟩

lemma ChangesOnly.mono {places' : Location → Prop} (h : ChangesOnly places before after)
    (hplaces : ∀ l, places l → places' l) : ChangesOnly places' before after :=
  ⟨h.directory, fun l content hl => h.file l content (mt (hplaces l) hl)⟩

lemma ChangesOnly.locate (h : ChangesOnly places before after) {path : Path} {l : Location}
    (hlocate : before.locate path = .ok l) : after.locate path = .ok l := by
  rw [locate_eq_ok_iff] at hlocate ⊢
  exact ⟨hlocate.1, follow_mono h.directory hlocate.2⟩

lemma ChangesOnly.read (h : ChangesOnly places before after) {path : Path} {content : ByteArray}
    (hplace : ¬places path.place) (hread : before.read path = .ok content) :
    after.read path = .ok content := by
  rw [read_eq_ok_iff] at hread ⊢
  obtain ⟨hlocate, hfits, hlookup⟩ := hread
  exact ⟨h.locate hlocate, hfits, (h.file _ _ hplace).mpr hlookup⟩

/-- A file at any other place that can be read was there before, if there was a way to it. -/
lemma ChangesOnly.read_before (h : ChangesOnly places before after) {path : Path}
    {content : ByteArray} (hplace : ¬places path.place)
    (hlocate : before.locate path = .ok path.place) (hread : after.read path = .ok content) :
    before.read path = .ok content := by
  rw [read_eq_ok_iff] at hread ⊢
  obtain ⟨-, hfits, hlookup⟩ := hread
  exact ⟨hlocate, hfits, (h.file _ _ hplace).mp hlookup⟩

lemma changesOnly_advance (places : Location → Prop) (tree : FileTree) :
    ChangesOnly places tree tree.advance :=
  ⟨fun _ h => h, fun _ _ _ => Iff.rfl⟩

lemma changesOnly_put_file {tree : FileTree} {place : Location} (content : ByteArray)
    (hplace : tree.lookup place ≠ some .directory) :
    ChangesOnly (· = place) tree (tree.put place (.file content)) := by
  have hroot : place ≠ [] := by
    rintro rfl
    exact hplace tree.lookup_root
  constructor
  · intro l hl
    have hne : l ≠ place := by
      rintro rfl
      exact hplace hl
    rwa [lookup_put hroot, if_neg hne]
  · intro l c hl
    rw [lookup_put hroot, if_neg hl]

lemma changesOnly_put_directory {tree : FileTree} {place : Location}
    (hplace : tree.lookup place = none) :
    ChangesOnly (fun _ => False) tree (tree.put place .directory) := by
  have hroot : place ≠ [] := by
    rintro rfl
    rw [tree.lookup_root] at hplace
    cases hplace
  constructor
  · intro l hl
    rw [lookup_put hroot]
    split
    · rfl
    · exact hl
  · intro l c _
    rw [lookup_put hroot]
    split
    · rename_i heq
      simp [heq, hplace]
    · rfl

/-- **Putting a file at a path** changes no other file, whether all of it is written or not. -/
lemma changesOnly_write (tree : FileTree) (path : Path) (content : ByteArray) :
    ChangesOnly (· = path.place) tree (tree.write path content).2 := by
  rcases tree.write_cases path content with ⟨fault, h⟩ | ⟨result, stored, htarget, -, h⟩
  · rw [h]
    exact .refl _ tree
  · rw [h]
    obtain ⟨-, -, -, hdirectory⟩ := target_eq_ok htarget
    exact (changesOnly_advance _ tree).trans (changesOnly_put_file stored hdirectory)

lemma read_put_file {tree : FileTree} {path : Path} (h : tree.target path = .ok path.place)
    (content : ByteArray) :
    (tree.advance.put path.place (.file content)).read path = .ok content := by
  obtain ⟨-, hlocate, hfits, hdirectory⟩ := target_eq_ok h
  have hroot : path.place ≠ [] := by
    intro heq
    exact hdirectory (heq ▸ tree.lookup_root)
  have hchanges := (changesOnly_advance _ tree).trans (changesOnly_put_file content hdirectory)
  refine read_eq_ok_iff.mpr ⟨hchanges.locate hlocate, hfits, ?_⟩
  rw [lookup_put hroot, if_pos rfl]

/-- **A file that was put at a path** is read at that path. -/
lemma read_write {tree : FileTree} {path : Path} {content : ByteArray}
    (h : tree.write path content = (.ok (), after)) : after.read path = .ok content := by
  rcases tree.write_cases path content with ⟨fault, h'⟩ | ⟨result, stored, htarget, hwritten, h'⟩
  · rw [h'] at h
    cases h
  · rw [h'] at h
    cases h
    cases hwritten
    exact read_put_file htarget content

/-- A write that fails has left the tree as it is, or the first bytes at the path. -/
lemma write_eq_error {tree : FileTree} {path : Path} {content : ByteArray} {action : FileAction}
    {fault : Fault} (h : tree.write path content = (.error (action, fault), after)) :
    action = .create ∧ after = tree ∨
      action = .write ∧ ∃ n, after.read path = .ok (content.extract 0 n) := by
  rcases tree.write_cases path content with ⟨_, h'⟩ | ⟨result, stored, htarget, hwritten, h'⟩
  · rw [h'] at h
    cases h
    exact .inl ⟨rfl, rfl⟩
  · rw [h'] at h
    cases h
    cases hwritten with
    | part _ n => exact .inr ⟨rfl, n, read_put_file htarget _⟩

/-! ### Making directories -/

lemma changesOnly_ensureDirectory (tree : FileTree) (path : Path) :
    ChangesOnly (fun _ => False) tree (tree.ensureDirectory path).2 := by
  rw [ensureDirectory]
  split
  · rename_i after hmade
    obtain ⟨place, hnone, rfl⟩ := makeDirectory_eq_ok hmade
    exact changesOnly_put_directory hnone
  · split <;> exact ChangesOnly.refl _ tree

/-- What making one directory does, and does not undo when it is done again and again, making a
directory and those above it does. -/
lemma ensureLineage_induction (related : FileTree → FileTree → Prop)
    (hrefl : ∀ tree, related tree tree)
    (htrans : ∀ before between after, related before between → related between after →
      related before after)
    (hstep : ∀ tree path, related tree (tree.ensureDirectory path).2) (tree : FileTree)
    (paths : List Path) : related tree (tree.ensureLineage paths).2 := by
  induction paths generalizing tree with
  | nil => exact hrefl tree
  | cons path above ih =>
    rw [ensureLineage]
    split
    · exact hrefl tree
    · have hfirst := hstep tree path
      split
      · rename_i between hmissing
        rw [hmissing] at hfirst
        have habove := htrans _ _ _ hfirst (ih between)
        split
        · rename_i lowest hmade
          rw [hmade] at habove
          exact htrans _ _ _ habove (hstep lowest path)
        · exact habove
      · exact hfirst

/-- **Making directories changes no file**, also where it ends early. -/
lemma changesOnly_makeDirectories (tree : FileTree) (path : Path) :
    ChangesOnly (fun _ => False) tree (tree.makeDirectories path).2 :=
  ensureLineage_induction (ChangesOnly fun _ => False) (ChangesOnly.refl _)
    (fun _ _ _ => ChangesOnly.trans) changesOnly_ensureDirectory tree path.lineage

lemma interruptions_ensureDirectory (tree : FileTree) (path : Path) :
    (tree.ensureDirectory path).2.interruptions = tree.interruptions := by
  rw [ensureDirectory]
  split
  · rename_i after hmade
    obtain ⟨place, -, rfl⟩ := makeDirectory_eq_ok hmade
    rfl
  · split <;> rfl

/-- Making directories writes nothing, so the device does with the next writes what it would have
done. -/
lemma interruptions_makeDirectories (tree : FileTree) (path : Path) :
    (tree.makeDirectories path).2.interruptions = tree.interruptions :=
  ensureLineage_induction (fun before after => after.interruptions = before.interruptions)
    (fun _ => rfl) (fun _ _ _ h h' => h'.trans h) interruptions_ensureDirectory tree path.lineage

end FileTree

end WaveletPrecision
