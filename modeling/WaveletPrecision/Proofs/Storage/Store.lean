import WaveletPrecision.Proofs.Storage.FileTree
import WaveletPrecision.Storage.Store

/-
The actions of a store on a file tree.

An action leaves a result, or an error, and a tree (`FileTree.run`).  An action in two parts
that succeeds is two actions that succeed, one after the other (`FileTree.run_bind_eq_ok_iff`),
so a stage that has ended well is taken apart action by action.  Reading leaves the tree as
it is; storing something at a path changes no other file (`FileTree.changesOnly_writeBytes`)
and can be read back (`FileTree.read_writeBytes`).  What is left when it fails is said by
`FileTree.FailsToStore`.
-/
namespace WaveletPrecision

namespace FileTree

variable {A B : Type} {tree after : FileTree}

/-- What an action makes of a tree: its result or its error, and the tree that it leaves. -/
def run (tree : FileTree) (act : StoreM (StateM FileTree) A) : Except Error A × FileTree :=
  Id.run ((ExceptT.run act).run tree)

lemma exists_run_eq {act : StoreM (StateM FileTree) A} {result : Except Error A}
    (h : (tree.run act).1 = result) : ∃ after, tree.run act = (result, after) :=
  ⟨(tree.run act).2, Prod.ext h rfl⟩

@[simp] lemma run_ofResult (tree : FileTree) (result : Except Error A) :
    tree.run (Store.ofResult result) = (result, tree) := rfl

lemma run_bind (tree : FileTree) (act : StoreM (StateM FileTree) A)
    (next : A → StoreM (StateM FileTree) B) :
    tree.run (act >>= next) =
      match tree.run act with
      | (.ok a, between) => between.run (next a)
      | (.error e, between) => (.error e, between) := by
  change (match tree.run act with
    | (result, between) => (ExceptT.bindCont next result).run between) = _
  rcases tree.run act with ⟨_ | a, between⟩ <;> rfl

/-- **Two actions one after the other** succeed if the first one succeeds and the second one
does so on the tree that the first one has left. -/
lemma run_bind_eq_ok_iff {act : StoreM (StateM FileTree) A}
    {next : A → StoreM (StateM FileTree) B} {b : B} :
    tree.run (act >>= next) = (.ok b, after) ↔
      ∃ a between, tree.run act = (.ok a, between) ∧ between.run (next a) = (.ok b, after) := by
  rw [run_bind]
  rcases hact : tree.run act with ⟨_ | a, between⟩
  · simp
  · simp

/-- Two actions one after the other fail if the first one fails, or if it succeeds and the second
one fails on the tree that the first one has left. -/
lemma run_bind_eq_error_iff {act : StoreM (StateM FileTree) A}
    {next : A → StoreM (StateM FileTree) B} {e : Error} :
    tree.run (act >>= next) = (.error e, after) ↔
      tree.run act = (.error e, after) ∨
        ∃ a between, tree.run act = (.ok a, between) ∧
          between.run (next a) = (.error e, after) := by
  rw [run_bind]
  rcases hact : tree.run act with ⟨_ | a, between⟩
  · simp
  · simp

lemma snd_run_bind {act : StoreM (StateM FileTree) A} {next : A → StoreM (StateM FileTree) B}
    (hact : (tree.run act).2 = tree) (hnext : ∀ a, (tree.run (next a)).2 = tree) :
    (tree.run (act >>= next)).2 = tree := by
  rw [run_bind]
  rcases hresult : tree.run act with ⟨_ | a, between⟩
  · rwa [hresult] at hact
  · rw [hresult] at hact
    cases hact
    exact hnext a

/-- **Actions that are taken one after the other** fail at the first of them that fails, on the
tree that those before it have left. -/
lemma run_foldlM_eq_error {f : B → A → StoreM (StateM FileTree) B} {l : List A} {start : B}
    {e : Error} (h : tree.run (l.foldlM f start) = (.error e, after)) :
    ∃ front a back b between, l = front ++ a :: back ∧
      tree.run (front.foldlM f start) = (.ok b, between) ∧
      between.run (f b a) = (.error e, after) := by
  induction l generalizing tree start with
  | nil => cases h
  | cons a l ih =>
    rw [List.foldlM_cons, run_bind_eq_error_iff] at h
    rcases h with hfirst | ⟨b, between, hfirst, hrest⟩
    · exact ⟨[], a, l, start, tree, rfl, rfl, hfirst⟩
    · obtain ⟨front, a', back, b', between', rfl, hfront, hfails⟩ := ih hrest
      refine ⟨a :: front, a', back, b', between', rfl, ?_, hfails⟩
      rw [List.foldlM_cons, run_bind_eq_ok_iff]
      exact ⟨b, between, hfirst, hfront⟩

/-- **Actions that are taken one after the other** succeed if each of them succeeds on every tree
with a property and leaves a tree with that property. -/
lemma run_foldlM_isOk {holds : FileTree → Prop} {f : B → A → StoreM (StateM FileTree) B}
    {l : List A} (hstep : ∀ a ∈ l, ∀ b tree, holds tree →
      ∃ b' after, tree.run (f b a) = (.ok b', after) ∧ holds after)
    (start : B) (htree : holds tree) :
    ∃ b after, tree.run (l.foldlM f start) = (.ok b, after) ∧ holds after := by
  induction l generalizing tree start with
  | nil => exact ⟨start, tree, rfl, htree⟩
  | cons a l ih =>
    rw [List.forall_mem_cons] at hstep
    obtain ⟨b, between, hfirst, hbetween⟩ := hstep.1 start tree htree
    obtain ⟨b', after, hrest, hafter⟩ := ih hstep.2 b hbetween
    refine ⟨b', after, ?_, hafter⟩
    rw [List.foldlM_cons, run_bind_eq_ok_iff]
    exact ⟨b, between, hfirst, hrest⟩

lemma run_forM_isOk {holds : FileTree → Prop} {f : A → StoreM (StateM FileTree) Unit}
    {l : List A} (hstep : ∀ a ∈ l, ∀ tree, holds tree →
      ∃ after, tree.run (f a) = (.ok (), after) ∧ holds after) (htree : holds tree) :
    ∃ after, tree.run (l.forM f) = (.ok (), after) ∧ holds after := by
  induction l generalizing tree with
  | nil => exact ⟨tree, rfl, htree⟩
  | cons a l ih =>
    rw [List.forall_mem_cons] at hstep
    obtain ⟨between, hfirst, hbetween⟩ := hstep.1 tree htree
    obtain ⟨after, hrest, hafter⟩ := ih hstep.2 hbetween
    exact ⟨after, run_bind_eq_ok_iff.mpr ⟨(), between, hfirst, hrest⟩, hafter⟩

lemma run_ofResult_bind_eq_ok_iff {result : Except Error A}
    {next : A → StoreM (StateM FileTree) B} {b : B} :
    tree.run (Store.ofResult result >>= next) = (.ok b, after) ↔
      ∃ a, result = .ok a ∧ tree.run (next a) = (.ok b, after) := by
  simp only [run_bind_eq_ok_iff, run_ofResult, Prod.mk.injEq]
  exact ⟨fun ⟨a, _, ⟨hresult, htree⟩, h⟩ => ⟨a, hresult, htree ▸ h⟩,
    fun ⟨a, hresult, h⟩ => ⟨a, tree, ⟨hresult, rfl⟩, h⟩⟩

/-- An attempt does what it attempts, and words the failure. -/
lemma run_attempt {F : Type} (tree : FileTree) (told : F → Error)
    (act : StateM FileTree (Except F A)) :
    tree.run (Store.attempt told act)
      = ((Id.run (act.run tree)).1.mapError told, (Id.run (act.run tree)).2) := by
  rw [run, Store.attempt, ExceptT.run_mk, StateT.run_bind, Id.run_bind]
  rcases Id.run (act.run tree) with ⟨_ | a, between⟩ <;> rfl

lemma run_readBytes (tree : FileTree) (path : Path) :
    tree.run (Store.readBytes path) = ((tree.read path).mapError (.io .read path), tree) :=
  run_attempt tree (.io .read path) _

lemma run_createDirectories (tree : FileTree) (path : Path) :
    tree.run (Store.createDirectories path)
      = ((tree.makeDirectories path).1.mapError (.io .createDirectory path),
        (tree.makeDirectories path).2) :=
  run_attempt tree (.io .createDirectory path) _

lemma run_putBytes (tree : FileTree) (path : Path) (content : ByteArray) :
    tree.run (Store.putBytes path content)
      = ((tree.write path content).1.mapError fun (action, fault) => .io action path fault,
        (tree.write path content).2) := by
  rw [Store.putBytes, run_attempt]
  rfl

lemma run_putBytes_eq_ok {path : Path} {content : ByteArray}
    (h : tree.run (Store.putBytes path content) = (.ok (), after)) :
    tree.write path content = (.ok (), after) := by
  rw [run_putBytes] at h
  rcases hwrite : tree.write path content with ⟨_ | ⟨⟩, left⟩
  · rw [hwrite] at h
    cases h
  · rw [hwrite] at h
    obtain rfl : left = after := congrArg Prod.snd h
    rfl

/-- Storing makes directories first, and then puts the file. -/
lemma run_writeBytes_eq_ok {path : Path} {content : ByteArray}
    (h : tree.run (Store.writeBytes path content) = (.ok (), after)) :
    ∃ between, ChangesOnly (fun _ => False) tree between ∧
      between.write path content = (.ok (), after) := by
  rw [Store.writeBytes] at h
  cases hparent : path.parent? with
  | none =>
    rw [hparent] at h
    exact ⟨tree, .refl _ tree, run_putBytes_eq_ok h⟩
  | some parent =>
    rw [hparent] at h
    obtain ⟨_, between, hmade, hrun⟩ := run_bind_eq_ok_iff.mp h
    rw [run_createDirectories] at hmade
    obtain rfl : (tree.makeDirectories parent).2 = between := congrArg Prod.snd hmade
    exact ⟨_, changesOnly_makeDirectories tree parent, run_putBytes_eq_ok hrun⟩

lemma run_writeBytes {path parent : Path} (hparent : path.parent? = some parent)
    (tree : FileTree) (content : ByteArray) :
    tree.run (Store.writeBytes path content) =
      match tree.makeDirectories parent with
      | (.ok (), between) => between.run (Store.putBytes path content)
      | (.error fault, between) => (.error (.io .createDirectory parent fault), between) := by
  rw [Store.writeBytes, hparent]
  simp only [run_bind, run_createDirectories]
  rcases tree.makeDirectories parent with ⟨_ | _, between⟩ <;> rfl

/-- How storing at a path fails, and what it leaves.  If the directory cannot be made, or no file
can be created, then no file has changed; if writing to the file fails, then the first bytes are in
it, and no other file has changed. -/
inductive FailsToStore (path : Path) (content : ByteArray) (before after : FileTree) :
    Error → Prop where
  | directory {parent : Path} (fault : Fault) (hparent : path.parent? = some parent)
      (hchanges : ChangesOnly (fun _ => False) before after) :
      FailsToStore path content before after (.io .createDirectory parent fault)
  | create (fault : Fault) (hchanges : ChangesOnly (fun _ => False) before after) :
      FailsToStore path content before after (.io .create path fault)
  | write (fault : Fault) {n : Nat} (hread : after.read path = .ok (content.extract 0 n))
      (hchanges : ChangesOnly (· = path.place) before after) :
      FailsToStore path content before after (.io .write path fault)

lemma FailsToStore.after_directories {path : Path} {content : ByteArray} {before between : FileTree}
    {e : Error} (hmade : ChangesOnly (fun _ => False) before between)
    (h : FailsToStore path content between after e) : FailsToStore path content before after e := by
  cases h with
  | directory fault hparent hchanges => exact .directory fault hparent (hmade.trans hchanges)
  | create fault hchanges => exact .create fault (hmade.trans hchanges)
  | write fault hread hchanges =>
    exact .write fault hread ((hmade.mono fun _ => False.elim).trans hchanges)

lemma FailsToStore.changesOnly {path : Path} {content : ByteArray} {before : FileTree} {e : Error}
    (h : FailsToStore path content before after e) :
    ChangesOnly (· = path.place) before after := by
  cases h with
  | directory _ _ hchanges => exact hchanges.mono fun _ => False.elim
  | create _ hchanges => exact hchanges.mono fun _ => False.elim
  | write _ _ hchanges => exact hchanges

lemma run_putBytes_eq_error {path : Path} {content : ByteArray} {e : Error}
    (h : tree.run (Store.putBytes path content) = (.error e, after)) :
    FailsToStore path content tree after e := by
  have hchanges := changesOnly_write tree path content
  rw [run_putBytes] at h
  rcases hwrite : tree.write path content with ⟨⟨action, fault⟩ | ⟨⟩, left⟩
  · rw [hwrite] at h hchanges
    cases h
    rcases write_eq_error hwrite with ⟨rfl, rfl⟩ | ⟨rfl, n, hread⟩
    · exact .create fault (.refl _ _)
    · exact .write fault hread hchanges
  · rw [hwrite] at h
    cases h

/-- **Storing that fails** leaves the first bytes at most. -/
lemma run_writeBytes_eq_error {path : Path} {content : ByteArray} {e : Error}
    (h : tree.run (Store.writeBytes path content) = (.error e, after)) :
    FailsToStore path content tree after e := by
  cases hparent : path.parent? with
  | none =>
    rw [Store.writeBytes, hparent] at h
    exact run_putBytes_eq_error h
  | some parent =>
    have hmakes := changesOnly_makeDirectories tree parent
    rw [run_writeBytes hparent] at h
    split at h
    · rename_i between hmade
      rw [hmade] at hmakes
      exact (run_putBytes_eq_error h).after_directories hmakes
    · rename_i fault between hmade
      rw [hmade] at hmakes
      cases h
      exact .directory fault hparent hmakes

/-- **Storing something at a path** changes no other file. -/
lemma changesOnly_writeBytes {path : Path} {content : ByteArray}
    (h : tree.run (Store.writeBytes path content) = (.ok (), after)) :
    ChangesOnly (· = path.place) tree after := by
  obtain ⟨between, hmade, hwritten⟩ := run_writeBytes_eq_ok h
  have hchanges := changesOnly_write between path content
  rw [hwritten] at hchanges
  exact (hmade.mono fun _ => False.elim).trans hchanges

/-- **What was stored at a path** is read at that path. -/
lemma read_writeBytes {path : Path} {content : ByteArray}
    (h : tree.run (Store.writeBytes path content) = (.ok (), after)) :
    after.read path = .ok content := by
  obtain ⟨between, -, hwritten⟩ := run_writeBytes_eq_ok h
  exact read_write hwritten

end FileTree

end WaveletPrecision
