import WaveletPrecision.Storage.FileTree

/-
What the stages of an experiment ask of the place where they keep their files.

The stages are written for any store.  A file tree is a store whose operations change
nothing but the tree; `Store.readText` and its companions say which part of a failure is
told.
-/
namespace WaveletPrecision

/-- File operations as actions of a monad. -/
class Store (M : Type → Type) where
  /-- The content of the file at a path. -/
  read : Path → M (Except Fault ByteArray)
  /-- Make a path a directory, together with the paths above it. -/
  makeDirectories : Path → M (Except Fault Unit)
  /-- Put a file at a path.  A failure tells whether it came with creating the file or with writing
  to it. -/
  write : Path → ByteArray → M (Except (FileAction × Fault) Unit)

instance : Store (StateM FileTree) where
  read path := fun tree => (tree.read path, tree)
  makeDirectories path := fun tree => tree.makeDirectories path
  write path content := fun tree => tree.write path content

/-- Actions of a store that may fail. -/
abbrev StoreM (M : Type → Type) (A : Type) : Type := ExceptT Error M A

namespace Store

variable {M : Type → Type} [Monad M] [Store M]

/-- An action, whose failure is told as an error. -/
def attempt {A F : Type} (told : F → Error) (run : M (Except F A)) : StoreM M A :=
  ExceptT.mk do
    match ← run with
    | .ok a => return .ok a
    | .error fault => return .error (told fault)

/-- A result that may be an error, as an action. -/
def ofResult {A : Type} (result : Except Error A) : StoreM M A := ExceptT.mk (pure result)

/-- The content of the file at a path. -/
def readBytes (path : Path) : StoreM M ByteArray := attempt (.io .read path) (read path)

/-- The text of the file at a path. -/
def readText (path : Path) : StoreM M String := do
  let content ← readBytes path
  match String.fromUTF8? content with
  | some text => return text
  | none => throw (.io .read path .invalidText)

/-- Make a path a directory, together with the paths above it. -/
def createDirectories (path : Path) : StoreM M Unit :=
  attempt (.io .createDirectory path) (makeDirectories path)

/-- Put a file at a path. -/
def putBytes (path : Path) (content : ByteArray) : StoreM M Unit :=
  attempt (fun (action, fault) => .io action path fault) (write path content)

/-- Put a file at a path, in a directory that is made if it is missing. -/
def writeBytes (path : Path) (content : ByteArray) : StoreM M Unit := do
  match path.parent? with
  | some parent => createDirectories parent
  | none => pure ()
  putBytes path content

end Store

end WaveletPrecision
