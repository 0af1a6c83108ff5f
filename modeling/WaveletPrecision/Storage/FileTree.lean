import WaveletPrecision.Error

/-
File trees.

A tree lists what stands at a location below its root.  A location is the list of the
names that lead to it, the innermost name first, so that going up is taking the tail.
Relative and absolute paths both start at the root.

A path is followed piece by piece, and every directory on the way is looked up, so the
operations are meaningful for any listing.  There are limits to the length of a path and to
that of a name, and a name that is too long is told of only when it is looked up.

The device under the tree may break a write off.  It is part of the tree what it will make of
the writes to come, so whatever holds of every tree holds of every such device.

* `Path.validate` refuses what cannot be the path of anything;
* `FileTree.find` looks up a location by a name of any length;
* `FileTree.locate` follows a path;
* `FileTree.read`, `FileTree.write` and `FileTree.makeDirectory` are the three operations
  on one location; a write that is broken off leaves the first bytes in the file;
* `FileTree.makeDirectories` creates a directory together with the missing ones above it.
-/
namespace WaveletPrecision

/-! ### Valid paths -/

namespace Path

/-- The number of bytes that the text of a path stays below. -/
def sizeLimit : Nat := 4096

/-- A path must have no null character, must not be too long and must not be empty. -/
def validate (path : Path) : Except Fault Unit :=
  let text := path.toString
  if text.toList.contains '\x00' then .error .nulInName
  else if sizeLimit ≤ text.utf8ByteSize then .error .nameTooLong
  else if path = empty then .error .notFound
  else .ok ()

end Path

/-! ### Trees -/

/-- The names that lead to a place in a tree, the innermost first. -/
abbrev Location := List String

/-- What stands at a location. -/
inductive TreeEntry where
  | directory
  | file (content : ByteArray)

/-- How the device breaks a write off: after so many bytes, and with a fault. -/
structure Interruption where
  written : Nat
  fault : Fault
deriving DecidableEq

/-- The listing of a tree, and what the device will make of the next writes, which it breaks off
or carries out.  It carries out the writes behind those of the list. -/
structure FileTree where
  entries : List (Location × TreeEntry)
  interruptions : List (Option Interruption) := []

namespace FileTree

/-- The tree with nothing but its root, on a device that carries out every write. -/
def empty : FileTree where
  entries := []

/-- What stands at a location; the root is always a directory. -/
def lookup (tree : FileTree) (place : Location) : Option TreeEntry :=
  if place = [] then some .directory
  else (tree.entries.find? fun entry => entry.1 == place).map Prod.snd

/-- The tree without whatever stands at a location. -/
def erase (tree : FileTree) (place : Location) : FileTree :=
  { tree with entries := tree.entries.filter fun entry => entry.1 != place }

/-- The tree with something put at a location. -/
def put (tree : FileTree) (place : Location) (entry : TreeEntry) : FileTree :=
  { tree with entries := (place, entry) :: (tree.erase place).entries }

/-- How the device breaks the next write off, if it does. -/
def interruption? (tree : FileTree) : Option Interruption := tree.interruptions.head?.join

/-- The tree when the device is done with a write. -/
def advance (tree : FileTree) : FileTree :=
  { tree with interruptions := tree.interruptions.tail }

/-- The number of bytes that a name may have. -/
def nameLimit : Nat := 255

/-- What stands at a location, whose last name must be short enough to be looked up. -/
def find (tree : FileTree) (place : Location) : Except Fault (Option TreeEntry) :=
  match place with
  | [] => .ok (tree.lookup [])
  | name :: _ =>
    if nameLimit < name.utf8ByteSize then .error .nameTooLong else .ok (tree.lookup place)

/-- Follow pieces of a path from a location.  Whatever they are applied to must be a directory. -/
def follow (tree : FileTree) : Location → List String → Except Fault Location
  | place, [] => .ok place
  | place, piece :: rest => do
    match ← tree.find place with
    | none => throw .notFound
    | some (.file _) => throw .notADirectory
    | some .directory =>
      if Path.isIdle piece then follow tree place rest
      else if piece = ".." then follow tree place.tail rest
      else follow tree (piece :: place) rest

/-- The location of a path, at which there need not be anything. -/
def locate (tree : FileTree) (path : Path) : Except Fault Location := do
  path.validate
  tree.follow [] path.pieces

/-- What stands at a path. -/
def entryAt (tree : FileTree) (path : Path) : Except Fault (Option TreeEntry) := do
  tree.find (← tree.locate path)

/-- The content of the file at a path. -/
def read (tree : FileTree) (path : Path) : Except Fault ByteArray := do
  match ← tree.entryAt path with
  | none => throw .notFound
  | some .directory => throw .isADirectory
  | some (.file content) => return content

/-- There is a directory at a path. -/
def isDirectory (tree : FileTree) (path : Path) : Bool :=
  match tree.entryAt path with
  | .ok (some .directory) => true
  | _ => false

/-- The pieces of a path up to the last one that is not empty. -/
def namedPieces (path : Path) : List String :=
  (path.pieces.reverse.dropWhile (· = "")).reverse

/-- The last piece of a path is a name that a new entry can get. -/
def endsInName (pieces : List String) : Bool :=
  match pieces.getLast? with
  | none => false
  | some last => last ≠ "." && last ≠ ".."

/-- The location at which a file can be created for a path.  A path that ends in a separator or in
a dot can only be a directory. -/
def target (tree : FileTree) (path : Path) : Except Fault Location := do
  path.validate
  let place ← tree.follow [] (namedPieces path)
  if namedPieces path ≠ path.pieces || !endsInName path.pieces then throw .isADirectory
  match ← tree.find place with
  | some .directory => throw .isADirectory
  | _ => return place

/-- Put a file with the given content at a path, in place of a file that is there.  The file is
created, or emptied, before anything is written to it, so when the write is broken off then the
bytes that were written are all that is in it. -/
def write (tree : FileTree) (path : Path) (content : ByteArray) :
    Except (FileAction × Fault) Unit × FileTree :=
  match tree.target path with
  | .error fault => (.error (.create, fault), tree)
  | .ok place =>
    match tree.interruption? with
    | none => (.ok (), tree.advance.put place (.file content))
    | some stop =>
      (.error (.write, stop.fault),
        tree.advance.put place (.file (content.extract 0 stop.written)))

/-- Put a directory at a path. -/
def makeDirectory (tree : FileTree) (path : Path) : Except Fault FileTree := do
  path.validate
  let place ← tree.follow [] (namedPieces path)
  if !endsInName (namedPieces path) then throw .alreadyExists
  match ← tree.find place with
  | some _ => throw .alreadyExists
  | none => return tree.put place .directory

/-- Put a directory at a path unless there is one. -/
def ensureDirectory (tree : FileTree) (path : Path) : Except Fault Unit × FileTree :=
  match tree.makeDirectory path with
  | .ok tree => (.ok (), tree)
  | .error fault => if tree.isDirectory path then (.ok (), tree) else (.error fault, tree)

/-- Make the first of a list of paths a directory; when something is missing on the way to it,
the rest of the list are the paths above it, which are made first. -/
def ensureLineage (tree : FileTree) : List Path → Except Fault Unit × FileTree
  | [] => (.ok (), tree)
  | path :: above =>
    if path = Path.empty then (.ok (), tree)
    else
      match tree.ensureDirectory path with
      | (.error .notFound, tree) =>
        match ensureLineage tree above with
        | (.ok (), tree) => tree.ensureDirectory path
        | failed => failed
      | done => done

/-- Make a path a directory, together with the paths above it. -/
def makeDirectories (tree : FileTree) (path : Path) : Except Fault Unit × FileTree :=
  tree.ensureLineage path.lineage

/-- Remove the file at a path. -/
def removeFile (tree : FileTree) (path : Path) : Except Fault FileTree := do
  let place ← tree.locate path
  match ← tree.find place with
  | none => throw .notFound
  | some .directory => throw .isADirectory
  | some (.file _) => return tree.erase place

/-- The text of a location, with a separator at the end of a directory. -/
def placeText (place : Location) (entry : TreeEntry) : String :=
  let path := String.intercalate "/" place.reverse
  match entry with
  | .directory => path ++ "/"
  | .file _ => path

/-- Everything in the tree with the size of its content, in the order of the texts. -/
def listing (tree : FileTree) : List (String × Nat) :=
  let lines := tree.entries.map fun (place, entry) =>
    (placeText place entry,
      match entry with
      | .directory => 0
      | .file content => content.size)
  lines.mergeSort fun a b => a.1 ≤ b.1

end FileTree

end WaveletPrecision
