/-
Paths of the file tree.

The text of a path is cut at every separator, and the pieces are kept as they are, the
empty ones included: `a//b/` has the pieces `a`, the empty piece, `b` and the empty
piece.  A text and its pieces determine each other, so joining two paths and going up to
the parent are operations on lists.

* `Path.join` appends a path, or replaces the first one when the second is absolute;
* `Path.parent?` leaves the last component away, looking past empty pieces and `.`;
* `Path.components` are the pieces that a path is made of, read as directions.
-/
namespace WaveletPrecision

/-- A path, as the pieces of its text between the separators. -/
structure Path where
  pieces : List String
deriving DecidableEq

namespace Path

/-- The character between two pieces. -/
def separator : Char := '/'

/-- The path of a text. -/
def ofString (s : String) : Path :=
  ⟨(s.toList.splitOn separator).map String.ofList⟩

/-- The text of a path. -/
def toString (p : Path) : String := String.intercalate (String.singleton separator) p.pieces

instance : ToString Path := ⟨toString⟩

/-- The path of the empty text. -/
def empty : Path := ⟨[""]⟩

instance : Inhabited Path := ⟨empty⟩

/-- The text starts with a separator. -/
def isAbsolute (p : Path) : Bool :=
  match p.pieces with
  | "" :: _ :: _ => true
  | _ => false

/-- The path `q` as seen from the directory `p`; an absolute `q` stands for itself. -/
def join (p q : Path) : Path :=
  if q.isAbsolute then q
  else if p.pieces.getLast?.getD "" = "" then ⟨p.pieces.dropLast ++ q.pieces⟩
  else ⟨p.pieces ++ q.pieces⟩

/-- A piece that stands for the directory it is read in. -/
def isIdle (piece : String) : Bool := piece = "" || piece = "."

/-- The pieces without the idle ones at the end. -/
def dropIdle (pieces : List String) : List String :=
  (pieces.reverse.dropWhile isIdle).reverse

/-- The fixed start of a path, which is the root or a leading `.`, and what follows it. -/
def splitStart : List String → List String × List String
  | "" :: rest@(_ :: _) => ([""], rest)
  | "." :: rest => (["."], rest)
  | pieces => ([], pieces)

/-- The path without its last component, or nothing for the root and the empty path. -/
def parent? (p : Path) : Option Path :=
  let (start, rest) := splitStart p.pieces
  match (dropIdle rest).reverse with
  | _ :: init =>
    let kept := start ++ dropIdle init.reverse
    some (if kept = [""] then ⟨["", ""]⟩ else if kept = [] then empty else ⟨kept⟩)
  | [] => if start = ["."] then some empty else none

/-- A path, its parent, the parent of that, and so on, as far as `fuel` allows. -/
def lineageWithin : Nat → Path → List Path
  | 0, p => [p]
  | fuel + 1, p =>
    p :: match p.parent? with
      | some q => lineageWithin fuel q
      | none => []

/-- A path and everything above it, the nearest first.  Each step up drops a piece, but for the
one that ends at the root. -/
def lineage (p : Path) : List Path := lineageWithin (p.pieces.length + 1) p

/-- A step that a path takes through a tree. -/
inductive Component where
  | root
  | here
  | up
  | name (text : String)
deriving DecidableEq

/-- The steps of a path; idle pieces are no steps, except a leading `.`. -/
def components (p : Path) : List Component :=
  let (start, rest) := splitStart p.pieces
  start.map (fun piece => if piece = "" then .root else .here)
    ++ (rest.filter (fun piece => !isIdle piece)).map
      (fun piece => if piece = ".." then .up else .name piece)

/-- A text that can name one entry of a directory. -/
def isFileName (s : String) : Bool :=
  s ≠ "" && s ≠ "." && s ≠ ".." && !s.toList.any (fun c => c = separator || c = '\\')

end Path

end WaveletPrecision
