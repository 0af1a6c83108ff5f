import WaveletPrecision.Toml.Scalar

/-
TOML documents.

* `Toml.readValue` reads a value of any kind, nested up to the depth limit;
* `Toml.readDocument` is the table of a whole text, or nothing if the text is no document.
-/
namespace WaveletPrecision

namespace Toml

/-! ### Values -/

/-- The elements of an array up to its closing bracket, after the opening one or a comma.  The
fuel is at least the length of the text, so that it bounds the lines between two elements as
well as the elements. -/
def readElements (readOne : Reader Value) : Nat → List Value → Reader (List Value)
  | 0, _, _ => none
  | fuel + 1, done, cs =>
    match skipLines fuel cs with
    | ']' :: rest => some (done.reverse, rest)
    | cs =>
      match readOne cs with
      | none => none
      | some (v, rest) =>
        match skipLines fuel rest with
        | ',' :: rest => readElements readOne fuel (v :: done) rest
        | ']' :: rest => some ((v :: done).reverse, rest)
        | _ => none

/-- A key, an equals sign and a value; the key as its path and its last part. -/
def readPair (readOne : Reader Value) : Reader (List String × String × Value) := fun cs =>
  match readKey cs with
  | some (parts, '=' :: rest) =>
    match parts.reverse, readOne (skipSpace rest) with
    | key :: path, some (v, rest) => some ((path.reverse, key, v), rest)
    | _, _ => none
  | _ => none

/-- The entries of an inline table up to its closing brace, after the opening one or a comma. -/
def readEntries (readOne : Reader Value) : Nat → Entries → Reader Entries
  | 0, _, _ => none
  | fuel + 1, entries, cs =>
    match readPair readOne cs with
    | none => none
    | some ((path, key, v), rest) =>
      match insertDotted v path key entries with
      | none => none
      | some entries =>
        match skipSpace rest with
        | ',' :: rest => readEntries readOne fuel entries rest
        | '}' :: rest => some (entries, rest)
        | _ => none

/-- An inline table, after its opening brace. -/
def readInlineTable (readOne : Reader Value) : Reader Value := fun cs =>
  match skipSpace cs with
  | '}' :: rest => some (.table [], rest)
  | cs => (readEntries readOne (cs.length + 1) [] cs).map fun (entries, rest) =>
    (.table (closeEntries entries), rest)

/-- A number, a date or a time. -/
def readNumber : Reader Value := fun cs =>
  match skipDateTime? cs with
  | some rest => some (.dateTime, rest)
  | none =>
    match readDecimal cs with
    | some (x, rest) => some (.float x, rest)
    | none =>
      match readSpecial cs with
      | some (x, rest) => some (.float x, rest)
      | none => (readInteger cs).map fun (n, rest) => (.integer n, rest)

/-- A value that holds no other values. -/
def readScalar : Reader Value
  | 't' :: 'r' :: 'u' :: 'e' :: cs => some (.boolean true, cs)
  | 'f' :: 'a' :: 'l' :: 's' :: 'e' :: cs => some (.boolean false, cs)
  | c :: cs =>
    if c = '"' ∨ c = '\'' then
      (readString (c :: cs)).map fun (text, rest) => (.string text, rest)
    else if c = 'i' ∨ c = 'n' ∨ c = '+' ∨ c = '-' ∨ c.isDigit then readNumber (c :: cs)
    else none
  | [] => none

/-- A value, with arrays and inline tables nested to a given depth. -/
def readValue : Nat → Reader Value
  | 0, cs => readScalar cs
  | depth + 1, cs =>
    match cs with
    | '[' :: rest =>
      (readElements (readValue depth) (rest.length + 1) [] rest).map fun (elements, rest) =>
        (.array elements, rest)
    | '\x7b' :: rest => readInlineTable (readValue depth) rest
    | cs => readScalar cs

/-! ### Documents -/

/-- A document up to some line: its entries, and the header whose table the next lines extend. -/
structure Draft where
  entries : Entries
  header : List String

/-- Change the table of a header: `change` gets the last part of its path. -/
def Draft.openWith (draft : Draft) (change : String → Entries → Option Entries)
    (parts : List String) : Option Draft :=
  match parts.reverse with
  | key :: path =>
    (underHeader (change key) path.reverse draft.entries).map fun entries => ⟨entries, parts⟩
  | [] => none

/-- A header, after its first bracket. -/
def readHeader (draft : Draft) (cs : List Char) : Option (Draft × List Char) :=
  match cs with
  | '[' :: cs =>
    match readKey cs with
    | some (parts, ']' :: ']' :: rest) =>
      (draft.openWith openNext parts).map fun draft => (draft, rest)
    | _ => none
  | cs =>
    match readKey cs with
    | some (parts, ']' :: rest) =>
      (draft.openWith openTable parts).map fun draft => (draft, rest)
    | _ => none

/-- A key with its value, which goes to the table of the last header. -/
def readAssignment (draft : Draft) (cs : List Char) : Option (Draft × List Char) :=
  match readPair (readValue (depthLimit - 1)) cs with
  | some ((path, key, v), rest) =>
    (underHeader (insertDotted v path key) draft.header draft.entries).map fun entries =>
      ({ draft with entries := entries }, rest)
  | none => none

/-- The lines of a document. -/
def readLines : Nat → Draft → List Char → Option Draft
  | 0, _, _ => none
  | fuel + 1, draft, cs =>
    match skipSpace cs with
    | [] => some draft
    | '[' :: rest =>
      match readHeader draft rest with
      | some (draft, rest) => (endOfLine? rest).bind (readLines fuel draft)
      | none => none
    | '#' :: rest => (endOfLine? ('#' :: rest)).bind (readLines fuel draft)
    | cs =>
      match newline? cs with
      | some rest => readLines fuel draft rest
      | none =>
        match readAssignment draft cs with
        | some (draft, rest) => (endOfLine? rest).bind (readLines fuel draft)
        | none => none

/-- The entries of a document; a byte order mark at its front is passed over. -/
def readDocument (text : String) : Option (List (String × Value)) :=
  let cs :=
    match text.toList with
    | '\uFEFF' :: cs => cs
    | cs => cs
  (readLines (cs.length + 1) ⟨[], []⟩ cs).map fun draft => closeEntries draft.entries

end Toml

end WaveletPrecision
