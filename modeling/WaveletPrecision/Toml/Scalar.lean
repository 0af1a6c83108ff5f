import WaveletPrecision.Toml.Value

/-
The written forms of TOML strings, numbers, dates and times.

A reader takes what it can from the front of the text and returns it with the rest, or
fails.
-/
namespace WaveletPrecision

-- Powers are those of the core library, whatever else is imported beside this module.
attribute [local instance (high)] instPowNat

namespace Toml

/-- A function that reads something from the front of a text. -/
abbrev Reader (A : Type) := List Char → Option (A × List Char)

/-! ### Blanks and line ends -/

/-- A space or a tab. -/
def isSpace (c : Char) : Bool := c = ' ' || c = '\t'

/-- The text without the spaces and tabs at its front. -/
def skipSpace (cs : List Char) : List Char := cs.dropWhile isSpace

/-- A character that may stand in a text of one line: no control character but the tab. -/
def isPlain (c : Char) : Bool := c = '\t' || (0x20 ≤ c.toNat && c.toNat ≠ 0x7f)

/-- A line break is read. -/
def newline? : List Char → Option (List Char)
  | '\n' :: cs => some cs
  | '\r' :: '\n' :: cs => some cs
  | _ => none

/-- The text without the comment at its front, if there is one. -/
def skipComment : List Char → List Char
  | '#' :: cs => cs.dropWhile isPlain
  | cs => cs

/-- The rest of a line holds at most a comment. -/
def endOfLine? (cs : List Char) : Option (List Char) :=
  match skipComment (skipSpace cs) with
  | [] => some []
  | cs => newline? cs

/-- The text without blanks, line breaks and comments at its front.  Every round takes at
least one character, so the length of the text bounds their number. -/
def skipLines : Nat → List Char → List Char
  | 0, cs => cs
  | fuel + 1, cs =>
    let cs := skipSpace cs
    match newline? (skipComment cs) with
    | some rest => skipLines fuel rest
    | none => cs

/-! ### Strings -/

/-- The value of a hexadecimal digit. -/
def hexValue? (c : Char) : Option Nat :=
  if c.isDigit then some (c.toNat - '0'.toNat)
  else if 'a' ≤ c ∧ c ≤ 'f' then some (c.toNat - 'a'.toNat + 10)
  else if 'A' ≤ c ∧ c ≤ 'F' then some (c.toNat - 'A'.toNat + 10)
  else none

/-- The character whose code is written in so many hexadecimal digits. -/
def readCode (width : Nat) : Reader Char := fun cs =>
  let digits := cs.take width
  if digits.length < width then none
  else
    match digits.mapM hexValue? with
    | none => none
    | some values =>
      let code := values.foldl (fun n v => 16 * n + v) 0
      if code.isValidChar then some (Char.ofNat code, cs.drop width) else none

/-- The character of an escape, after the backslash. -/
def readEscape : Reader Char
  | 'b' :: cs => some ('\x08', cs)
  | 't' :: cs => some ('\t', cs)
  | 'n' :: cs => some ('\n', cs)
  | 'f' :: cs => some ('\x0c', cs)
  | 'r' :: cs => some ('\r', cs)
  | '"' :: cs => some ('"', cs)
  | '\\' :: cs => some ('\\', cs)
  | 'u' :: cs => readCode 4 cs
  | 'U' :: cs => readCode 8 cs
  | _ => none

/-- The rest of a string in double quotes; `done` holds what was read, in reversed order. -/
def readBasic : Nat → List Char → Reader String
  | 0, _, _ => none
  | fuel + 1, done, cs =>
    match cs with
    | '"' :: rest => some (String.ofList done.reverse, rest)
    | '\\' :: rest =>
      match readEscape rest with
      | some (c, rest) => readBasic fuel (c :: done) rest
      | none => none
    | c :: rest => if isPlain c then readBasic fuel (c :: done) rest else none
    | [] => none

/-- The rest of a string in single quotes. -/
def readLiteral (cs : List Char) : Option (String × List Char) :=
  let text := cs.takeWhile fun c => isPlain c && c ≠ '\''
  match cs.drop text.length with
  | '\'' :: rest => some (String.ofList text, rest)
  | _ => none

/-- The blanks and line breaks after an escaped line break. -/
def skipBlankLines : Nat → List Char → List Char
  | 0, cs => cs
  | fuel + 1, cs =>
    let cs := skipSpace cs
    match newline? cs with
    | some rest => skipBlankLines fuel rest
    | none => cs

/-- The quotes at the front of a text that end a string of several lines: three, after at most
two that belong to the string.  Returns the number of those and the rest. -/
def closingQuotes? (quote : Char) (cs : List Char) : Option (Nat × List Char) :=
  let count := (cs.takeWhile (· = quote)).length
  if 3 ≤ count ∧ count ≤ 5 then some (count - 3, cs.drop count) else none

/-- The rest of a string in three double quotes. -/
def readLongBasic : Nat → List Char → Reader String
  | 0, _, _ => none
  | fuel + 1, done, cs =>
    match closingQuotes? '"' cs with
    | some (own, rest) => some (String.ofList (done.reverse ++ List.replicate own '"'), rest)
    | none =>
      match newline? cs with
      | some rest => readLongBasic fuel ('\n' :: done) rest
      | none =>
        match cs with
        | '"' :: '"' :: '"' :: _ => none
        | '\\' :: rest =>
          match newline? (skipSpace rest) with
          | some rest => readLongBasic fuel done (skipBlankLines rest.length rest)
          | none =>
            match readEscape rest with
            | some (c, rest) => readLongBasic fuel (c :: done) rest
            | none => none
        | c :: rest => if isPlain c then readLongBasic fuel (c :: done) rest else none
        | [] => none

/-- The rest of a string in three single quotes. -/
def readLongLiteral : Nat → List Char → Reader String
  | 0, _, _ => none
  | fuel + 1, done, cs =>
    match closingQuotes? '\'' cs with
    | some (own, rest) => some (String.ofList (done.reverse ++ List.replicate own '\''), rest)
    | none =>
      match newline? cs with
      | some rest => readLongLiteral fuel ('\n' :: done) rest
      | none =>
        match cs with
        | '\'' :: '\'' :: '\'' :: _ => none
        | c :: rest => if isPlain c then readLongLiteral fuel (c :: done) rest else none
        | [] => none

/-- The text without a line break at its front. -/
def skipNewline (cs : List Char) : List Char := (newline? cs).getD cs

/-- A string of one of the four forms. -/
def readString : Reader String
  | '"' :: '"' :: '"' :: cs => readLongBasic (cs.length + 1) [] (skipNewline cs)
  | '"' :: cs => readBasic (cs.length + 1) [] cs
  | '\'' :: '\'' :: '\'' :: cs => readLongLiteral (cs.length + 1) [] (skipNewline cs)
  | '\'' :: cs => readLiteral cs
  | _ => none

/-! ### Keys -/

/-- A character of a key without quotes. -/
def isBare (c : Char) : Bool := c.isAlphanum || c = '_' || c = '-'

/-- One part of a key. -/
def readKeyPart : Reader String
  | '"' :: cs => readBasic (cs.length + 1) [] cs
  | '\'' :: cs => readLiteral cs
  | cs =>
    let text := cs.takeWhile isBare
    if text.isEmpty then none else some (String.ofList text, cs.drop text.length)

/-- The depth to which keys and values may be nested. -/
def depthLimit : Nat := 80

/-- The parts of a key, with blanks around each; fewer than the depth limit. -/
def readKeyWithin : Nat → Reader (List String)
  | 0, _ => none
  | fuel + 1, cs =>
    match readKeyPart (skipSpace cs) with
    | none => none
    | some (part, rest) =>
      match skipSpace rest with
      | '.' :: rest => (readKeyWithin fuel rest).map fun (parts, rest) => (part :: parts, rest)
      | rest => some ([part], rest)

/-- A key: its parts, and the text after the blanks that follow it. -/
def readKey : Reader (List String) := readKeyWithin (depthLimit - 1)

/-! ### Numbers -/

/-- The digits of a number in which single underscores separate digits. -/
def digitsAfter (isDigit : Char → Bool) : List Char → List Char × List Char
  | '_' :: c :: cs =>
    if isDigit c then
      let (digits, rest) := digitsAfter isDigit cs
      (c :: digits, rest)
    else ([], '_' :: c :: cs)
  | c :: cs =>
    if isDigit c then
      let (digits, rest) := digitsAfter isDigit cs
      (c :: digits, rest)
    else ([], c :: cs)
  | [] => ([], [])

/-- A non-empty run of digits. -/
def readDigits (isDigit : Char → Bool) : Reader (List Char)
  | c :: cs =>
    if isDigit c then
      let (digits, rest) := digitsAfter isDigit cs
      some (c :: digits, rest)
    else none
  | [] => none

/-- The number that digits of a base stand for. -/
def numberOf (base : Nat) (digits : List Char) : Nat :=
  digits.foldl (fun n c => base * n + (hexValue? c).getD 0) 0

/-- A sign, which may be missing: whether it is a minus, and the rest. -/
def readSign : List Char → Bool × List Char
  | '-' :: cs => (true, cs)
  | '+' :: cs => (false, cs)
  | cs => (false, cs)

/-- The digits of a decimal integer, which has no zero in front. -/
def readWhole : Reader (List Char)
  | '0' :: cs => some (['0'], cs)
  | cs => readDigits Char.isDigit cs

/-- The exponent of a number, with its sign. -/
def readExponent : Reader Int
  | c :: cs =>
    if c = 'e' ∨ c = 'E' then
      let (negative, cs) := readSign cs
      (readDigits Char.isDigit cs).map fun (digits, rest) =>
        let n : Int := numberOf 10 digits
        (if negative then -n else n, rest)
    else none
  | [] => none

/-- A number with a fraction, an exponent or both.  A number beyond the largest one is refused
when it is positive. -/
def readDecimal : Reader Binary64 := fun cs =>
  let (negative, cs) := readSign cs
  match readWhole cs with
  | none => none
  | some (whole, rest) =>
    let scaled (fraction : List Char) (exponent : Int) : Binary64 :=
      .ofDecimal negative (numberOf 10 (whole ++ fraction)) (exponent - fraction.length)
    let result : Option (Binary64 × List Char) :=
      match rest with
      | '.' :: rest =>
        match readDigits Char.isDigit rest with
        | none => none
        | some (fraction, rest) =>
          match readExponent rest with
          | some (exponent, rest) => some (scaled fraction exponent, rest)
          | none => some (scaled fraction 0, rest)
      | rest => (readExponent rest).map fun (exponent, rest) => (scaled [] exponent, rest)
    match result with
    | some (x, rest) => if x.isInfinite && !x.negative then none else some (x, rest)
    | none => none

/-- An infinity or a not-a-number. -/
def readSpecial : Reader Binary64 := fun cs =>
  match readSign cs with
  | (negative, 'i' :: 'n' :: 'f' :: rest) => some (.infinity negative, rest)
  | (negative, 'n' :: 'a' :: 'n' :: rest) => some (.quietNaN negative 0, rest)
  | _ => none

/-- The number of bits of an integer without its sign. -/
def integerBits : Nat := 63

/-- An integer, which must fit 64 bits. -/
def readInteger : Reader Int := fun cs =>
  let inBase (base : Nat) (isDigit : Char → Bool) (cs : List Char) : Option (Int × List Char) :=
    (readDigits isDigit cs).map fun (digits, rest) => ((numberOf base digits : Int), rest)
  let read :=
    match cs with
    | '0' :: 'x' :: cs => inBase 16 (fun c => (hexValue? c).isSome) cs
    | '0' :: 'o' :: cs => inBase 8 (fun c => '0' ≤ c && c ≤ '7') cs
    | '0' :: 'b' :: cs => inBase 2 (fun c => c = '0' || c = '1') cs
    | cs =>
      let (negative, cs) := readSign cs
      (readWhole cs).map fun (digits, rest) =>
        let n : Int := numberOf 10 digits
        (if negative then -n else n, rest)
  let limit : Nat := 2 ^ integerBits
  match read with
  | some (n, rest) => if -(limit : Int) ≤ n ∧ n < limit then some (n, rest) else none
  | none => none

/-! ### Dates and times -/

/-- A number of exactly so many digits within bounds. -/
def readField (width low high : Nat) : Reader Nat := fun cs =>
  let digits := cs.take width
  let n := numberOf 10 digits
  if digits.length = width ∧ digits.all Char.isDigit ∧ low ≤ n ∧ n ≤ high then
    some (n, cs.drop width)
  else none

/-- The text after a given character. -/
def expect? (c : Char) : List Char → Option (List Char)
  | d :: cs => if d = c then some cs else none
  | [] => none

/-- The number of days of a month. -/
def daysOfMonth (year month : Nat) : Nat :=
  if month = 2 then
    if year % 4 = 0 ∧ (year % 100 ≠ 0 ∨ year % 400 = 0) then 29 else 28
  else if month = 4 ∨ month = 6 ∨ month = 9 ∨ month = 11 then 30
  else 31

/-- A date. -/
def skipDate? (cs : List Char) : Option (List Char) := do
  let (year, cs) ← readField 4 0 9999 cs
  let cs ← expect? '-' cs
  let (month, cs) ← readField 2 1 12 cs
  let cs ← expect? '-' cs
  let (_, cs) ← readField 2 1 (daysOfMonth year month) cs
  return cs

/-- A time of day, with or without a fraction of a second. -/
def skipTime? (cs : List Char) : Option (List Char) := do
  let (_, cs) ← readField 2 0 23 cs
  let cs ← expect? ':' cs
  let (_, cs) ← readField 2 0 59 cs
  let cs ← expect? ':' cs
  let (_, cs) ← readField 2 0 60 cs
  match cs with
  | '.' :: rest =>
    let digits := rest.takeWhile Char.isDigit
    if digits.isEmpty then none else some (rest.drop digits.length)
  | cs => some cs

/-- The offset of a time from universal time. -/
def skipOffset? : List Char → Option (List Char)
  | 'Z' :: cs => some cs
  | 'z' :: cs => some cs
  | c :: cs =>
    if c = '+' ∨ c = '-' then do
      let (_, cs) ← readField 2 0 23 cs
      let cs ← expect? ':' cs
      let (_, cs) ← readField 2 0 59 cs
      return cs
    else none
  | [] => none

/-- A sign in front of an offset commits to it. -/
def offsetBegins : List Char → Bool
  | c :: _ => c = '+' || c = '-'
  | [] => false

/-- A date, a time of day, or both. -/
def skipDateTime? (cs : List Char) : Option (List Char) :=
  match skipDate? cs with
  | none => skipTime? cs
  | some rest =>
    let time : Option (List Char) :=
      match rest with
      | c :: cs => if c = 'T' ∨ c = 't' ∨ c = ' ' then skipTime? cs else none
      | [] => none
    match time with
    | none => some rest
    | some rest =>
      match skipOffset? rest with
      | some rest => some rest
      | none => if offsetBegins rest then none else some rest

end Toml

end WaveletPrecision
