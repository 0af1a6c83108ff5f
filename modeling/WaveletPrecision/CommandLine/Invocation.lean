import WaveletPrecision.CommandLine.Grammar

/-
What the words of a command line ask for.

Words are read from the left.  The first word that is wrong, or that asks for a help text
or for the version, ends the reading, and nothing after it is looked at.

A value that is a word of its own is pending at first.  It is looked at when the next
option comes; what is still pending at the name of a command is looked at after the words
of the command, and so it does not keep them from asking for a help text.

* `Invocation.ofWords` reads a whole command line;
* `readOptions` reads the options of one level, up to a word that is no option;
* `Progress.settle` looks at the pending value.
-/
namespace WaveletPrecision

namespace CommandLine

/-- A command with everything it needs. -/
inductive Command where
  | generate (output : Path) (seed : Option UInt64)
  | transform (input : Path) (output : Option Path) (precision : Precision)
      (algorithm : Algorithm)
  | compare (pairs : List ComparisonPair) (strict : Bool)
  | reference (wavelet : Wavelet) (shape : List Nat) (dimension : Dimension) (seed : UInt64)
      (output : Path)

/-- The command of a name with the given settings, or nothing when a setting is missing. -/
def Command.ofSettings (name : CommandName) (s : Settings) : Option Command :=
  match name with
  | .generate => some (.generate (s.output.getD (.ofString standardSignals)) s.seed)
  | .transform => some (.transform (s.input.getD (.ofString standardSignals)) s.output
      (s.precision.getD Precision.standard) (s.algorithm.getD Algorithm.standard))
  | .compare => some (.compare s.pairs s.strict)
  | .reference => do
    let wavelet ← s.wavelet
    let dimension ← s.dimension
    let output ← s.output
    if s.shape.isEmpty then none
    else
      return .reference wavelet s.shape dimension (s.seed.getD ReferenceCase.standardSeed) output

/-- A command and the settings that all commands share. -/
structure Invocation where
  config : Path
  verbose : Bool
  command : Command

/-- The things that a help text can be about. -/
inductive Topic where
  | program
  | command (name : CommandName)
  | help

/-- Why a command line has no command to carry out. -/
inductive Halt where
  | usage
  | help (topic : Topic)
  | version

/-! ### Words -/

/-- A word of the command line by its form. -/
inductive Word where
  | plain (text : String)
  /-- Two hyphens alone. -/
  | escape
  /-- A name after two hyphens, and what follows an equals sign. -/
  | long (name : String) (value : Option String)
  /-- Letters after one hyphen. -/
  | short (letters : List Char)

/-- The form of a word; one hyphen alone is plain. -/
def Word.ofString (s : String) : Word :=
  match s.toList with
  | ['-', '-'] => escape
  | '-' :: '-' :: rest =>
    long (String.ofList (rest.takeWhile (· ≠ '=')))
      (match rest.dropWhile (· ≠ '=') with
        | [] => none
        | _ :: value => some (String.ofList value))
  | '-' :: letter :: rest => short (letter :: rest)
  | _ => plain s

/-! ### Options -/

/-- An option with a value that has not been looked at yet. -/
structure Pending where
  entry : OptionEntry
  set : Settings → String → Option Settings
  value : String

/-- The names of the options that the current level has been given, all settings, and the option
that is pending. -/
structure Progress where
  given : List String
  settings : Settings
  pending : Option Pending

/-- The start of a level. -/
def Progress.start (settings : Settings) : Progress := ⟨[], settings, none⟩

/-- Note that an option has been given, which only a repeatable one can be twice. -/
def Progress.note (progress : Progress) (entry : OptionEntry) : Except Halt Progress :=
  if progress.given.contains entry.long && !entry.repeatable then .error .usage
  else .ok { progress with given := entry.long :: progress.given }

/-- Carry out the pending option, if there is one. -/
def Progress.settle (progress : Progress) : Except Halt Progress :=
  match progress.pending with
  | none => .ok progress
  | some pending => do
    let noted ← progress.note pending.entry
    match pending.set noted.settings pending.value with
    | some settings => return { noted with settings := settings, pending := none }
    | none => throw .usage

/-- Let an option with a value be pending, in place of the one before. -/
def Progress.await (progress : Progress) (pending : Pending) : Except Halt Progress := do
  return { ← progress.settle with pending := some pending }

/-- Carry out an option that stands alone. -/
def Progress.takeAlone (topic : Topic) (progress : Progress) (entry : OptionEntry) :
    Except Halt Progress := do
  let settled ← progress.settle
  match entry.meaning with
  | .switch set =>
    let noted ← settled.note entry
    return { noted with settings := set noted.settings }
  | .help => throw (.help topic)
  | .version => throw .version
  | .value .. => throw .usage

/-- Carry out the options of the letters of one word. -/
def takeLetters (topic : Topic) (options : List OptionEntry) (letters : List Char)
    (progress : Progress) : Except Halt Progress :=
  letters.foldlM
    (fun progress letter =>
      match options.find? fun entry => entry.short = some letter with
      | some entry => progress.takeAlone topic entry
      | none => .error .usage)
    progress

/-- Read options up to a plain word that is no value, and leave the words from there on. -/
def readOptions (topic : Topic) (options : List OptionEntry) :
    List String → Progress → Except Halt (Progress × List String)
  | [], progress => .ok (progress, [])
  | word :: rest, progress =>
    match Word.ofString word with
    | .plain _ => .ok (progress, word :: rest)
    | .escape => if rest.isEmpty then .ok (progress, []) else .error .usage
    | .short letters => do
      readOptions topic options rest (← takeLetters topic options letters progress)
    | .long name value =>
      match options.find? fun entry => entry.long = name with
      | none => .error .usage
      | some entry =>
        match entry.meaning, value with
        | .value _ set, some text => do
          let awaiting ← progress.await ⟨entry, set, text⟩
          readOptions topic options rest (← awaiting.settle)
        | .value _ set, none =>
          match rest with
          | [] => .error .usage
          | next :: rest =>
            match Word.ofString next with
            | .plain text => do
              readOptions topic options rest (← progress.await ⟨entry, set, text⟩)
            | _ => .error .usage
        | _, some _ => .error .usage
        | _, none => do
          readOptions topic options rest (← progress.takeAlone topic entry)

/-! ### Command lines -/

/-- What the words after the word for help ask for. -/
def helpTopic : List String → Halt
  | [] => .help .program
  | [word] =>
    if word = helpWord then .help .help
    else
      match CommandName.ofWord? word with
      | some name => .help (.command name)
      | none => .usage
  | _ => .usage

namespace Invocation

/-- Read the options of a command. -/
def ofCommandWords (name : CommandName) (settings : Settings) (words : List String) :
    Except Halt Invocation := do
  let (progress, rest) ← readOptions (.command name) name.allOptions words (.start settings)
  let settled ← progress.settle
  if !rest.isEmpty then throw .usage
  match Command.ofSettings name settled.settings with
  | none => throw .usage
  | some command =>
    let config := settled.settings.config.getD (.ofString standardConfig)
    return ⟨config, settled.settings.verbose, command⟩

/-- Read a command line. -/
def ofWords (words : List String) : Except Halt Invocation := do
  let (progress, rest) ← readOptions .program programOptions words (.start .none)
  match rest with
  | [] => throw .usage
  | word :: rest =>
    if word = helpWord then throw (helpTopic rest)
    else
      match CommandName.ofWord? word with
      | none => throw .usage
      | some name =>
        match progress.settle with
        | .ok settled => ofCommandWords name settled.settings rest
        | .error halt => do
          let _ ← ofCommandWords name progress.settings rest
          throw halt

end Invocation

end CommandLine

end WaveletPrecision
