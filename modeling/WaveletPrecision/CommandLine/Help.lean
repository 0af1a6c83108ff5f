import WaveletPrecision.CommandLine.Invocation

/-
The help texts of the command line.
-/
namespace WaveletPrecision

namespace CommandLine

/-- A text, filled up with blanks. -/
def padTo (width : Nat) (s : String) : String :=
  s ++ String.ofList (List.replicate (width - s.length) ' ')

/-- Lines of two columns. -/
def columns (rows : List (String × String)) : List String :=
  let width := (rows.map fun row => row.1.length).foldl max 0
  rows.map fun (left, right) => "  " ++ padTo width left ++ "  " ++ right

/-- An option as it is written after its hyphens. -/
def OptionEntry.spelling (entry : OptionEntry) : String :=
  "--" ++ entry.long ++
    match entry.meaning with
    | .value placeholder _ => " <" ++ placeholder ++ ">"
    | _ => ""

/-- The letter of an option, or as much room. -/
def OptionEntry.letterColumn (entry : OptionEntry) : String :=
  match entry.short with
  | some letter => "-" ++ String.singleton letter ++ ", "
  | none => "    "

/-- What is said about an option. -/
def OptionEntry.description (entry : OptionEntry) : String :=
  let standard := entry.standard.toList.map fun text => "[default: " ++ text ++ "]"
  String.intercalate " " ((if entry.about = "" then [] else [entry.about]) ++ standard)

/-- The lines about options. -/
def optionLines (entries : List OptionEntry) : List String :=
  columns (entries.map fun entry => (entry.letterColumn ++ entry.spelling, entry.description))

/-- The text by which options of the same rank are ordered. -/
def OptionEntry.sortKey (entry : OptionEntry) : String :=
  match entry.short with
  | some letter => String.singleton letter
  | none => entry.long

/-- Two lists of options as one: the options with the same number in their lists stand together,
ordered by their keys. -/
def merged (own common : List OptionEntry) : List OptionEntry :=
  let ranked := own.zipIdx ++ common.zipIdx
  (ranked.mergeSort fun a b => a.2 < b.2 || (a.2 = b.2 && a.1.sortKey ≤ b.1.sortKey)).map
    Prod.fst

/-- The lines of a help text, from paragraphs that an empty line divides. -/
def paragraphs (parts : List (List String)) : List String := List.intercalate [""] parts

/-- The lines of the help text of the program. -/
def programHelp : List String :=
  paragraphs [
    [programAbout],
    ["Usage: " ++ programName ++ " [OPTIONS] <COMMAND>"],
    "Commands:" :: columns (CommandName.all.map (fun name => (name.word, name.about))
      ++ [(helpWord, helpAbout)]),
    "Options:" :: optionLines programOptions]

/-- The lines of the help text of a command. -/
def CommandName.helpLines (name : CommandName) : List String :=
  let required := (name.options.filter fun entry => entry.required).map OptionEntry.spelling
  paragraphs [
    [name.about],
    [String.intercalate " " (["Usage:", programName, name.word, "[OPTIONS]"] ++ required)],
    "Options:" :: optionLines (merged name.options commonOptions ++ [helpOption])]

/-- The lines of the help text of the command for help texts. -/
def helpHelp : List String :=
  paragraphs [
    [helpAbout],
    ["Usage: " ++ programName ++ " " ++ helpWord ++ " [COMMAND]..."],
    "Arguments:" :: columns [("[COMMAND]...", "Print help for the subcommand(s)")]]

/-- The lines of the help text of a topic. -/
def Topic.helpLines : Topic → List String
  | program => programHelp
  | command name => name.helpLines
  | help => helpHelp

/-- Lines as a text, each with a line break. -/
def unlines (lines : List String) : String := String.join (lines.map fun line => line ++ "\n")

end CommandLine

end WaveletPrecision
