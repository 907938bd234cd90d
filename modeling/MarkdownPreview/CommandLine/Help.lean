import MarkdownPreview.CommandLine.Arguments

/-! The texts that the command line prints about itself. -/

namespace MarkdownPreview.CommandLine

/-- The name by which the program is called. -/
def programName : String := "livemark"

/-- The name and the version that the program gives itself. -/
def versionName : String := "livemark-cli"

def versionNumber : String := "0.1.0"

def programAbout : String := "livemark - live-preview decorations for Markdown"

def helpAbout : String := "Print this message or the help of the given subcommand(s)"

/-! ### Layout -/

/-- The columns that a line of help may fill. -/
def lineWidth : Nat := 100

/-- The words of a text, each with the spaces after it. -/
def words : List Char → List (List Char)
  | [] => []
  | c :: rest =>
    match words rest with
    | [] => [[c]]
    | w :: ws => if c = ' ' ∧ w.head? ≠ some ' ' then [c] :: w :: ws else (c :: w) :: ws

/-- A word without the spaces after it. -/
def bareWord (w : List Char) : List Char := (w.reverse.dropWhile (· == ' ')).reverse

/-- Puts words on lines of a width, `line` being what the first line holds. A line that is full
loses the spaces at its end. -/
def fillLines (width : Nat) (line : List Char) : List (List Char) → List (List Char)
  | [] => [line]
  | w :: ws =>
    if line ≠ [] ∧ width < line.length + (bareWord w).length then
      bareWord line :: fillLines width w ws
    else fillLines width (line ++ w) ws

/-- A row of a section: a term and what it means. Terms fill `termWidth` columns. -/
def row (termWidth : Nat) (term meaning : List Char) : List Char :=
  let indent := termWidth + 4
  let lines := fillLines (lineWidth - indent) [] (words meaning)
  "  ".toList ++ term ++ List.replicate (termWidth + 2 - term.length) ' ' ++
    ('\n' :: List.replicate indent ' ').intercalate lines ++ ['\n']

/-- A section: a blank line, its title and its rows. -/
def titledRows (title : String) (rows : List (String × String)) : List Char :=
  if rows = [] then []
  else
    let width := (rows.map (·.1.length)).foldl max 0
    '\n' :: title.toList ++ ":\n".toList ++
      rows.flatMap fun (term, meaning) => row width term.toList meaning.toList

/-! ### Help -/

/-- The option with its value, as it is shown. -/
def CommandOption.term (o : CommandOption) : String :=
  let name := "    --" ++ o.name
  match o.valueName with
  | some value => name ++ " <" ++ value ++ ">"
  | none => name

/-- What the option means, with the environment variable that stands in for it. -/
def CommandOption.meaning (o : CommandOption) (environment : Option Argument) : String :=
  if o.name = configOption.name then
    o.help ++ " [env: " ++ configVariable ++ "=" ++ String.ofList (environment.getD []) ++ "]"
  else o.help

def optionRows (environment : Option Argument) (g : Grammar) : List (String × String) :=
  g.options.map (fun o => (o.term, o.meaning environment)) ++
    [("-h, --help", "Print help"), ("-V, --version", "Print version")]

def commandRows : List (String × String) :=
  CommandName.all.map (fun c => (c.name, c.about)) ++ [("help", helpAbout)]

/-- The head of a help text: what it is about, and how it is used. -/
def helpHead (about usage : String) : List Char :=
  about.toList ++ "\n\nUsage: ".toList ++ programName.toList ++ ' ' :: usage.toList ++ ['\n']

/-- The help on everything or on a command. -/
def helpText (environment : Option Argument) : Option CommandName → List Char
  | none =>
    helpHead programAbout "[OPTIONS] <COMMAND>" ++ titledRows "Commands" commandRows ++
      titledRows "Options" (optionRows environment topGrammar)
  | some c =>
    let operands := c.grammar.operand.toList.map fun o => ("<" ++ o.name ++ ">", o.help)
    let usage := operands.foldl (fun usage o => usage ++ " " ++ o.1) (c.name ++ " [OPTIONS]")
    helpHead c.about usage ++ titledRows "Arguments" operands ++
      titledRows "Options" (optionRows environment c.grammar)

/-- The help on the help. -/
def helpOnHelpText : List Char :=
  helpHead helpAbout "help [COMMAND]..." ++
    titledRows "Arguments" [("[COMMAND]...", "Print help for the subcommand(s)")]

/-- The version of the program, under its own name or with that of a command. -/
def versionText (command : Option CommandName) : List Char :=
  let name := match command with
    | some c => versionName ++ "-" ++ c.name
    | none => versionName
  (name ++ " " ++ versionNumber ++ "\n").toList

end MarkdownPreview.CommandLine
