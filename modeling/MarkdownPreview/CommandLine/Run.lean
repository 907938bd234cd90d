import MarkdownPreview.CommandLine.Help
import MarkdownPreview.Latex.Scan
import MarkdownPreview.Preview

/-! What the command line does. It prints on the standard output until it is done or fails. The
standard output is a parameter, as it need not take all that is printed: the run fails then too. -/

namespace MarkdownPreview.CommandLine

/-- Why a run fails. -/
inductive Failure where
  | misuse
  | config (e : Config.LoadError)
  | selection (e : Selection.NotationError)
  /-- The document cannot be read. -/
  | document (file : Path) (reason : List Char)
  /-- The standard output does not take what is printed. -/
  | output (reason : List Char)
  deriving Repr, DecidableEq

namespace Failure

/-- The exit status. -/
def status : Failure → Nat
  | misuse => 2
  | config _ | selection _ | document .. | output _ => 1

/-- What the user is told. -/
def message : Failure → List Char
  | misuse => "error: see --help for the usage".toList
  | config (.file e) => e.message
  | config (.text _) => "the configuration cannot be read".toList
  | selection e => e.message
  | document file reason => "reading ".toList ++ file ++ ": ".toList ++ reason
  | output reason => reason

end Failure

/-! ### Output -/

/-- The standard output stops within a text. -/
structure Refusal where
  /-- How many characters of the text it has taken by then. -/
  taken : Nat
  reason : List Char
  deriving Repr, DecidableEq

/-- Whether the standard output takes a text that is offered to it, given what it has taken before.
It may be a file on a full disk, or a pipe that is no longer read. -/
abbrev Output := (shown offered : List Char) → Option Refusal

namespace Output

/-- It takes whatever it is offered. -/
def unlimited : Output := fun _ _ => none

def TakesAll (output : Output) : Prop := ∀ shown offered, output shown offered = none

end Output

/-- A part of the program. Its state is what the standard output has taken; a failure takes none of
that back. -/
abbrev Console := ExceptT Failure (StateM (List Char))

/-- Offers a text to the standard output, which takes all of it or stops within it. -/
def offer (output : Output) (text : List Char) : StateM (List Char) (Option Refusal) := fun shown =>
  match output shown text with
  | none => (none, shown ++ text)
  | some refusal => (some refusal, shown ++ text.take refusal.taken)

/-- Prints a line. If it is not taken, the run fails. -/
def printLine (output : Output) (line : List Char) : Console Unit := do
  match ← liftM (offer output (line ++ ['\n'])) with
  | none => pure ()
  | some refusal => throw (.output refusal.reason)

/-- Prints what is asked for instead of a run. It makes no difference whether it is taken. -/
def printNotice (output : Output) (text : List Char) : Console Unit := do
  let _ ← liftM (offer output text)

/-! ### Commands -/

/-- The configuration of an invocation. Its log level must be one. -/
def loadConfig (files : Config.Files) (path : Option Path) : Except Failure Config := do
  let config ← (Config.loadOrDefault files path).mapError .config
  match config.level? with
  | .ok _ => .ok config
  | .error level =>
    let reason := "unknown log level \x60".toList ++ level ++ ['\x60']
    .error (.config (.file (.unreadable (path.getD "<default>".toList) reason)))

/-- The selections that are given, the carets first. -/
def readSelections (cursors : List Nat) (ranges : List Argument) :
    Except Failure (List Selection) := do
  let ranges ← ranges.mapM fun range => (Selection.parse range).mapError .selection
  .ok (cursors.map Selection.caret ++ ranges)

def readDocument (files : Config.Files) (file : Path) : Except Failure (List Char) :=
  (files file).mapError (.document file)

/-- The decorations of a document as JSON: all of them, or those to draw by kind. -/
def decorationsJson (options : Options) (source : List Char) (selections : List Selection)
    (raw : Bool) : Json :=
  if raw then .array ((extract options source).map Decoration.toJson)
  else (preview options source selections).toJson

variable (output : Output) (files : Config.Files)

/-- Prints the decorations of the document in a file. -/
def decorate (options : Options) (file : Path) (selections : List Selection) (raw : Bool) :
    Console Unit := do
  let source ← readDocument files file
  printLine output (decorationsJson options source selections raw).pretty

/-- Prints the substitutions in math as JSON, and the math with them made. -/
def showLatex (expression : List Char) : Console Unit := do
  let substitutions := Latex.nonOverlapping (Latex.findSubstitutions expression 0)
  printLine output (Json.array (substitutions.map Latex.Substitution.toJson)).pretty
  printLine output (Latex.renderUnicode expression)

/-- Runs a command. The configuration is loaded first, whatever the command. -/
def Invocation.run (i : Invocation) : Console Unit := do
  let config ← loadConfig files i.config
  match i.command with
  | .decorate file cursors ranges raw =>
    let selections ← readSelections cursors ranges
    decorate output files config.extract file selections raw
  | .latex expression => showLatex output expression

/-- What the program does with its arguments. -/
def program (environment : Option Argument) (args : List Argument) : Console Unit :=
  match parse environment args with
  | .ok i => i.run output files
  | .error .misuse => throw .misuse
  | .error (.help on) => printNotice output (helpText environment on)
  | .error .helpOnHelp => printNotice output helpOnHelpText
  | .error (.version of) => printNotice output (versionText of)

/-! ### Runs -/

/-- What is seen of a run that has ended. -/
structure Outcome where
  failure : Option Failure
  stdout : List Char
  deriving Repr, DecidableEq

namespace Outcome

/-- The exit status. -/
def status (o : Outcome) : Nat :=
  match o.failure with
  | none => 0
  | some failure => failure.status

/-- What was printed by a run that did not fail. -/
def result (o : Outcome) : Except Failure (List Char) :=
  match o.failure with
  | none => .ok o.stdout
  | some failure => .error failure

end Outcome

/-- Runs the program until it ends, with nothing on the standard output yet. -/
def execute (environment : Option Argument) (args : List Argument) : Outcome :=
  match (program output files environment args).run.run [] with
  | (.ok (), stdout) => ⟨none, stdout⟩
  | (.error failure, stdout) => ⟨some failure, stdout⟩

/-- The result of a run, as it is where all that is printed is taken. -/
def run (environment : Option Argument) (args : List Argument) : Except Failure (List Char) :=
  (execute Output.unlimited files environment args).result

end MarkdownPreview.CommandLine
