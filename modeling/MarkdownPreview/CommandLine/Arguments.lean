import MarkdownPreview.Config.Store
import MarkdownPreview.Selection.Notation

/-! The arguments of the command line. There is a command with options of its own, and one option
that may stand before the command as well as after it and has an environment variable besides. -/

namespace MarkdownPreview.CommandLine

abbrev Argument := List Char

/-! ### What can be given -/

/-- An option with two hyphens. One without a value's name takes no value. -/
structure CommandOption where
  name : String
  valueName : Option String := none
  repeats : Bool := false
  accepts : Argument → Bool := fun _ => true
  help : String

/-- The one argument of a command that is no option. -/
structure Operand where
  name : String
  accepts : Argument → Bool := fun _ => true
  help : String

/-- What may be given to a command. -/
structure Grammar where
  options : List CommandOption
  operand : Option Operand

/-- A path is not empty. -/
def isPath (a : Argument) : Bool := a ≠ []

def isOffset (a : Argument) : Bool := (Text.word? a).isSome

def configOption : CommandOption where
  name := "config"
  valueName := some "CONFIG"
  accepts := isPath
  help := "Path to a .json or .toml configuration file"

/-- The environment variable that stands in for the option. -/
def configVariable : String := "LIVEMARK_CONFIG"

def cursorOption : CommandOption where
  name := "cursor"
  valueName := some "N"
  repeats := true
  accepts := isOffset
  help := "Caret position (char offset); repeatable"

def selectionOption : CommandOption where
  name := "selection"
  valueName := some "A:B"
  repeats := true
  help := "Selection as ANCHOR:HEAD (char offsets); repeatable"

def rawOption : CommandOption where
  name := "raw"
  help := "Print every extracted decoration, ignoring selections"

def fileOperand : Operand where
  name := "FILE"
  accepts := isPath
  help := "Markdown file to decorate"

def expressionOperand : Operand where
  name := "EXPR"
  help := "Math content, without \x60$\x60 delimiters"

/-- The names of the commands. -/
inductive CommandName where
  | decorate
  | latex
  deriving Repr, DecidableEq

namespace CommandName

def all : List CommandName := [decorate, latex]

def name : CommandName → String
  | decorate => "decorate"
  | latex => "latex"

def about : CommandName → String
  | decorate => "Print the decorations to draw for a document and a set of selections"
  | latex => "Show the Unicode substitutions for a LaTeX math expression"

def grammar : CommandName → Grammar
  | decorate => ⟨[configOption, cursorOption, selectionOption, rawOption], some fileOperand⟩
  | latex => ⟨[configOption], some expressionOperand⟩

def ofArgument? (a : Argument) : Option CommandName := all.find? (·.name.toList == a)

end CommandName

/-- What may be given before the command. -/
def topGrammar : Grammar := ⟨[configOption], none⟩

/-! ### Reading arguments -/

/-- Why there is nothing to run. -/
inductive Stop where
  /-- The arguments are wrong. -/
  | misuse
  /-- Help was asked for: on everything, on a command, or on the help itself. -/
  | help (on : Option CommandName)
  | helpOnHelp
  | version (of : Option CommandName)
  deriving Repr, DecidableEq

/-- What has been given at one level. -/
structure Given where
  /-- The options with their values, in order. One that takes no value has an empty one. -/
  options : List (String × Argument) := []
  operand : Option Argument := none
  /-- The last option whose value was an argument of its own. Whether the value will do is seen when
  the next option comes or the level ends. -/
  pending : Option (CommandOption × Argument) := none

namespace Given

def values (g : Given) (o : CommandOption) : List Argument :=
  (g.options.filter (·.1 == o.name)).map (·.2)

def has (g : Given) (o : CommandOption) : Bool := g.options.any (·.1 == o.name)

/-- Adds an option with a value. -/
def add? (g : Given) (o : CommandOption) (value : Argument) : Option Given :=
  if !o.accepts value || (!o.repeats && g.has o) then none
  else some { g with options := g.options ++ [(o.name, value)] }

/-- Looks at the value that is pending. -/
def settle? (g : Given) : Option Given :=
  match g.pending with
  | none => some g
  | some (o, value) => { g with pending := none }.add? o value

/-- Adds an argument that is no option. -/
def addOperand? (grammar : Grammar) (g : Given) (a : Argument) : Option Given :=
  match grammar.operand, g.operand with
  | some operand, none => if operand.accepts a then some { g with operand := some a } else none
  | _, _ => none

end Given

/-- An argument that cannot be the value of the option before it. -/
def looksLikeOption : Argument → Bool
  | '-' :: _ :: _ => true
  | _ => false

/-- The name in an argument with two hyphens, and the value after an equals sign. -/
def longOption? : Argument → Option (Argument × Option Argument)
  | '-' :: '-' :: c :: rest =>
    let text := c :: rest
    let value := match text.dropWhile (· != '=') with
      | _ :: value => some value
      | [] => none
    some (text.takeWhile (· != '='), value)
  | _ => none

/-- What an argument with hyphens does. -/
inductive OptionStep where
  | goOn (g : Given)
  /-- The next argument is the option's value. -/
  | takesNext (o : CommandOption) (g : Given)
  | stop (why : Stop)

/-- Asks for help or the version. -/
def stopWith (g : Given) (why : Stop) : OptionStep :=
  match g.settle? with
  | some _ => .stop why
  | none => .stop .misuse

/-- Reads an argument with two hyphens and a name. -/
def longStep (grammar : Grammar) (command : Option CommandName) (g : Given) (name : Argument)
    (value : Option Argument) : OptionStep :=
  if name = "help".toList ∧ value = none then stopWith g (.help command)
  else if name = "version".toList ∧ value = none then stopWith g (.version command)
  else
    match grammar.options.find? (·.name.toList == name), g.settle? with
    | some o, some g =>
      match o.valueName, value with
      | none, some _ => .stop .misuse
      | some _, none => .takesNext o g
      | _, _ =>
        match g.add? o (value.getD []) with
        | some g => .goOn g
        | none => .stop .misuse
    | _, _ => .stop .misuse

/-- Reads an argument with one hyphen and a letter. -/
def shortStep (command : Option CommandName) (g : Given) (letter : Char) : OptionStep :=
  if letter = 'h' then stopWith g (.help command)
  else if letter = 'V' then stopWith g (.version command)
  else .stop .misuse

/-- What follows the arguments of a level. -/
abbrev Rest := Option (Argument × List Argument)

/-- Reads the arguments of a level up to one that `ends` it. After two lone hyphens every argument
is an operand. -/
def readLevel (grammar : Grammar) (command : Option CommandName) (ends : Argument → Bool)
    (onlyOperands : Bool) (g : Given) : List Argument → Except Stop (Given × Rest)
  | [] => .ok (g, none)
  | a :: rest =>
    if onlyOperands then
      match g.addOperand? grammar a with
      | some g => readLevel grammar command ends true g rest
      | none => .error .misuse
    else if ends a then .ok (g, some (a, rest))
    else if a = ['-', '-'] then readLevel grammar command ends true g rest
    else
      let step := match longOption? a, a with
        | some (name, value), _ => some (longStep grammar command g name value)
        | none, '-' :: letter :: _ => some (shortStep command g letter)
        | none, _ => none
      match step with
      | some (.goOn g) => readLevel grammar command ends false g rest
      | some (.takesNext o g) =>
        match rest with
        | value :: rest =>
          if looksLikeOption value then .error .misuse
          else readLevel grammar command ends false { g with pending := some (o, value) } rest
        | [] => .error .misuse
      | some (.stop why) => .error why
      | none =>
        match g.addOperand? grammar a with
        | some g => readLevel grammar command ends false g rest
        | none => .error .misuse

/-! ### Invocations -/

inductive Command where
  | decorate (file : Path) (cursors : List Nat) (selections : List Argument) (raw : Bool)
  | latex (expression : List Char)
  deriving Repr, DecidableEq

structure Invocation where
  config : Option Path
  command : Command
  deriving Repr, DecidableEq

/-- Ends a level. The environment variable must do wherever the option is not given. -/
def finish (environment : Option Argument) (g : Given) : Except Stop Given :=
  match g.settle? with
  | none => .error .misuse
  | some g => if !g.has configOption && environment = some [] then .error .misuse else .ok g

/-- The command that has been given. -/
def command? (name : CommandName) (g : Given) : Option Command :=
  match name, g.operand with
  | _, none => none
  | .decorate, some file =>
    some (.decorate file ((g.values cursorOption).filterMap Text.word?) (g.values selectionOption)
      (g.has rawOption))
  | .latex, some expression => some (.latex expression)

/-- The help that is asked for by name. -/
def helpFor (names : List Argument) : Stop :=
  match names with
  | [] => .help none
  | [name] =>
    if name = "help".toList then .helpOnHelp
    else
      match CommandName.ofArgument? name with
      | some command => .help (some command)
      | none => .misuse
  | _ => .misuse

/-- Reads the arguments. An option after the command counts before one ahead of it, and both count
before the environment variable. -/
def parse (environment : Option Argument) (args : List Argument) : Except Stop Invocation := do
  let endsTop (a : Argument) : Bool := a = "help".toList || (CommandName.ofArgument? a).isSome
  match ← readLevel topGrammar none endsTop false {} args with
  | (_, none) => .error .misuse
  | (top, some (word, rest)) =>
    match CommandName.ofArgument? word with
    | none => .error (helpFor rest)
    | some name =>
      let (own, _) ← readLevel name.grammar (some name) (fun _ => false) false {} rest
      let own ← finish environment own
      let top ← finish environment top
      match command? name own with
      | none => .error .misuse
      | some command =>
        let config := (own.values configOption ++ top.values configOption).head?.or environment
        .ok ⟨config, command⟩

/-- The files that an invocation may read. -/
def Invocation.paths (i : Invocation) : List Path :=
  i.config.toList ++
    match i.command with
    | .decorate file .. => [file]
    | .latex _ => []

end MarkdownPreview.CommandLine
