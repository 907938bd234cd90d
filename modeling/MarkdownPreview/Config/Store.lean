import MarkdownPreview.Config.Format

/-! Configurations in files. The file's extension says the format. Reading a file is left to the
caller, who hands in what the files hold. -/

namespace MarkdownPreview

/-! ### Paths -/

abbrev Path := List Char

namespace Path

/-- The parts of a path between its slashes. -/
def parts : Path → List (List Char)
  | [] => [[]]
  | c :: rest =>
    if c = '/' then [] :: parts rest
    else
      match parts rest with
      | [] => [[c]]
      | part :: more => (c :: part) :: more

/-- The parts of a path that stand for a step. -/
def steps (p : Path) : List (List Char) := p.parts.filter fun part => part ≠ [] ∧ part ≠ ['.']

/-- What follows the last dot in a name, if anything stands before that dot. -/
def extensionOf? (name : List Char) : Option (List Char) :=
  let tail := (name.reverse.takeWhile (· != '.')).reverse
  if tail.length + 1 < name.length then some tail else none

/-- The extension of the file's name. -/
def extension? (p : Path) : Option (List Char) :=
  match p.steps.getLast? with
  | some name => if name = "..".toList then none else extensionOf? name
  | none => none

end Path

namespace Config

/-! ### Errors -/

/-- Why a file cannot serve as a configuration, apart from its text. -/
structure FileError where
  path : Path
  reason : List Char
  help : Option String
  deriving Repr, DecidableEq

namespace FileError

def message (e : FileError) : List Char :=
  "configuration error in ".toList ++ e.path ++ ": ".toList ++ e.reason

/-- The name under which the error is documented. -/
def code : String := "livemark::config"

def unsupported (p : Path) : FileError :=
  ⟨p, "unsupported file format".toList, some "use a .json or .toml file"⟩

def unreadable (p : Path) (reason : List Char) : FileError := ⟨p, reason, none⟩

end FileError

inductive LoadError where
  | file (e : FileError)
  /-- The text is not of the format, or a setting has a value of a wrong type. -/
  | text (format : Format)
  deriving Repr, DecidableEq

/-! ### Loading and saving -/

/-- The format of the file at a path. -/
def format? (p : Path) : Option Format :=
  match p.extension? with
  | none => none
  | some extension =>
    if extension = "json".toList then some .json
    else if extension = "toml".toList then some .toml
    else none

/-- What the files hold, or why one cannot be read. -/
abbrev Files := Path → Except (List Char) (List Char)

/-- Loads the configuration in a file. The format is decided on before the file is read. -/
def load (files : Files) (p : Path) : Except LoadError Config :=
  match format? p with
  | none => .error (.file (.unsupported p))
  | some format =>
    match files p with
    | .error reason => .error (.file (.unreadable p reason))
    | .ok text =>
      match format.read? text with
      | some c => .ok c
      | none => .error (.text format)

/-- Loads the configuration in a file, or without a file the defaults. -/
def loadOrDefault (files : Files) : Option Path → Except LoadError Config
  | some p => load files p
  | none => .ok {}

/-- What is written to a file to save a configuration in it. -/
def save (c : Config) (p : Path) : Except FileError (List Char) :=
  match format? p with
  | some format => .ok (format.write c)
  | none => .error (.unsupported p)

end Config

end MarkdownPreview
