import MarkdownPreview.Config.Basic
import MarkdownPreview.Json.Convert
import MarkdownPreview.Toml.Print
import MarkdownPreview.Toml.Read

/-! Configurations as text, in JSON and in TOML. What the text does not mention has its default, and
what it mentions beyond the configuration is passed over. -/

namespace MarkdownPreview.Config

open Json (Reader)

/-- The keys of a configuration's fields. -/
def levelKey : List Char := "log_level".toList

def extractKey : List Char := "extract".toList

/-! ### JSON -/

/-- A configuration without a level has no member for it. -/
def toJson (c : Config) : Json :=
  .object ((c.logLevel.map fun level => (levelKey, Json.string level)).toList ++
    [(extractKey, c.extract.toJson)])

/-- The fields of a configuration that have been read. -/
structure Fields where
  logLevel : Option (Option (List Char)) := none
  extract : Option Options := none

namespace Fields

def config (f : Fields) : Config := ⟨f.logLevel.getD none, f.extract.getD {}⟩

def logLevel? (f : Fields) : Reader Fields :=
  Json.field? (Json.optional? Json.string?) f.logLevel ({ f with logLevel := some · })

def extract? (f : Fields) : Reader Fields :=
  Json.field? Options.ofJson? f.extract ({ f with extract := some · })

def member? (key : List Char) (f : Fields) : Reader Fields :=
  if key = levelKey then f.logLevel?
  else if key = extractKey then f.extract?
  else Json.unknownField? f

/-- Reads the next of the fields in order. -/
def item? (f : Fields) : Reader Fields := if f.logLevel.isNone then f.logLevel? else f.extract?

end Fields

def ofJson? : Reader Config := fun text =>
  let fields := match text with
    | '[' :: _ => Json.array? Fields.item? {} text
    | _ => Json.object? Fields.member? {} text
  fields.map fun (fields, rest) => (fields.config, rest)

/-! ### TOML -/

/-- The flag that a value is, if it is there at all. -/
def flag? : Option Toml.Value → Option (Option Bool)
  | none => some none
  | some (.bool b) => some (some b)
  | some _ => none

/-- The options that a TOML value gives: a table, or an array in the order of the options. A date or
time counts as a table without any of them. -/
def optionsOfToml? : Toml.Value → Option Options
  | .table _ entries =>
    (Options.names.mapM fun name => flag? (Toml.Entries.find? entries name.toList)).map
      Options.ofFlags
  | .array items =>
    ((items.take Options.names.length).mapM fun v => flag? (some v)).map Options.ofFlags
  | .moment => some {}
  | _ => none

/-- The configuration that the entries of a TOML document give. -/
def ofToml? (entries : Toml.Entries) : Option Config := do
  let level ← match Toml.Entries.find? entries levelKey with
    | none => some none
    | some (.string level) => some (some level)
    | some _ => none
  let options ← match Toml.Entries.find? entries extractKey with
    | none => some {}
    | some v => optionsOfToml? v
  some ⟨level, options⟩

/-- A line of a TOML document that gives a key its value. -/
def tomlLine (key value : List Char) : List Char := key ++ " = ".toList ++ value ++ ['\n']

/-- A configuration as a TOML document: the level, and a table of the options after a blank line. -/
def toToml (c : Config) : List Char :=
  let level := match c.logLevel with
    | some level => tomlLine levelKey (Toml.quote level) ++ ['\n']
    | none => []
  let flags := (Options.names.zip c.extract.flags).flatMap fun (name, flag) =>
    tomlLine name.toList (if flag then "true" else "false").toList
  level ++ '[' :: extractKey ++ "]\n".toList ++ flags

/-! ### Formats -/

inductive Format where
  | json
  | toml
  deriving Repr, DecidableEq

/-- Reads a configuration that is the whole of a text. -/
def Format.read? : Format → List Char → Option Config
  | json, text => Json.document? ofJson? text
  | toml, text => (Toml.parse? text).bind ofToml?

def Format.write : Format → Config → List Char
  | json, c => c.toJson.pretty
  | toml, c => c.toToml

end MarkdownPreview.Config
