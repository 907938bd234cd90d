import MarkdownPreview.Decoration.Filter
import MarkdownPreview.Json.Basic
import MarkdownPreview.Json.Read
import MarkdownPreview.Latex.Substitution
import MarkdownPreview.Options

/-! Decorations, substitutions and options as JSON. A record is an object with a member for each
field; it is also read from an array of the fields in order. Members that are no fields are passed
over, and a field given twice is an error. -/

namespace MarkdownPreview

open Json (Reader)

/-! ### Options -/

namespace Options

def toJson (o : Options) : Json :=
  .object ((names.zip o.flags).map fun (name, flag) => (name.toList, .bool flag))

/-- Reads a member of an object of options. -/
def member? (key : List Char) (flags : List (Option Bool)) : Reader (List (Option Bool)) :=
  match index? key with
  | none => Json.unknownField? flags
  | some n => Json.field? Json.bool? ((flags[n]?).getD none) fun flag => flags.set n (some flag)

/-- Reads an item of an array of options. -/
def item? (flags : List (Option Bool)) : Reader (List (Option Bool)) := fun text =>
  if flags.length < names.length then
    (Json.bool? text).map fun (flag, rest) => (flags ++ [some flag], rest)
  else none

def ofJson? : Reader Options := fun text =>
  let flags := match text with
    | '[' :: _ => Json.array? item? [] text
    | _ => Json.object? member? unset text
  flags.map fun (flags, rest) => (ofFlags flags, rest)

end Options

/-! ### Decorations -/

namespace Decoration

/-- Reads a kind: its name, or an object with its name as the only key and nothing in it. -/
def Kind.ofJson? : Reader Kind := fun text => do
  match text with
  | '{' :: rest =>
    let (name, text) ← Json.key? (Json.skipSpace rest)
    let kind ← Kind.ofName? name
    let (_, text) ← Json.null? text
    match Json.skipSpace text with
    | '}' :: rest => some (kind, rest)
    | _ => none
  | _ =>
    let (name, rest) ← Json.string? text
    some (← Kind.ofName? name, rest)

def toJson (d : Decoration) : Json :=
  .object ([("startPos".toList, .natural d.start), ("endPos".toList, .natural d.stop),
    ("type".toList, .string d.kind.name.toList)] ++
    (d.replacement.map fun text => ("replacement".toList, Json.string text)).toList)

/-- The fields of a decoration that have been read. -/
structure Fields where
  start : Option Nat := none
  stop : Option Nat := none
  kind : Option Kind := none
  replacement : Option (Option (List Char)) := none

namespace Fields

/-- The decoration, once every field but the replacement is there. -/
def decoration? (f : Fields) : Option Decoration := do
  some ⟨← f.start, ← f.stop, ← f.kind, f.replacement.getD none⟩

def start? (f : Fields) : Reader Fields :=
  Json.field? Json.word? f.start ({ f with start := some · })

def stop? (f : Fields) : Reader Fields :=
  Json.field? Json.word? f.stop ({ f with stop := some · })

def kind? (f : Fields) : Reader Fields :=
  Json.field? Kind.ofJson? f.kind ({ f with kind := some · })

def replacement? (f : Fields) : Reader Fields :=
  Json.field? (Json.optional? Json.string?) f.replacement ({ f with replacement := some · })

def member? (key : List Char) (f : Fields) : Reader Fields :=
  if key = "startPos".toList then f.start?
  else if key = "endPos".toList then f.stop?
  else if key = "type".toList then f.kind?
  else if key = "replacement".toList then f.replacement?
  else Json.unknownField? f

/-- Reads the next of the fields in order. -/
def item? (f : Fields) : Reader Fields :=
  if f.start.isNone then f.start?
  else if f.stop.isNone then f.stop?
  else if f.kind.isNone then f.kind?
  else f.replacement?

end Fields

def ofJson? : Reader Decoration := fun text => do
  let (fields, rest) ← match text with
    | '[' :: _ => Json.array? Fields.item? {} text
    | _ => Json.object? Fields.member? {} text
  some (← fields.decoration?, rest)

/-- The decoration on one line. -/
def print (d : Decoration) : List Char := d.toJson.compact

/-- Reads a decoration that is the whole of a text. -/
def parse? (text : List Char) : Option Decoration := Json.document? ofJson? text

/-- Decorations by kind, as an object with the kinds' names as keys. -/
def ByKind.toJson (m : ByKind) : Json :=
  .object (m.map fun (kind, ds) => (kind.name.toList, .array (ds.map Decoration.toJson)))

end Decoration

/-! ### Substitutions -/

def Latex.Substitution.toJson (s : Latex.Substitution) : Json :=
  .object [("startPos".toList, .natural s.start), ("endPos".toList, .natural s.stop),
    ("source".toList, .string s.source), ("display".toList, .string s.display)]

end MarkdownPreview
