import MarkdownPreview.Toml.Scalar
import MarkdownPreview.Toml.Value

/-! Reading TOML documents: lines that give keys their values, under headers that name tables. -/

namespace MarkdownPreview.Toml

/-! ### Values -/

/-- Moves over a text that must be there. -/
def literal? (word : String) (v : Value) (text : List Char) : Option (Value × List Char) :=
  (Json.afterText? word.toList text).map (v, ·)

/-- The value of a scalar that is only passed over. -/
def Scalar.value : Scalar → Value
  | .number => .number
  | .moment => .moment

mutual

/-- Reads a value, inside `depth` arrays and tables in braces. -/
def value? : Nat → Nat → List Char → Option (Value × List Char)
  | 0, _, _ => none
  | fuel + 1, depth, text =>
    match text with
    | [] => none
    | c :: rest =>
      if c = '"' ∨ c = '\'' then (string? text).map fun (s, rest) => (.string s, rest)
      else if c = '[' then
        if depthLimit ≤ depth + 1 then none
        else
          match skipBlank (rest.length + 1) rest with
          | ']' :: rest => some (.array [], rest)
          | rest => (items? fuel (depth + 1) rest).map fun (vs, rest) => (.array vs, rest)
      else if c = '\x7b' then
        if depthLimit ≤ depth + 1 then none
        else
          match skipSpace rest with
          | '\x7d' :: rest => some (.table .inline [], rest)
          | rest =>
            (pairs? fuel (depth + 1) [] rest).map fun (es, rest) => (.table .inline es, rest)
      else if c = 't' then literal? "true" (.bool true) text
      else if c = 'f' then literal? "false" (.bool false) text
      else if c = 'i' ∨ c = 'n' then (specialFloat? text).map (.number, ·)
      else if c = '+' ∨ c = '-' ∨ ('0' ≤ c ∧ c ≤ '9') then
        (scalar? text).map fun (s, rest) => (s.value, rest)
      else none

/-- Reads the items of an array up to its end. A comma may come after the last one. -/
def items? : Nat → Nat → List Char → Option (List Value × List Char)
  | 0, _, _ => none
  | fuel + 1, depth, text => do
    let (v, rest) ← value? fuel depth text
    match skipBlank (rest.length + 1) rest with
    | ']' :: rest => some ([v], rest)
    | ',' :: rest =>
      match skipBlank (rest.length + 1) rest with
      | ']' :: rest => some ([v], rest)
      | rest =>
        let (vs, rest) ← items? fuel depth rest
        some (v :: vs, rest)
    | _ => none

/-- Reads the keys and values of a table in braces up to its end, after those read before. -/
def pairs? : Nat → Nat → Entries → List Char → Option (Entries × List Char)
  | 0, _, _, _ => none
  | fuel + 1, depth, entries, text => do
    let ((path, key), rest) ← key? text
    let rest ← after? '=' rest
    let (v, rest) ← value? fuel depth (skipSpace rest)
    let entries ← entries.insertAt? path key v
    match skipSpace rest with
    | '\x7d' :: rest => some (entries, rest)
    | ',' :: rest => pairs? fuel depth entries rest
    | _ => none

end

/-! ### Documents -/

/-- A document while it is read, with the path of the last header. -/
structure Document where
  header : List (List Char) := []
  entries : Entries := []

namespace Document

/-- Reads a header after its first bracket. -/
def header? (d : Document) (text : List Char) : Option (Document × List Char) := do
  let (next, text) := match text with
    | '[' :: rest => (true, rest)
    | _ => (false, text)
  let ((path, key), rest) ← key? text
  let rest ← after? ']' rest
  let rest ← if next then after? ']' rest else some rest
  let entries ← if next then d.entries.beginNextTable? path key else d.entries.beginTable? path key
  some (⟨path ++ [key], entries⟩, ← lineEnd? rest)

/-- Reads a line that gives a key its value. -/
def pair? (d : Document) (text : List Char) : Option (Document × List Char) := do
  let ((path, key), rest) ← key? text
  let rest ← after? '=' rest
  let (v, rest) ← value? (2 * text.length + 1) 0 (skipSpace rest)
  let change (_ : TableForm) (inner : Entries) : Option Entries := inner.insertAt? path key v
  let entries ← d.entries.update? false change d.header .headed
  some (⟨d.header, entries⟩, ← lineEnd? rest)

/-- Reads the lines of a document. -/
def lines? : Nat → Document → List Char → Option Document
  | 0, _, _ => none
  | fuel + 1, d, text =>
    match skipSpace text with
    | [] => some d
    | c :: rest =>
      if c = '#' ∨ c = '\n' ∨ c = '\r' then (lineEnd? (c :: rest)).bind (lines? fuel d)
      else if c = '[' then (d.header? rest).bind fun (d, rest) => lines? fuel d rest
      else (d.pair? (c :: rest)).bind fun (d, rest) => lines? fuel d rest

end Document

/-- The mark that may stand before the first character of a document. -/
def skipByteOrderMark : List Char → List Char
  | '\ufeff' :: rest => rest
  | text => text

/-- The entries of a document. -/
def parse? (text : List Char) : Option Entries :=
  let text := skipByteOrderMark text
  (Document.lines? (text.length + 1) {} text).map (·.entries)

end MarkdownPreview.Toml
