import MarkdownPreview.Text.Numeral

/-! JSON values as they are written, either on one line or indented by two columns a level. -/

namespace MarkdownPreview

/-- The values that are ever written: there are no fractions and no negative numbers. -/
inductive Json where
  | null
  | bool (b : Bool)
  | natural (n : Nat)
  | string (text : List Char)
  | array (items : List Json)
  | object (members : List (List Char × Json))
  deriving Inhabited

namespace Json

/-! ### Strings -/

/-- The lower-case hexadecimal digit of a value below 16. -/
def hexDigit (n : Nat) : Char := Nat.digitChar n

/-- A character inside a string. Quotes, backslashes and the control characters of ASCII are
escaped, by a letter if they have one. -/
def escape (c : Char) : List Char :=
  if c = '"' then ['\\', '"']
  else if c = '\\' then ['\\', '\\']
  else if c = '\x08' then ['\\', 'b']
  else if c = '\x0c' then ['\\', 'f']
  else if c = '\n' then ['\\', 'n']
  else if c = '\r' then ['\\', 'r']
  else if c = '\t' then ['\\', 't']
  else if c.toNat < 0x20 then
    ['\\', 'u', '0', '0', hexDigit (c.toNat / 16), hexDigit (c.toNat % 16)]
  else [c]

def quote (text : List Char) : List Char := '"' :: text.flatMap escape ++ ['"']

/-! ### Layout -/

/-- How values are laid out: on one line, or with each item on a line of its own, at a depth. -/
inductive Layout where
  | line
  | indented (depth : Nat)
  deriving Repr, DecidableEq

namespace Layout

/-- The layout of what is inside a value. -/
def inner : Layout → Layout
  | line => line
  | indented depth => indented (depth + 1)

/-- What comes before an item. -/
def lineBreak : Layout → List Char
  | line => []
  | indented depth => '\n' :: List.replicate (2 * depth) ' '

/-- What comes between a key and its value. -/
def colon : Layout → List Char
  | line => [':']
  | indented _ => [':', ' ']

end Layout

/-- Items between brackets, each in a layout of its own. An empty value stays on its line. -/
def enclose (l : Layout) (opening closing : Char) (items : List (List Char)) : List Char :=
  match items with
  | [] => [opening, closing]
  | item :: rest =>
    opening :: l.inner.lineBreak ++ item ++
      rest.flatMap (fun item => ',' :: l.inner.lineBreak ++ item) ++ l.lineBreak ++ [closing]

mutual

/-- A value in a layout. -/
def render (l : Layout) : Json → List Char
  | null => "null".toList
  | bool b => if b then "true".toList else "false".toList
  | natural n => Text.decimal n
  | string text => quote text
  | array items => enclose l '[' ']' (renderItems l.inner items)
  | object members => enclose l '{' '}' (renderMembers l.inner members)

def renderItems (l : Layout) : List Json → List (List Char)
  | [] => []
  | v :: vs => render l v :: renderItems l vs

def renderMembers (l : Layout) : List (List Char × Json) → List (List Char)
  | [] => []
  | (key, v) :: rest => (quote key ++ l.colon ++ render l v) :: renderMembers l rest

end

/-- The value on one line. -/
def compact (v : Json) : List Char := v.render .line

/-- The value indented. -/
def pretty (v : Json) : List Char := v.render (.indented 0)

end Json

end MarkdownPreview
