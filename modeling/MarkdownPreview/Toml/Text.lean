import MarkdownPreview.Json.Read

/-! The characters of a TOML text: white space, comments, keys and strings. -/

namespace MarkdownPreview.Toml

/-! ### White space and comments -/

def isSpace (c : Char) : Bool := c == ' ' || c == '\t'

def skipSpace (text : List Char) : List Char := text.dropWhile isSpace

/-- Moves over a line ending. A lone carriage return is none. -/
def newLine? : List Char → Option (List Char)
  | '\n' :: rest => some rest
  | '\r' :: '\n' :: rest => some rest
  | _ => none

/-- The character may stand in a comment, and in strings as far as it does not end them. -/
def isPlain (c : Char) : Bool := c == '\t' || (0x20 ≤ c.toNat && c.toNat != 0x7f)

/-- Passes over a comment, if one begins here. -/
def skipComment : List Char → List Char
  | '#' :: rest => rest.dropWhile isPlain
  | text => text

/-- Moves over the end of a line, which may hold a comment. -/
def lineEnd? (text : List Char) : Option (List Char) :=
  match skipComment (skipSpace text) with
  | [] => some []
  | rest => newLine? rest

/-- Passes over white space, line endings and comments. -/
def skipBlank : Nat → List Char → List Char
  | 0, text => text
  | fuel + 1, text =>
    match skipSpace text with
    | '#' :: rest => skipBlank fuel (rest.dropWhile isPlain)
    | text =>
      match newLine? text with
      | some rest => skipBlank fuel rest
      | none => text

/-! ### Strings -/

/-- The value of `n` hexadecimal digits after others of value `acc`. -/
def hexNumber? : Nat → Nat → List Char → Option (Nat × List Char)
  | 0, acc, text => some (acc, text)
  | n + 1, acc, c :: rest => (Json.hexValue? c).bind fun d => hexNumber? n (16 * acc + d) rest
  | _ + 1, _, [] => none

/-- The character that an escape stands for, after its backslash. -/
def escape? (text : List Char) : Option (Char × List Char) :=
  match text with
  | [] => none
  | c :: rest =>
    if c = '"' ∨ c = '\\' then some (c, rest)
    else if c = 'b' then some ('\x08', rest)
    else if c = 'f' then some ('\x0c', rest)
    else if c = 'n' then some ('\n', rest)
    else if c = 'r' then some ('\r', rest)
    else if c = 't' then some ('\t', rest)
    else if c = 'u' ∨ c = 'U' then
      (hexNumber? (if c = 'u' then 4 else 8) 0 rest).bind fun (n, rest) =>
        if n.isValidChar then some (Char.ofNat n, rest) else none
    else none

/-- Reads a string on one line after its opening quote. -/
def basicBody? : Nat → List Char → Option (List Char × List Char)
  | 0, _ => none
  | fuel + 1, text =>
    match text with
    | [] => none
    | c :: rest =>
      if c = '"' then some ([], rest)
      else if c = '\\' then
        (escape? rest).bind fun (d, rest) => Json.prepend d (basicBody? fuel rest)
      else if isPlain c then Json.prepend c (basicBody? fuel rest)
      else none

/-- Reads a literal string on one line after its opening quote. -/
def literalBody? : List Char → Option (List Char × List Char)
  | [] => none
  | c :: rest =>
    if c = '\'' then some ([], rest)
    else if isPlain c then Json.prepend c (literalBody? rest)
    else none

/-- The number of quotes at the head of a text. -/
def quoteRun (quote : Char) (text : List Char) : Nat := (text.takeWhile (· == quote)).length

/-- A run of three to five quotes ends a string of several lines; those beyond three are text. -/
def closing? (quote : Char) (text : List Char) : Option (Option (List Char × List Char)) :=
  let n := quoteRun quote text
  if n < 3 then none
  else if n ≤ 5 then some (some (List.replicate (n - 3) quote, text.drop n))
  else some none

/-- Passes over white space and line endings. -/
def skipLines : Nat → List Char → List Char
  | 0, text => text
  | fuel + 1, text =>
    let text := skipSpace text
    match newLine? text with
    | some rest => skipLines fuel rest
    | none => text

/-- Reads a string of several lines on after its opening. A line ending is a line feed, and after a
backslash it is nothing, together with all white space that follows. -/
def basicLines? : Nat → List Char → Option (List Char × List Char)
  | 0, _ => none
  | fuel + 1, text =>
    match closing? '"' text with
    | some r => r
    | none =>
      match newLine? text with
      | some rest => Json.prepend '\n' (basicLines? fuel rest)
      | none =>
        match text with
        | [] => none
        | c :: rest =>
          if c = '\\' then
            match newLine? (skipSpace rest) with
            | some rest => basicLines? fuel (skipLines (rest.length + 1) rest)
            | none => (escape? rest).bind fun (d, rest) => Json.prepend d (basicLines? fuel rest)
          else if isPlain c then Json.prepend c (basicLines? fuel rest)
          else none

/-- Reads a literal string of several lines on after its opening. -/
def literalLines? : Nat → List Char → Option (List Char × List Char)
  | 0, _ => none
  | fuel + 1, text =>
    match closing? '\'' text with
    | some r => r
    | none =>
      match newLine? text with
      | some rest => Json.prepend '\n' (literalLines? fuel rest)
      | none =>
        match text with
        | [] => none
        | c :: rest => if isPlain c then Json.prepend c (literalLines? fuel rest) else none

/-- Passes over a line ending right after the opening of a string of several lines. -/
def skipFirstLineEnd (text : List Char) : List Char := (newLine? text).getD text

/-- Reads a string of any of the four forms. -/
def string? : Json.Reader (List Char)
  | '"' :: '"' :: '"' :: rest => basicLines? (rest.length + 1) (skipFirstLineEnd rest)
  | '"' :: rest => basicBody? (rest.length + 1) rest
  | '\'' :: '\'' :: '\'' :: rest => literalLines? (rest.length + 1) (skipFirstLineEnd rest)
  | '\'' :: rest => literalBody? rest
  | _ => none

/-! ### Keys -/

def isBareKey (c : Char) : Bool :=
  ('a' ≤ c && c ≤ 'z') || ('A' ≤ c && c ≤ 'Z') || ('0' ≤ c && c ≤ '9') || c == '-' || c == '_'

/-- Reads a part of a key: bare, or as a string on one line. -/
def keyPart? (text : List Char) : Option (List Char × List Char) :=
  match text with
  | '"' :: rest => basicBody? (rest.length + 1) rest
  | '\'' :: rest => literalBody? rest
  | c :: _ =>
    if isBareKey c then some (text.takeWhile isBareKey, text.dropWhile isBareKey) else none
  | [] => none

/-- Reads the parts of a key, with white space around each. -/
def keyParts? : Nat → List Char → Option (List (List Char) × List Char)
  | 0, _ => none
  | fuel + 1, text => do
    let (part, rest) ← keyPart? (skipSpace text)
    match skipSpace rest with
    | '.' :: rest =>
      let (parts, rest) ← keyParts? fuel rest
      some (part :: parts, rest)
    | rest => some ([part], rest)

/-- The number that neither the parts of a key nor the levels of a value may reach. -/
def depthLimit : Nat := 80

/-- Reads a key, as the parts before the last one and the last one. -/
def key? (text : List Char) : Option ((List (List Char) × List Char) × List Char) := do
  let (parts, rest) ← keyParts? (text.length + 1) text
  if depthLimit ≤ parts.length then none
  else some ((parts.dropLast, ← parts.getLast?), rest)

end MarkdownPreview.Toml
