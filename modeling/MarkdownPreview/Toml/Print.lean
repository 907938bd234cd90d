import MarkdownPreview.Text.Numeral

/-! Writing TOML strings. Of the four forms the plainest that holds the text is taken: escapes come
only where no form does without. -/

namespace MarkdownPreview.Toml

/-- The length of the longest run of one character in a text, `run` of it just before. -/
def longestRunFrom (c : Char) (run : Nat) : List Char → Nat
  | [] => run
  | d :: rest =>
    if d = c then longestRunFrom c (run + 1) rest else max run (longestRunFrom c 0 rest)

def longestRun (c : Char) (text : List Char) : Nat := longestRunFrom c 0 text

/-- The character can only be written as an escape. -/
def needsEscape (c : Char) : Bool :=
  c != '\t' && c != '\n' && (c.toNat < 0x20 || c.toNat == 0x7f)

/-- A form of string: with escapes or literal, on one line or on several. -/
inductive StringForm where
  | basic
  | literal
  | basicLines
  | literalLines
  deriving Repr, DecidableEq

namespace StringForm

/-- The form in which a text is written. -/
def of (text : List Char) : StringForm :=
  let codes := text.any needsEscape
  let backslash := text.contains '\\'
  let lines := text.contains '\n'
  let quotes := longestRun '"' text
  let apostrophes := longestRun '\'' text
  if !codes && !backslash && quotes = 0 && !lines then basic
  else if !codes && apostrophes = 0 && !lines then literal
  else if !codes && !backslash && quotes ≤ 2 then basicLines
  else if !codes && apostrophes ≤ 2 then literalLines
  else if lines then basicLines
  else basic

/-- The quotes at each end. -/
def delimiter : StringForm → List Char
  | basic => ['"']
  | literal => ['\'']
  | basicLines => ['"', '"', '"']
  | literalLines => ['\'', '\'', '\'']

/-- The number of quotes that may follow one another without an escape, where there are escapes. -/
def quotesAllowed? : StringForm → Option Nat
  | basic => some 0
  | basicLines => some 2
  | literal | literalLines => none

/-- The string may hold line endings. -/
def holdsLines : StringForm → Bool
  | basicLines | literalLines => true
  | basic | literal => false

end StringForm

/-- An upper-case hexadecimal digit of a value below 16. -/
def hexDigit (n : Nat) : Char := (Nat.digitChar n).toUpper

/-- A character other than a quote in a string with escapes. -/
def escape (lines : Bool) (c : Char) : List Char :=
  if c = '\\' then ['\\', '\\']
  else if c = '\x08' then ['\\', 'b']
  else if c = '\t' then ['\\', 't']
  else if c = '\n' then if lines then ['\n'] else ['\\', 'n']
  else if c = '\x0c' then ['\\', 'f']
  else if c = '\r' then ['\\', 'r']
  else if c.toNat < 0x20 ∨ c.toNat = 0x7f then
    ['\\', 'u', '0', '0', hexDigit (c.toNat / 16), hexDigit (c.toNat % 16)]
  else [c]

/-- The body of a string with escapes, after `quotes` quotes that are not escaped. What is escaped
begins the count anew. -/
def escapeFrom (lines : Bool) (allowed quotes : Nat) : List Char → List Char
  | [] => []
  | c :: rest =>
    if c = '"' then
      if quotes < allowed then '"' :: escapeFrom lines allowed (quotes + 1) rest
      else '\\' :: '"' :: escapeFrom lines allowed 0 rest
    else escape lines c ++ escapeFrom lines allowed 0 rest

/-- A string. A line ending after its opening is no part of its text, and so one is put before a
text that has any. -/
def quote (text : List Char) : List Char :=
  let form := StringForm.of text
  let body := match form.quotesAllowed? with
    | some allowed => escapeFrom form.holdsLines allowed 0 text
    | none => text
  let start := if form.holdsLines && text.contains '\n' then ['\n'] else []
  form.delimiter ++ start ++ body ++ form.delimiter

end MarkdownPreview.Toml
