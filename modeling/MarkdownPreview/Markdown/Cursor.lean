import MarkdownPreview.Text.Span

/-! Reading a line from its start. Indentation counts in columns, and a tab reaches to the next
multiple of four; a cursor may therefore stand inside a tab, with columns of it left over. -/

namespace MarkdownPreview.Markdown

/-! ### Characters -/

/-- White space of the ASCII range that does not end a line. -/
def isInlineWhite (c : Char) : Bool := c == ' ' || c == '\t' || c == '\x0b' || c == '\x0c'

/-- White space of the ASCII range. -/
def isWhite (c : Char) : Bool := isInlineWhite c || c == '\n' || c == '\r'

def isAsciiLetter (c : Char) : Bool := ('a' ≤ c && c ≤ 'z') || ('A' ≤ c && c ≤ 'Z')

def isAsciiDigit (c : Char) : Bool := '0' ≤ c && c ≤ '9'

def isAsciiAlphanumeric (c : Char) : Bool := isAsciiLetter c || isAsciiDigit c

/-- The length of the run of one character at the head of a text. -/
def countRun (c : Char) (text : List Char) : Nat := (text.takeWhile (· == c)).length

/-! ### Line ends -/

/-- The length of the line ending at the head of a text. The end of the text ends a line too. -/
def lineEnd? : List Char → Option Nat
  | [] => some 0
  | '\n' :: _ => some 1
  | '\r' :: '\n' :: _ => some 2
  | '\r' :: _ => some 1
  | _ => none

/-- The length of what is left of a blank line, with its line ending. -/
def blankLine? (text : List Char) : Option Nat :=
  let n := (text.takeWhile isInlineWhite).length
  (lineEnd? (text.drop n)).map (n + ·)

/-- The length of the text up to and including its first line feed. -/
def lineLength : List Char → Nat
  | [] => 0
  | c :: rest => if c = '\n' then 1 else 1 + lineLength rest

/-! ### The cursor -/

/-- A place in the text. -/
structure Cursor where
  /-- The characters before the place. -/
  pos : Nat
  rest : List Char
  /-- The position from which columns are counted: the start of the line or the end of a tab. -/
  origin : Nat
  /-- Columns of the last tab that are not used up. -/
  spaces : Nat

namespace Cursor

/-- The start of a line. -/
def ofLine (pos : Nat) (rest : List Char) : Cursor := ⟨pos, rest, pos, 0⟩

/-- Moves over `n` characters. -/
def advance (c : Cursor) (n : Nat) : Cursor := { c with pos := c.pos + n, rest := c.rest.drop n }

/-- Moves over up to `n` columns of spaces and tabs, with the number of columns that were not
there. -/
def skipFrom (pos origin spaces : Nat) : List Char → Nat → Nat × Cursor
  | rest, 0 => (0, ⟨pos, rest, origin, spaces⟩)
  | ' ' :: rest, n + 1 => skipFrom (pos + 1) origin spaces rest n
  | '\t' :: rest, n + 1 =>
    let width := 4 - (pos - origin) % 4
    skipFrom (pos + 1) (pos + 1) (width - (n + 1)) rest (n + 1 - width)
  | rest, n + 1 => (n + 1, ⟨pos, rest, origin, spaces⟩)

/-- Moves over up to `n` columns, those left over from a tab first, with the number found. -/
def skipUpTo (c : Cursor) (n : Nat) : Nat × Cursor :=
  let used := min c.spaces n
  let (missing, c) := skipFrom c.pos c.origin (c.spaces - used) c.rest (n - used)
  (n - missing, c)

/-- Moves over `n` columns, or as many as there are; the answer is whether there were as many. -/
def skip (c : Cursor) (n : Nat) : Bool × Cursor :=
  let (found, c) := c.skipUpTo n
  (found == n, c)

/-- Moves over all spaces and tabs. -/
def skipAll (c : Cursor) : Cursor :=
  let n := (c.rest.takeWhile fun ch => ch == ' ' || ch == '\t').length
  { c.advance n with spaces := 0 }

/-- The line ends here. -/
def atLineEnd (c : Cursor) : Bool :=
  match c.rest with
  | [] => true
  | ch :: _ => ch == '\n' || ch == '\r'

/-- Moves over a given character. -/
def char? (c : Cursor) (ch : Char) : Option Cursor :=
  match c.rest with
  | d :: _ => if d = ch then some (c.advance 1) else none
  | [] => none

end Cursor

end MarkdownPreview.Markdown
