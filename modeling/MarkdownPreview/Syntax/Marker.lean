import MarkdownPreview.Text.Offset
import MarkdownPreview.Text.Blank

/-! Where the markers of list items, task items and quoted lines sit in the source of their
constructs. -/

namespace MarkdownPreview.Syntax

open Text

/-! ### List items -/

/-- Indentation, and the marker of a list item with one space or tab after it if there is one. -/
structure ListMarker where
  indent : List Char
  marker : List Char
  deriving Repr, DecidableEq

def isDigit (c : Char) : Bool := '0' ≤ c && c ≤ '9'

def isBullet (c : Char) : Bool := c == '-' || c == '*' || c == '+'

/-- The bullet, or one to nine digits with a period or a parenthesis, at the head of a text. -/
def bulletOrNumber? (text : List Char) : Option (List Char) :=
  match text with
  | [] => none
  | c :: _ =>
    if isBullet c then some [c]
    else
      let digits := text.takeWhile isDigit
      if digits.length = 0 ∨ 9 < digits.length then none
      else
        match text.dropWhile isDigit with
        | d :: _ => if d = '.' ∨ d = ')' then some (digits ++ [d]) else none
        | [] => none

/-- The marker at the start of a list item. -/
def listMarker? (raw : List Char) : Option ListMarker :=
  let indent := raw.takeWhile isSpaceOrTab
  let text := raw.dropWhile isSpaceOrTab
  (bulletOrNumber? text).map fun marker =>
    let space := match text.drop marker.length with
      | c :: _ => if isSpaceOrTab c then [c] else []
      | [] => []
    ⟨indent, marker ++ space⟩

/-- What stands before the box of a task item, and the box with its brackets. -/
structure Checkbox where
  lead : List Char
  box : List Char
  deriving Repr, DecidableEq

/-- The first bracketed text. -/
def checkbox? (raw : List Char) : Option Checkbox :=
  let lead := raw.takeWhile (· != '[')
  let text := raw.dropWhile (· != '[')
  if text.contains ']' then some ⟨lead, text.takeWhile (· != ']') ++ [']']⟩ else none

/-! ### Quoted lines -/

/-- The longest run of quote markers at the head of a line, each with one space or tab after it if
there is one. -/
def quoteRun : List Char → List Char
  | '>' :: c :: rest =>
    if isSpaceOrTab c then '>' :: c :: quoteRun rest else '>' :: quoteRun (c :: rest)
  | '>' :: [] => ['>']
  | _ => []

/-- The lines of a text, each with the line feed that ends it. -/
def linesOf : List Char → List (List Char)
  | [] => []
  | c :: rest =>
    if c = '\n' then [c] :: linesOf rest
    else
      match linesOf rest with
      | [] => [[c]]
      | line :: lines => (c :: line) :: lines

theorem flatten_linesOf (text : List Char) : (linesOf text).flatten = text := by
  induction text with
  | nil => rfl
  | cons c rest ih =>
    simp only [linesOf]
    split
    · simp [ih]
    · split <;> simp_all

/-- The bytes of a line's quote markers, in a text where the line starts at byte `pos`. -/
def quoteMarker? (pos : Nat) (line : List Char) : Option Span :=
  let run := quoteRun (line.dropWhile isSpaceOrTab)
  if run = [] then none
  else
    let start := pos + byteLength (line.takeWhile isSpaceOrTab)
    some ⟨start, start + byteLength run⟩

/-- The quote markers of lines that follow one another from byte `pos` on. -/
def quoteMarkersFrom (pos : Nat) : List (List Char) → List Span
  | [] => []
  | line :: lines =>
    (quoteMarker? pos line).toList ++ quoteMarkersFrom (pos + byteLength line) lines

/-- The run of quote markers at the start of every quoted line, by byte offset, nested markers
included. A line that continues a quotation without a marker has none. -/
def quoteMarkers (raw : List Char) : List Span := quoteMarkersFrom 0 (linesOf raw)

/-! ### Delimiter runs -/

/-- The number of characters of a class at the head of a text, counted up to `most`. -/
def runLength (p : Char → Bool) (most : Nat) (text : List Char) : Nat :=
  min most (text.takeWhile p).length

/-- The number of characters of a class at the end of a text, counted up to `most`. -/
def runLengthAtEnd (p : Char → Bool) (most : Nat) (text : List Char) : Nat :=
  runLength p most text.reverse

end MarkdownPreview.Syntax
