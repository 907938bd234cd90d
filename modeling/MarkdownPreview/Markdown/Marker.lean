import MarkdownPreview.Markdown.Container

/-! The markers by which a block is known at the start of its first line. Each function reads the
head of a text that starts at the marker, indentation already passed over. -/

namespace MarkdownPreview.Markdown

/-! ### Thematic breaks and headings -/

/-- The length of a thematic break's line from character `n` of it on, where `seen` of its signs
have been found. -/
def thematicBreakFrom? (sign : Char) (seen n : Nat) : List Char → Option Nat
  | [] => if 3 ≤ seen then some n else none
  | c :: rest =>
    if c = '\n' then if 3 ≤ seen then some (n + 1) else none
    else if c = '\r' then
      if 3 ≤ seen then some (n + if rest.head? = some '\n' then 2 else 1) else none
    else if c = sign then thematicBreakFrom? sign (seen + 1) (n + 1) rest
    else if c = ' ' ∨ c = '\t' then thematicBreakFrom? sign seen (n + 1) rest
    else none

/-- The length of a thematic break with its line ending: three or more of one sign out of `*`, `-`
and `_`, with spaces and tabs among them. -/
def thematicBreak? (text : List Char) : Option Nat :=
  match text with
  | c :: _ => if c = '*' ∨ c = '-' ∨ c = '_' then thematicBreakFrom? c 0 0 text else none
  | [] => none

/-- The level of a heading that starts with one to six number signs and white space. -/
def atxLevel? (text : List Char) : Option Nat :=
  let level := countRun '#' text
  if level = 0 ∨ 6 < level then none
  else
    match text.drop level with
    | [] => some level
    | c :: _ => if isWhite c then some level else none

/-- The level of the heading that a line underlines, with the length of the line. -/
def underline? (text : List Char) : Option (Nat × Nat) :=
  match text with
  | c :: _ =>
    if c = '=' ∨ c = '-' then
      let n := countRun c text
      (blankLine? (text.drop n)).map fun m => (if c = '=' then 1 else 2, n + m)
    else none
  | [] => none

/-! ### Code fences -/

/-- An opening fence: its character and its length. -/
structure Fence where
  char : Char
  length : Nat
  deriving Repr, DecidableEq

/-- Three or more backticks, with none after them up to the next line feed, or three or more
tildes. -/
def fence? (text : List Char) : Option Fence :=
  match text with
  | c :: _ =>
    let n := countRun c text
    if (c = '`' ∨ c = '~') ∧ 3 ≤ n then
      let info := (text.drop n).take (lineLength (text.drop n))
      if c = '`' ∧ info.contains '`' then none else some ⟨c, n⟩
    else none
  | [] => none

/-- The length of a closing fence with the spaces after it. The end of the text closes too. -/
def closingFence? (f : Fence) (text : List Char) : Option Nat :=
  match text with
  | [] => some 0
  | _ =>
    let n := countRun f.char text
    if n < f.length then none
    else
      let spaces := countRun ' ' (text.drop n)
      (lineEnd? (text.drop (n + spaces))).map fun _ => n + spaces

/-! ### Lists -/

/-- The marker of a list item. -/
structure ItemMarker where
  /-- The bullet, or what follows the number. -/
  delimiter : Char
  /-- The columns by which the item's content is indented. -/
  columns : Nat
  deriving Repr, DecidableEq

/-- The content of an item begins after up to four columns of space beyond the first, unless the
rest of the line is blank or looks like indented code. -/
def itemMarkerEnd (delimiter : Char) (columns : Nat) (c : Cursor) : ItemMarker × Cursor :=
  if (blankLine? c.rest).isSome then (⟨delimiter, columns⟩, c)
  else
    let (n, inner) := c.skipUpTo 4
    if n < 4 then (⟨delimiter, columns + n⟩, inner) else (⟨delimiter, columns⟩, c)

/-- Moves over the white space that must follow an item's marker. -/
def afterItemMarker? (delimiter : Char) (columns : Nat) (c : Cursor) :
    Option (ItemMarker × Cursor) :=
  let (spaced, inner) := c.skip 1
  if spaced || inner.atLineEnd then some (itemMarkerEnd delimiter columns inner) else none

/-- Moves over the marker of a list item that is itself indented by `indent` columns. A line that is
a thematic break is no item. -/
def Cursor.itemMarker? (c : Cursor) (indent : Nat) : Option (ItemMarker × Cursor) :=
  match c.rest with
  | [] => none
  | ch :: _ =>
    if ch = '-' ∨ ch = '+' ∨ ch = '*' then
      if (thematicBreak? c.rest).isSome then none
      else afterItemMarker? ch (indent + 2) (c.advance 1)
    else
      let digits := (c.rest.takeWhile isAsciiDigit).length
      if digits = 0 ∨ 9 < digits then none
      else
        match c.rest.drop digits with
        | d :: _ =>
          if d = ')' ∨ d = '.' then
            afterItemMarker? d (indent + digits + 2) (c.advance (digits + 1))
          else none
        | [] => none

/-- Moves over the box of a task item; the answer is whether it is checked. White space must
follow. -/
def Cursor.taskBox? (c : Cursor) : Option (Bool × Cursor) :=
  let c := (c.skipUpTo 3).2
  match c.rest with
  | '[' :: mark :: ']' :: after :: _ =>
    if !isWhite after then none
    else if isInlineWhite mark then some (false, c.advance 3)
    else if mark = 'x' ∨ mark = 'X' then some (true, c.advance 3)
    else none
  | _ => none

/-- The text starts with the marker of a list item that may interrupt a paragraph: not an empty
item, and not a number other than one. With `any`, every list item may. -/
def interruptingItem (any : Bool) (text : List Char) : Bool :=
  let (width, one) := match text with
    | c :: _ =>
      if c = '-' ∨ c = '+' ∨ c = '*' then (1, true)
      else
        let digits := text.takeWhile isAsciiDigit
        match text.drop digits.length with
        | d :: _ =>
          if digits.length = 0 ∨ 9 < digits.length then (0, false)
          else if d = ')' ∨ d = '.' then
            (digits.length + 1, (digits.dropWhile (· == '0')) = ['1'])
          else (0, false)
        | [] => (0, false)
    | [] => (0, false)
  let rest := text.drop width
  if width = 0 then false
  else
    match rest with
    | [] => any
    | c :: _ =>
      if c = ' ' ∨ c = '\t' ∨ c = '\n' ∨ c = '\r' then any || (one && (blankLine? rest).isNone)
      else false

/-! ### Table delimiter rows -/

/-- A delimiter row while it is read. -/
structure DelimiterRow where
  columns : Nat := 0
  /-- Nothing of the current column has been seen. -/
  fresh : Bool := true
  pipe : Bool := false
  hyphen : Bool := false
  hyphenHere : Bool := false

/-- Reads a delimiter row on from character `n` of it: the number of columns, and the row's length
with its line ending. It holds spaces, colons, hyphens and pipes only, a hyphen in every column that
a pipe ends, and at least one pipe. -/
def delimiterRowFrom? (n : Nat) (r : DelimiterRow) : List Char → Option (Nat × Nat)
  | [] => finish n
  | c :: rest =>
    if c = '\n' then finish (n + 1)
    else if c = '\r' then finish (n + if rest.head? = some '\n' then 2 else 1)
    else if c = ' ' then delimiterRowFrom? (n + 1) r rest
    else if c = ':' then delimiterRowFrom? (n + 1) { r with fresh := false } rest
    else if c = '-' then
      delimiterRowFrom? (n + 1) { r with fresh := false, hyphen := true, hyphenHere := true } rest
    else if c = '|' then
      if r.hyphenHere then
        delimiterRowFrom? (n + 1)
          { r with columns := r.columns + 1, fresh := true, pipe := true, hyphenHere := false } rest
      else none
    else none
where
  finish (n : Nat) : Option (Nat × Nat) :=
    if r.pipe && r.hyphen then some (if r.fresh then r.columns else r.columns + 1, n) else none

/-- Reads the delimiter row at the head of a text, indented by three columns at most: the number of
columns of the table, and the length of the row. -/
def delimiterRow? (text : List Char) : Option (Nat × Nat) :=
  let (indent, c) := (Cursor.ofLine 0 text).skipUpTo 4
  if 3 < indent then none
  else
    match c.rest with
    | [] => none
    | '|' :: rest => delimiterRowFrom? (c.pos + 1) { pipe := true } rest
    | rest => delimiterRowFrom? c.pos {} rest

/-- The number of cells of a table's header line, given the number of its unescaped pipes and what
follows the last of them. Pipes at the two ends of the line do not separate cells. -/
def headerCells (line : List Char) (pipes : Nat) (afterLastPipe : List Char) : Nat :=
  let pipes := if (line.dropWhile isInlineWhite).head? = some '|' then pipes - 1 else pipes
  if (blankLine? afterLastPipe).isSome then pipes else pipes + 1

end MarkdownPreview.Markdown
