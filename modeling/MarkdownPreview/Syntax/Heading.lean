import MarkdownPreview.Text.Blank

/-! Where the syntax of a heading sits in its source. A reader of Markdown says where a heading
starts and ends; its slice is cut here into consecutive pieces, so that the positions of the markers
are the lengths of what stands before them. -/

namespace MarkdownPreview.Syntax

open Text

/-! ### Headings with number signs -/

/-- The pieces of a heading line that starts with number signs. -/
structure AtxHeading where
  indent : List Char
  /-- The run of number signs with the spaces and tabs after it. -/
  marker : List Char
  content : List Char
  /-- The closing run of number signs with the white space before it. -/
  closing : Option (List Char)
  /-- White space at the end of the line, and the line ending. -/
  rest : List Char
  deriving Repr, DecidableEq

/-- The pieces in order. -/
def AtxHeading.text (h : AtxHeading) : List Char :=
  h.indent ++ h.marker ++ h.content ++ h.closing.getD [] ++ h.rest

/-- A closing run counts only at the start of the content or after a space or tab. -/
def closesHeading (before : List Char) : Bool :=
  match before.getLast? with
  | none => true
  | some c => isSpaceOrTab c

/-- Cuts a heading line after one to six number signs that white space or the line's end follows. -/
def atxHeading? (raw : List Char) : Option AtxHeading :=
  let line := withoutLineEnding raw
  let indent := line.takeWhile isSpaceOrTab
  let afterIndent := line.dropWhile isSpaceOrTab
  let signs := afterIndent.takeWhile (· == '#')
  let afterSigns := afterIndent.dropWhile (· == '#')
  let gap := afterSigns.takeWhile isSpaceOrTab
  if signs.length = 0 ∨ 6 < signs.length then none
  else if gap = [] ∧ afterSigns ≠ [] then none
  else
    let body := trimEnd isBlank (afterSigns.dropWhile isSpaceOrTab)
    let before := trimEnd (· == '#') body
    let marker := signs ++ gap
    if before.length < body.length ∧ closesHeading before then
      let content := trimEnd isBlank before
      some ⟨indent, marker, content, some (body.drop content.length),
        raw.drop (indent.length + marker.length + body.length)⟩
    else
      some ⟨indent, marker, body, none, raw.drop (indent.length + marker.length + body.length)⟩

/-! ### Underlined headings -/

/-- The pieces of a heading whose last line is its underline. -/
structure SetextHeading where
  indent : List Char
  content : List Char
  /-- White space and the line ending between the content and the underline's line. -/
  gap : List Char
  /-- Indentation and quote markers before the underline. -/
  lead : List Char
  underline : List Char
  rest : List Char
  deriving Repr, DecidableEq

/-- The pieces in order. -/
def SetextHeading.text (h : SetextHeading) : List Char :=
  h.indent ++ h.content ++ h.gap ++ h.lead ++ h.underline ++ h.rest

/-- Spaces, tabs and quote markers, which may stand before a marker on a continued line. -/
def isLinePrefix (c : Char) : Bool := c == ' ' || c == '\t' || c == '>'

/-- The text after its last line feed; the whole text if it has none. -/
def lastLine (text : List Char) : List Char := (text.reverse.takeWhile (· != '\n')).reverse

/-- Cuts a heading into its content lines and the underline on its last line. -/
def setextHeading? (raw : List Char) : Option SetextHeading :=
  let body := withoutLineEnding raw
  let line := lastLine body
  if line.length = body.length then none
  else
    let before := body.take (body.length - line.length - 1)
    let indent := before.takeWhile isSpaceOrTab
    let content := trimEnd isBlank (before.dropWhile isSpaceOrTab)
    let gap := before.drop (indent.length + content.length) ++ ['\n']
    let lead := line.takeWhile isLinePrefix
    let underline := (trimEnd isBlank line).drop lead.length
    if underline = [] then none
    else
      some ⟨indent, content, gap, lead, underline,
        raw.drop (indent.length + content.length + gap.length + lead.length + underline.length)⟩

end MarkdownPreview.Syntax
