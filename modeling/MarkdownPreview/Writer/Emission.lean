import MarkdownPreview.Decoration.Basic
import MarkdownPreview.Latex.Scan
import MarkdownPreview.Options
import MarkdownPreview.Syntax.BracketMath
import MarkdownPreview.Syntax.Fence
import MarkdownPreview.Syntax.Marker
import MarkdownPreview.Writer.Frame

/-! The decorations that a single event gives. What depends on earlier events, the links and
quotations that are open, is an argument; everything else is read off the event's own slice of the
source. Spans of events and slices count bytes, decorations count characters. -/

namespace MarkdownPreview.Writer

open Text Syntax
open Markdown (Event Tag)

/-- The source over a span of bytes, empty if the span is no slice of it. -/
def raw (source : List Char) (bytes : Span) : List Char := (byteSlice? source bytes).getD []

/-- A decoration over a span of bytes. An empty span gives none. -/
def mark (source : List Char) (bytes : Span) (kind : Decoration.Kind) : List Decoration :=
  if bytes.isEmpty then []
  else [{ start := charOffset source bytes.start, stop := charOffset source bytes.stop, kind }]

/-- Decorations over pieces of text that follow one another from byte `pos` on. A piece without a
kind is passed over. -/
def markPieces (source : List Char) (pos : Nat) :
    List (List Char × List Decoration.Kind) → List Decoration
  | [] => []
  | (piece, kinds) :: rest =>
    let stop := pos + byteLength piece
    kinds.flatMap (mark source ⟨pos, stop⟩) ++ markPieces source stop rest

/-! ### Offsets -/

/-- Why the writer cannot go on: a position that it needs does not exist. -/
inductive WriteError where
  /-- A rule starts past the end of the source. -/
  | ruleOutside (start : Nat)
  /-- The scan for bracket math is sent past the end by an excluded span. -/
  | scanOutside (resume : Nat)
  /-- A delimiter or an indentation is longer than what lies before its end. -/
  | underflow (offset length : Nat)
  /-- The text of a link has to end in an interval whose last offset is before its first. -/
  | invertedClamp (first last : Nat)
  deriving Repr, DecidableEq

/-- The offset `length` bytes before another one. -/
def stepBack (offset length : Nat) : Except WriteError Nat :=
  if length ≤ offset then .ok (offset - length) else .error (.underflow offset length)

/-- The offset from `first` to `last` that is nearest to a given one. -/
def clampOffset (offset first last : Nat) : Except WriteError Nat :=
  if first ≤ last then .ok (min (max offset first) last) else .error (.invertedClamp first last)

/-! ### Delimited text -/

/-- What is left of a span between delimiters of the given lengths. -/
def contentSpan (bytes : Span) (opening closing : Nat) : Except WriteError Span := do
  let stop ← stepBack bytes.stop closing
  .ok ⟨bytes.start + opening, stop⟩

/-- Gives the content of a span a kind and hides the syntax before and after it. -/
def surround (source : List Char) (bytes content : Span) (kind : Decoration.Kind) :
    List Decoration :=
  mark source ⟨bytes.start, content.start⟩ .hide ++ mark source content kind ++
    mark source ⟨content.stop, bytes.stop⟩ .hide

/-- Hides a delimiter at each end of a span and gives the rest a kind. -/
def delimited (source : List Char) (bytes : Span) (opening closing : Nat) (kind : Decoration.Kind) :
    Except WriteError (List Decoration) := do
  let content ← contentSpan bytes opening closing
  .ok (surround source bytes content kind)

/-- Emphasis and its kin: up to `most` delimiter characters at the start and at most as many at the
end. Without a delimiter at the start, or without room for both, the whole span is content. -/
def emphasis (source : List Char) (bytes : Span) (isDelimiter : Char → Bool) (most : Nat)
    (kind : Decoration.Kind) : Except WriteError (List Decoration) :=
  let text := raw source bytes
  let opening := runLength isDelimiter most text
  let closing := runLengthAtEnd isDelimiter opening text
  if opening = 0 ∨ byteLength text < opening + closing then .ok (mark source bytes kind)
  else delimited source bytes opening closing kind

def isEmphasisSign (c : Char) : Bool := c == '*' || c == '_'

def isTilde (c : Char) : Bool := c == '~'

/-! ### Math -/

/-- The Unicode renderings of the LaTeX in a span of bytes. -/
def mathSymbols (source : List Char) (options : Options) (content : Span) : List Decoration :=
  if options.substituteLatex then
    let offset := charOffset source content.start
    (Latex.nonOverlapping (Latex.findSubstitutions (raw source content) offset)).map fun s =>
      ⟨s.start, s.stop, .mathSymbol, some s.display⟩
  else []

/-- The span has room for both delimiters. -/
def holdsDelimiters (bytes : Span) (opening closing : Nat) : Bool :=
  opening + closing ≤ bytes.length

/-- Math between delimiters: both hidden, the content styled, and its LaTeX rendered. -/
def mathBetween (source : List Char) (options : Options) (bytes : Span) (opening closing : Nat)
    (kind : Decoration.Kind) : Except WriteError (List Decoration) :=
  if holdsDelimiters bytes opening closing then do
    let content ← contentSpan bytes opening closing
    .ok (surround source bytes content kind ++ mathSymbols source options content)
  else .ok []

def isDollar (c : Char) : Bool := c == '$'

/-- The lengths of the dollar runs at the two ends of a span, each at most `most`. -/
def dollarRuns (source : List Char) (bytes : Span) (most : Nat) : Nat × Nat :=
  let text := raw source bytes
  (runLength isDollar most text, runLengthAtEnd isDollar most text)

def dollarMath (source : List Char) (options : Options) (bytes : Span) (most : Nat)
    (kind : Decoration.Kind) : Except WriteError (List Decoration) :=
  let (opening, closing) := dollarRuns source bytes most
  mathBetween source options bytes opening closing kind

/-- Math between double dollar signs counts as display math only if it runs over a line end. -/
def displayKind (source : List Char) (bytes : Span) : Decoration.Kind :=
  if (raw source bytes).contains '\n' then .displayMath else .inlineMath

/-! ### Blocks -/

/-- A heading with number signs or an underline; the content takes the common style and that of its
level. -/
def heading (source : List Char) (bytes : Span) (level : Nat) : List Decoration :=
  let text := raw source bytes
  let styles := .heading :: (Decoration.Kind.ofHeadingLevel? level).toList
  if (withoutLineEnding text).contains '\n' then
    match setextHeading? text with
    | none => []
    | some h =>
      let lead := h.indent ++ h.content ++ h.gap ++ h.lead
      markPieces source (bytes.start + byteLength lead) [(h.underline, [.hide])] ++
        markPieces source bytes.start [(h.indent, []), (h.content, styles)]
  else
    match atxHeading? text with
    | none => []
    | some h =>
      markPieces source bytes.start [(h.indent, []), (h.marker, [.hide])] ++
        markPieces source (bytes.start + byteLength (h.indent ++ h.marker ++ h.content))
          [(h.closing.getD [], [.hide])] ++
        markPieces source (bytes.start + byteLength (h.indent ++ h.marker)) [(h.content, styles)]

def listItem (source : List Char) (bytes : Span) : List Decoration :=
  match listMarker? (raw source bytes) with
  | none => []
  | some m => markPieces source bytes.start [(m.indent, []), (m.marker, [.listItem])]

def taskMarker (source : List Char) (bytes : Span) (checked : Bool) : List Decoration :=
  match checkbox? (raw source bytes) with
  | none => []
  | some c =>
    markPieces source bytes.start
      [(c.lead, []), (c.box, [if checked then .checkboxChecked else .checkboxUnchecked])]

def blockquote (source : List Char) (bytes : Span) : List Decoration :=
  (quoteMarkers (raw source bytes)).flatMap fun marker =>
    mark source (marker.shift bytes.start) .blockquote

def fencedBlock (source : List Char) (bytes : Span) : List Decoration :=
  match fencedCode? (raw source bytes) with
  | none => mark source bytes .codeBlock
  | some f =>
    markPieces source bytes.start
      [(f.lead, []), (f.fence, [.hide]), (f.gap, []),
        (f.language.getD [], [.codeBlockLanguage]), (f.openRest, [.hide]), (f.body, [.codeBlock]),
        (f.closeLead, []), (f.close.getD [], [.hide])]

def indentedBlock (source : List Char) (bytes : Span) : List Decoration :=
  markPieces source bytes.start [(withoutLineEnding (raw source bytes), [.codeBlock])]

/-! ### Code spans and rules -/

def isBacktick (c : Char) : Bool := c == '`'

/-- Inline code: the span as a whole is code, and the backticks at its ends are transparent. -/
def codeSpan (source : List Char) (bytes : Span) : Except WriteError (List Decoration) :=
  let text := raw source bytes
  let opening := (text.takeWhile isBacktick).length
  let closing := runLengthAtEnd isBacktick opening text
  if opening = 0 ∨ byteLength text < opening + closing then .ok (mark source bytes .code)
  else do
    let content ← contentSpan bytes opening closing
    .ok (mark source bytes .code ++ mark source ⟨bytes.start, content.start⟩ .transparent ++
      mark source ⟨content.stop, bytes.stop⟩ .transparent)

/-- The number of spaces between the start of a line and the text's end, none if the line holds
anything else. -/
def trailingIndent (before : List Char) : Nat :=
  match before.reverse.dropWhile (· == ' ') with
  | [] => before.length
  | c :: _ => if c = '\n' then (before.reverse.takeWhile (· == ' ')).length else 0

/-- The number of spaces that indent what stands at byte `pos`, none inside a character. -/
def indentBefore (source : List Char) (pos : Nat) : Nat :=
  ((takeBytes? source pos).map trailingIndent).getD 0

/-- A thematic break with its indentation, and without the line ending. -/
def rule (source : List Char) (bytes : Span) : Except WriteError (List Decoration) :=
  if byteLength source < bytes.start then .error (.ruleOutside bytes.start)
  else do
    let start ← stepBack bytes.start (indentBefore source bytes.start)
    let stop := bytes.start + byteLength (withoutLineEnding (raw source bytes))
    .ok (mark source ⟨start, stop⟩ .horizontalRule)

/-! ### Links -/

/-- The decorations of a link or image whose inner events have all been seen. In angle brackets, the
brackets are hidden; otherwise the opener and everything after the text. -/
def finishLink (source : List Char) (f : LinkFrame) : Except WriteError (List Decoration) :=
  let text := raw source f.span
  let kind : Decoration.Kind := if f.isImage then .image else .link
  if 2 ≤ byteLength text ∧ text.head? = some '<' ∧ text.getLast? = some '>' then
    delimited source f.span 1 1 kind
  else
    let opener := LinkFrame.opener f.isImage
    if opener.isPrefixOf text then do
      let textStart := f.span.start + opener.length
      let textStop ← clampOffset f.contentStop textStart f.span.stop
      .ok (surround source f.span ⟨textStart, textStop⟩ kind)
    else .ok (mark source f.span kind)

/-! ### Events -/

/-- The decorations that one event gives. -/
def emit (source : List Char) (options : Options) (w : Walk) (e : Event) :
    Except WriteError (List Decoration) :=
  match e.kind with
  | .start .emphasis => emphasis source e.span isEmphasisSign 1 .italic
  | .start .strong => emphasis source e.span isEmphasisSign 2 .bold
  | .start .strikethrough => emphasis source e.span isTilde 2 .strikethrough
  | .start (.heading level) => .ok (heading source e.span level)
  | .start .item => .ok (listItem source e.span)
  | .start .blockquote => .ok (if w.quotes.enter.1 then blockquote source e.span else [])
  | .start .fencedCode => .ok (fencedBlock source e.span)
  | .start .indentedCode => .ok (indentedBlock source e.span)
  | .stop .link | .stop .image => (w.links.head?.map (finishLink source)).getD (.ok [])
  | .code => codeSpan source e.span
  | .inlineMath => dollarMath source options e.span 1 .inlineMath
  | .displayMath => dollarMath source options e.span 2 (displayKind source e.span)
  | .rule => rule source e.span
  | .taskMarker checked => .ok (taskMarker source e.span checked)
  | _ => .ok []

/-- The span in which an event rules out bracket math: that of code, and of math that has room for
its delimiters. -/
def excludedBy (source : List Char) (e : Event) : Option Span :=
  match e.kind with
  | .code | .start .fencedCode | .start .indentedCode => some e.span
  | .inlineMath =>
    let (opening, closing) := dollarRuns source e.span 1
    if holdsDelimiters e.span opening closing then some e.span else none
  | .displayMath =>
    let (opening, closing) := dollarRuns source e.span 2
    if holdsDelimiters e.span opening closing then some e.span else none
  | _ => none

end MarkdownPreview.Writer
