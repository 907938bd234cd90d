import MarkdownPreview.Text.Offset
import MarkdownPreview.Text.Blank

/-! Display math between `\[` and `\]`. Markdown reads `\[` as an escaped bracket, so these spans
are found in the source itself, outside a set of excluded spans: code and the math between dollar
signs. All spans here count bytes. -/

namespace MarkdownPreview.Syntax

open Text

/-! ### Excluded spans -/

/-- Spans in which no bracket math is looked for. -/
abbrev ExcludedSpans := List Span

namespace ExcludedSpans

/-- Adds a span unless it is empty. -/
def add (spans : ExcludedSpans) (s : Span) : ExcludedSpans :=
  if s.isEmpty then spans else spans ++ [s]

/-- Some excluded span overlaps `s`. -/
def overlap (spans : ExcludedSpans) (s : Span) : Bool := spans.any (·.overlaps s)

/-- The furthest end among the excluded spans that hold a position. -/
def endAt? (spans : ExcludedSpans) (pos : Nat) : Option Nat :=
  ((spans.filter (·.contains pos)).map (·.stop)).max?

end ExcludedSpans

/-! ### Bodies -/

/-- The text up to the first closing delimiter. -/
def untilClose? : List Char → Option (List Char)
  | [] => none
  | '\\' :: ']' :: _ => some []
  | c :: rest => (untilClose? rest).map (c :: ·)

/-- The body of a bracket math span whose opening delimiter stands just before the text: at least
one character, up to the first closing delimiter after that. -/
def mathBody? : List Char → Option (List Char)
  | [] => none
  | c :: rest => (untilClose? rest).map (c :: ·)

/-- The parts of a text between line feeds. -/
def segments : List Char → List (List Char)
  | [] => [[]]
  | c :: rest =>
    match segments rest with
    | [] => [[c]]
    | line :: lines => if c = '\n' then [] :: line :: lines else (c :: line) :: lines

/-- A line of the body other than its first and its last is blank. A blank line ends a paragraph, so
such a body is no math. -/
def spansBlankLine (body : List Char) : Bool := ((segments body).drop 1).dropLast.any isBlankText

/-! ### The scan -/

/-- What the scan makes of an opening delimiter at byte `pos`, whose span would have the given body:
the byte at which to go on, and the span if it is one. -/
def judgeOpener (excluded : ExcludedSpans) (pos : Nat) (body : List Char) : Nat × Option Span :=
  let span : Span := ⟨pos, pos + 4 + byteLength body⟩
  match excluded.endAt? pos with
  | some stop => (max stop (pos + 2), none)
  | none =>
    if excluded.overlap span || spansBlankLine body then (pos + 2, none)
    else (span.stop, some span)

/-- The scan would go on from a byte outside the text, which it cannot. -/
structure ScanOverrun where
  resume : Nat
  deriving Repr, DecidableEq

/-- The bracket math in the text that starts at byte `pos` of a source of `length` bytes, leaving
out openers before byte `resume`. The scan cannot start more than one byte past the end. -/
def bracketMathFrom (excluded : ExcludedSpans) (length pos resume : Nat) :
    List Char → Except ScanOverrun (List Span)
  | '\\' :: '[' :: rest =>
    if pos < resume then bracketMathFrom excluded length (pos + 1) resume ('[' :: rest)
    else
      match mathBody? rest with
      | none => .ok []
      | some body =>
        let (resume, found) := judgeOpener excluded pos body
        if length + 1 < resume then .error ⟨resume⟩
        else
          (bracketMathFrom excluded length (pos + 1) resume ('[' :: rest)).map (found.toList ++ ·)
  | c :: rest => bracketMathFrom excluded length (pos + c.utf8Size) resume rest
  | [] => .ok []

/-- The bracket math of a source: going over the opening delimiters from left to right, one outside
the spans found so far opens a span unless an excluded span holds it or overlaps its span, or its
body spans a blank line. -/
def bracketMath (source : List Char) (excluded : ExcludedSpans) : Except ScanOverrun (List Span) :=
  bracketMathFrom excluded (byteLength source) 0 0 source

end MarkdownPreview.Syntax
