import MarkdownPreview.Markdown.Cursor
import MarkdownPreview.Markdown.Event

/-! Containers hold blocks and continue from line to line as long as the line's start matches them:
a quotation by its marker, a list item and a footnote by their indentation. -/

namespace MarkdownPreview.Markdown

/-- What a line must start with to stay inside a container. -/
inductive Container where
  | blockquote
  /-- Indentation by a number of columns, or an empty line. -/
  | indented (columns : Nat)
  /-- A list goes on by itself; its items do not. -/
  | list
  deriving Repr, DecidableEq, Inhabited

/-- Moves over a quote marker with one column of space after it. -/
def Cursor.quoteMarker? (c : Cursor) : Option Cursor := (c.char? '>').map fun c => (c.skip 1).2

/-- Moves over the start of a line inside a container. -/
def Container.continue? (k : Container) (c : Cursor) : Option Cursor :=
  match k with
  | .blockquote => (c.skipUpTo 3).2.quoteMarker?
  | .indented columns =>
    let (full, inner) := c.skip columns
    if full || inner.atLineEnd then some inner else none
  | .list => some c

/-- Moves over the starts of as many containers as go on, outermost first, with their number. -/
def continueAll : List Container → Cursor → Nat × Cursor
  | [], c => (0, c)
  | k :: ks, c =>
    match k.continue? c with
    | none => (0, c)
    | some inner =>
      let (n, inner) := continueAll ks inner
      (n + 1, inner)

/-- Where a block stands: the containers around it, outermost first, and the dialect. -/
structure Place where
  dialect : Dialect
  containers : List Container
  inTable : Bool := false

namespace Place

/-- Moves over the start of a line; the answer is whether the line is inside all the containers. -/
def continues (p : Place) (c : Cursor) : Bool × Cursor :=
  let (n, c) := continueAll p.containers c
  (n == p.containers.length, c)

/-- The length of the container starts at the head of a line, as far as they match. -/
def prefixLength (p : Place) (line : List Char) : Nat := (p.continues (.ofLine 0 line)).2.pos

end Place

end MarkdownPreview.Markdown
