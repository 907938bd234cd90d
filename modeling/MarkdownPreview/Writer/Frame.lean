import MarkdownPreview.Markdown.Event

/-! What the writer keeps while it goes over the events: the links and images that are open, and how
deep in quotations it is. -/

namespace MarkdownPreview.Writer

open Text (Span)
open Markdown (Event Tag)

/-- An open link or image. Its span is known from the start; where its text ends, and the address
begins, is learned from the events inside it. All positions are byte offsets. -/
structure LinkFrame where
  span : Span
  isImage : Bool
  /-- The furthest byte that an event inside has reached. -/
  contentStop : Nat
  deriving Repr, DecidableEq

namespace LinkFrame

/-- The opening delimiter: `![` for an image and `[` for a link. -/
def opener (isImage : Bool) : List Char := if isImage then ['!', '['] else ['[']

/-- A frame whose text has not begun. -/
def ofSpan (span : Span) (isImage : Bool) : LinkFrame :=
  ⟨span, isImage, min (span.start + (opener isImage).length) span.stop⟩

/-- Takes an inner event into account. One that reaches past the link is none of its own. -/
def observe (f : LinkFrame) (inner : Span) : LinkFrame :=
  if inner.stop ≤ f.span.stop then { f with contentStop := max f.contentStop inner.stop } else f

end LinkFrame

/-- How many quotations are open. Closing more than were opened changes nothing. -/
structure QuoteDepth where
  depth : Nat := 0
  deriving Repr, DecidableEq

namespace QuoteDepth

/-- Enters a quotation; the answer is whether it is an outermost one. -/
def enter (q : QuoteDepth) : Bool × QuoteDepth := (q.depth == 0, ⟨q.depth + 1⟩)

def leave (q : QuoteDepth) : QuoteDepth := ⟨q.depth - 1⟩

end QuoteDepth

/-- Where the writer stands between two events. The innermost open link comes first. -/
structure Walk where
  links : List LinkFrame := []
  quotes : QuoteDepth := {}
  deriving Repr, DecidableEq

namespace Walk

/-- The innermost open link takes note of an event, unless the event closes something. -/
def observe (w : Walk) (e : Event) : Walk :=
  if e.kind.isStop then w
  else
    match w.links with
    | [] => w
    | f :: fs => { w with links := f.observe e.span :: fs }

/-- Where the writer stands after an event. -/
def step (w : Walk) (e : Event) : Walk :=
  let w := w.observe e
  match e.kind with
  | .start .blockquote => { w with quotes := w.quotes.enter.2 }
  | .start .link => { w with links := .ofSpan e.span false :: w.links }
  | .start .image => { w with links := .ofSpan e.span true :: w.links }
  | .stop .blockquote => { w with quotes := w.quotes.leave }
  | .stop .link | .stop .image => { w with links := w.links.tail }
  | _ => w

end Walk

end MarkdownPreview.Writer
