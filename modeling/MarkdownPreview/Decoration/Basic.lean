import MarkdownPreview.Decoration.Kind
import MarkdownPreview.Text.Ink
import MarkdownPreview.Text.Span

/-! A decoration tags a span of the document with a kind, and may carry a text to draw in place of
the span. -/

namespace MarkdownPreview

open Text (Span)

/-- A kind over the characters from `start` up to `stop`. The replacement, if there is one, is drawn
instead of the span's own text; an empty replacement is not the same as none. -/
structure Decoration where
  start : Nat
  stop : Nat
  kind : Decoration.Kind
  replacement : Option (List Char) := none
  deriving Repr, DecidableEq, Inhabited

namespace Decoration

/-- The characters that the decoration covers. -/
def span (d : Decoration) : Span := ⟨d.start, d.stop⟩

def length (d : Decoration) : Nat := d.span.length

def isEmpty (d : Decoration) : Bool := d.span.isEmpty

/-- `e` lies entirely within `d`. -/
def encloses (d e : Decoration) : Bool := d.span.encloses e.span

/-! ### Display -/

/-- A character inside a quoted text: quotes and backslashes take a backslash, and so do the
control characters that have a letter of their own; what would not show is given by number. -/
def quotedChar (c : Char) : List Char :=
  if c = '"' then "\\\"".toList
  else if c = '\\' then "\\\\".toList
  else if c = '\n' then "\\n".toList
  else if c = '\r' then "\\r".toList
  else if c = '\t' then "\\t".toList
  else if c = '\x00' then "\\0".toList
  else if Text.hasInk c then [c]
  else "\\u\x7b".toList ++ Text.hexDigits c.toNat ++ ['}']

/-- The decoration as one line for people: kind, span, and the replacement in quotes. -/
def display (d : Decoration) : List Char :=
  let span := d.kind.name.toList ++ ' ' :: (Nat.repr d.start).toList ++ "..".toList ++
    (Nat.repr d.stop).toList
  match d.replacement with
  | none => span
  | some text => span ++ " => \"".toList ++ text.flatMap quotedChar ++ ['"']

end Decoration

end MarkdownPreview
