import MarkdownPreview.Text.Offset

/-! Lines of a text, by character offset. A line ends after a line feed, a vertical tab, a form
feed, U+0085, U+2028, U+2029, or a carriage return that no line feed follows, so a carriage return
and a line feed together end one line. -/

namespace MarkdownPreview.Text

/-- Character `c`, with `rest` after it, is the last one of its line. -/
def endsLine (c : Char) (rest : List Char) : Bool :=
  c == '\n' || c == '\x0b' || c == '\x0c' || c == '\u0085' || c == '\u2028' || c == '\u2029' ||
    (c == '\r' && rest.head? != some '\n')

/-- The number, from zero, of the line that holds a character offset. The end of the text stands
for every offset past it. -/
def lineOf : List Char → Nat → Nat
  | [], _ => 0
  | _ :: _, 0 => 0
  | c :: cs, n + 1 => (if endsLine c cs then 1 else 0) + lineOf cs n

theorem lineOf_mono (text : List Char) {m n : Nat} (h : m ≤ n) : lineOf text m ≤ lineOf text n := by
  induction text generalizing m n with
  | nil => exact Nat.le_refl _
  | cons c cs ih =>
    cases m with
    | zero => exact Nat.zero_le _
    | succ m =>
      cases n with
      | zero => omega
      | succ n => exact Nat.add_le_add_left (ih (by omega)) _

/-- The lines from `first` to `last`, both included. -/
structure LineSpan where
  first : Nat
  last : Nat
  deriving Repr, DecidableEq, Inhabited

/-- The two runs of lines have a line in common. -/
def LineSpan.overlaps (a b : LineSpan) : Bool := a.first ≤ b.last && b.first ≤ a.last

/-- The lines of the half-open span `start..stop`. An empty span occupies the line of its start, and
one that ends just after a line break does not reach into the next line. -/
def lineSpan (text : List Char) (start stop : Nat) : LineSpan :=
  let first := lineOf text start
  let last := if start < stop then lineOf text (stop - 1) else first
  ⟨first, max last first⟩

/-- The lines of the closed interval from `start` to `stop`. -/
def closedLineSpan (text : List Char) (start stop : Nat) : LineSpan :=
  let first := lineOf text start
  ⟨first, max (lineOf text stop) first⟩

end MarkdownPreview.Text
