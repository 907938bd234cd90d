/-! Half-open ranges of positions. One type serves for byte offsets and for character offsets:
which of the two a span counts in is said where the span is made. A span whose end lies before its
start is allowed and counts as empty. -/

namespace MarkdownPreview.Text

/-- The positions from `start` up to, and not including, `stop`. -/
structure Span where
  start : Nat
  stop : Nat
  deriving Repr, DecidableEq, Inhabited

namespace Span

def length (s : Span) : Nat := s.stop - s.start

def isEmpty (s : Span) : Bool := s.stop ≤ s.start

/-- The two spans share a position, or one lies strictly around the other's point. -/
def overlaps (s t : Span) : Bool := s.start < t.stop && t.start < s.stop

/-- `t` lies entirely within `s`. -/
def encloses (s t : Span) : Bool := s.start ≤ t.start && t.stop ≤ s.stop

/-- The position is one of the span's. -/
def contains (s : Span) (p : Nat) : Bool := s.start ≤ p && p < s.stop

def shift (s : Span) (n : Nat) : Span := ⟨s.start + n, s.stop + n⟩

/-- Both ends sent through one change of coordinates. -/
def map (f : Nat → Nat) (s : Span) : Span := ⟨f s.start, f s.stop⟩

@[simp] theorem map_start (f : Nat → Nat) (s : Span) : (s.map f).start = f s.start := rfl

@[simp] theorem map_stop (f : Nat → Nat) (s : Span) : (s.map f).stop = f s.stop := rfl

theorem encloses_iff {s t : Span} :
    s.encloses t = true ↔ s.start ≤ t.start ∧ t.stop ≤ s.stop := by
  rw [encloses, Bool.and_eq_true, decide_eq_true_eq, decide_eq_true_eq]

theorem contains_iff {s : Span} {p : Nat} : s.contains p = true ↔ s.start ≤ p ∧ p < s.stop := by
  rw [contains, Bool.and_eq_true, decide_eq_true_eq, decide_eq_true_eq]

end Span

end MarkdownPreview.Text
