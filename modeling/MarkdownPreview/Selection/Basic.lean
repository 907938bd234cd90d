/-! Selections of the host editor, in character offsets. -/

namespace MarkdownPreview

/-- A selection runs from where it was started to where the cursor is now, in either direction. One
whose two ends agree is a caret. -/
structure Selection where
  anchor : Nat
  head : Nat
  deriving Repr, DecidableEq, Inhabited

namespace Selection

/-- The selection that is a cursor without extent. -/
def caret (offset : Nat) : Selection := ⟨offset, offset⟩

def start (s : Selection) : Nat := min s.anchor s.head

def stop (s : Selection) : Nat := max s.anchor s.head

theorem start_le_stop (s : Selection) : s.start ≤ s.stop := by
  simp only [start, stop]
  omega

/-- Both ends pulled into a document of `length` characters. -/
def clamped (s : Selection) (length : Nat) : Selection := ⟨min s.anchor length, min s.head length⟩

/-- The selection and the closed interval from `first` to `last` have a position in common, ends
included: a caret just before or just after a span touches it. -/
def touches (s : Selection) (first last : Nat) : Bool := s.start ≤ last && first ≤ s.stop

end Selection

end MarkdownPreview
