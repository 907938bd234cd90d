import MarkdownPreview.Text.Span
import MarkdownPreview.Text.StableSort

/-! Substitutions of LaTeX fragments by Unicode text, how overlaps among them are resolved, and
their application to a text. -/

namespace MarkdownPreview.Latex

open Text (Span stableSort)

/-- The characters from `start` up to `stop`, which read `source`, drawn as `display`. -/
structure Substitution where
  start : Nat
  stop : Nat
  source : List Char
  display : List Char
  deriving Repr, DecidableEq

namespace Substitution

def span (s : Substitution) : Span := ⟨s.start, s.stop⟩

def overlaps (s t : Substitution) : Bool := s.span.overlaps t.span

/-- The earlier start comes first, and of two with one start the longer. -/
def comesFirst (s t : Substitution) : Bool :=
  s.start < t.start || (s.start == t.start && t.stop ≤ s.stop)

end Substitution

/-! ### Overlaps -/

/-- Drops from an ordered list what overlaps the last one kept. -/
def dropOverlapping : Option Substitution → List Substitution → List Substitution
  | _, [] => []
  | none, s :: rest => s :: dropOverlapping (some s) rest
  | some last, s :: rest =>
    if last.overlaps s then dropOverlapping (some last) rest
    else s :: dropOverlapping (some s) rest

/-- The substitutions in order, without those that overlap an earlier or a longer one. -/
def nonOverlapping (subs : List Substitution) : List Substitution :=
  dropOverlapping none (stableSort Substitution.comesFirst subs)

theorem dropOverlapping_sublist (last : Option Substitution) (subs : List Substitution) :
    (dropOverlapping last subs).Sublist subs := by
  induction subs generalizing last with
  | nil => exact .slnil
  | cons s rest ih =>
    cases last with
    | none => exact (ih _).cons_cons s
    | some last =>
      simp only [dropOverlapping]
      split
      · exact (ih _).cons s
      · exact (ih _).cons_cons s

theorem mem_of_mem_nonOverlapping {subs : List Substitution} {s : Substitution}
    (h : s ∈ nonOverlapping subs) : s ∈ subs :=
  Text.mem_stableSort.1 ((dropOverlapping_sublist none _).subset h)

/-! ### Application -/

/-- The text from character `at` on with the substitutions applied, which are in order and do not
overlap. The first `skip` characters belong to one that has been drawn already. -/
def applyFrom (subs : List Substitution) (pos skip : Nat) : List Char → List Char
  | [] => []
  | c :: rest =>
    match skip with
    | skip + 1 => applyFrom subs (pos + 1) skip rest
    | 0 =>
      match subs with
      | [] => c :: applyFrom [] (pos + 1) 0 rest
      | s :: later =>
        if s.start = pos then s.display ++ applyFrom later (pos + 1) (s.stop - pos - 1) rest
        else c :: applyFrom (s :: later) (pos + 1) 0 rest

/-- The text with every substitution applied. -/
def applyAll (subs : List Substitution) (text : List Char) : List Char := applyFrom subs 0 0 text

end MarkdownPreview.Latex
