import MarkdownPreview.Latex.Scan
import MarkdownPreview.Proofs.Text.Prefix
import MarkdownPreview.Proofs.Text.Sorting

/-! LaTeX at another place. What a text is drawn as does not depend on the offset from which its
characters are counted: the substitutions move along with it, and so does what is left of them once
overlaps are resolved. -/

namespace MarkdownPreview.Latex

open Text

namespace Substitution

def shift (s : Substitution) (n : Nat) : Substitution :=
  { s with start := s.start + n, stop := s.stop + n }

variable (s t : Substitution) (n : Nat)

@[simp] theorem shift_start : (s.shift n).start = s.start + n := rfl

@[simp] theorem shift_stop : (s.shift n).stop = s.stop + n := rfl

@[simp] theorem shift_display : (s.shift n).display = s.display := rfl

@[simp] theorem overlaps_shift : (s.shift n).overlaps (t.shift n) = s.overlaps t :=
  Span.overlaps_shift s.span t.span n

@[simp] theorem comesFirst_shift : (s.shift n).comesFirst (t.shift n) = s.comesFirst t := by
  simp only [comesFirst, shift_start, shift_stop, Nat.add_lt_add_iff_right,
    Nat.add_le_add_iff_right]
  congr 2
  rw [Bool.eq_iff_iff, beq_iff_eq, beq_iff_eq, Nat.add_left_inj]

end Substitution

variable (n : Nat)

/-! ### Scans -/

theorem scanFrom_shift (construct? : List Char → Option Fragment) (pos skip : Nat)
    (text : List Char) : scanFrom construct? (pos + n) skip text =
      (scanFrom construct? pos skip text).map (·.shift n) := by
  fun_induction scanFrom construct? pos skip text with
  | case1 => rfl
  | case2 pos c rest skip ih =>
    rw [scanFrom, Nat.add_right_comm, ih]
  | case3 pos c rest hnone ih =>
    rw [scanFrom, hnone, Nat.add_right_comm]
    exact ih
  | case4 pos c rest f hsome found ih =>
    rw [scanFrom, hsome, Nat.add_right_comm]
    simp only [ih, List.map_append, found]
    congr 1
    split <;> simp [Substitution.shift, Nat.add_right_comm]

theorem findSubstitutions_shift (text : List Char) (offset : Nat) :
    findSubstitutions text (offset + n) = (findSubstitutions text offset).map (·.shift n) := by
  simp only [findSubstitutions, commands, scripts, fractions, scanFrom_shift, List.map_append]

/-! ### Overlaps -/

section Map

variable {f : Substitution → Substitution}

/-- Which substitutions are dropped depends only on which of them overlap. -/
theorem dropOverlapping_map (hf : ∀ s t, (f s).overlaps (f t) = s.overlaps t)
    (last : Option Substitution) (subs : List Substitution) :
    dropOverlapping (last.map f) (subs.map f) = (dropOverlapping last subs).map f := by
  induction subs generalizing last with
  | nil => rfl
  | cons s rest ih =>
    have hkept := ih (some s)
    cases last with
    | none =>
      simp only [Option.map_none, List.map_cons, dropOverlapping]
      rw [← hkept]
      rfl
    | some last =>
      have hlast := ih (some last)
      simp only [Option.map_some, List.map_cons, dropOverlapping, hf] at hlast hkept ⊢
      split
      · exact hlast
      · rw [List.map_cons, hkept]

/-- Overlaps are resolved alike as long as order and overlaps are kept. -/
theorem nonOverlapping_map (hfirst : ∀ s t, (f s).comesFirst (f t) = s.comesFirst t)
    (hf : ∀ s t, (f s).overlaps (f t) = s.overlaps t) (subs : List Substitution) :
    nonOverlapping (subs.map f) = (nonOverlapping subs).map f := by
  rw [nonOverlapping, stableSort_map hfirst]
  exact dropOverlapping_map hf none _

end Map

theorem nonOverlapping_shift (subs : List Substitution) :
    nonOverlapping (subs.map (·.shift n)) = (nonOverlapping subs).map (·.shift n) :=
  nonOverlapping_map (fun s t => s.comesFirst_shift t n) (fun s t => s.overlaps_shift t n) subs

end MarkdownPreview.Latex
