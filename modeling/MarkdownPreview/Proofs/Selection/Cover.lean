import MarkdownPreview.Selection.Basic

/-! The positions that a document's selections cover. A selection covers both of its ends and all
that lies between them, and what is past the end of the document counts as its end. -/

namespace MarkdownPreview.Selection

/-- The position is in the selection's closed interval. -/
def Covers (s : Selection) (p : Nat) : Prop := s.start ≤ p ∧ p ≤ s.stop

/-- One of the selections, pulled into a document of `length` characters, covers the position. -/
def Covered (length : Nat) (selections : List Selection) (p : Nat) : Prop :=
  ∃ s ∈ selections, (s.clamped length).Covers p

variable {length first last p : Nat} {s : Selection} {S T : List Selection}

/-- A selection touches an interval that it shares a position with. -/
theorem touches_iff (h : first ≤ last) :
    s.touches first last = true ↔ ∃ p, s.Covers p ∧ first ≤ p ∧ p ≤ last := by
  have hs := s.start_le_stop
  simp only [touches, Covers, Bool.and_eq_true, decide_eq_true_eq]
  constructor
  · rintro ⟨hle, hge⟩
    exact ⟨max s.start first, by omega, by omega, by omega⟩
  · rintro ⟨p, hp, hfirst, hlast⟩
    omega

theorem exists_touches_iff (h : first ≤ last) :
    (∃ s ∈ S, (s.clamped length).touches first last = true) ↔
      ∃ p, Covered length S p ∧ first ≤ p ∧ p ≤ last := by
  simp only [touches_iff h]
  constructor
  · rintro ⟨s, hs, p, hp, hin⟩
    exact ⟨p, ⟨s, hs, hp⟩, hin⟩
  · rintro ⟨p, ⟨s, hs, hp⟩, hin⟩
    exact ⟨s, hs, p, hp, hin⟩

theorem not_covered_nil : ¬ Covered length [] p := by simp [Covered]

theorem covered_append : Covered length (S ++ T) p ↔ Covered length S p ∨ Covered length T p := by
  simp only [Covered, List.mem_append, or_and_right, exists_or]

theorem Covered.le (h : Covered length S p) : p ≤ length := by
  obtain ⟨s, -, -, hp⟩ := h
  simp only [clamped, stop] at hp
  omega

/-! ### Selections turned round -/

/-- The selection with its ends exchanged. -/
def turned (s : Selection) : Selection := ⟨s.head, s.anchor⟩

theorem covers_turned_clamped :
    (s.turned.clamped length).Covers p ↔ (s.clamped length).Covers p := by
  simp only [Covers, clamped, turned, start, stop, Nat.min_comm (min s.head length),
    Nat.max_comm (min s.head length)]

/-- Where each selection is among others, turned round or not, it covers no more than these. -/
theorem Covered.of_turned (h : ∀ s ∈ S, s ∈ T ∨ s.turned ∈ T) (hp : Covered length S p) :
    Covered length T p := by
  obtain ⟨s, hs, hp⟩ := hp
  rcases h s hs with hs | hs
  · exact ⟨s, hs, hp⟩
  · exact ⟨s.turned, hs, covers_turned_clamped.2 hp⟩

/-! ### The whole document -/

/-- A selection from the start of a document to its end or further covers every position. -/
theorem covered_whole (hstart : s.start = 0) (hstop : length ≤ s.stop) :
    Covered length [s] p ↔ p ≤ length := by
  refine ⟨Covered.le, fun hp => ⟨s, List.mem_singleton_self s, ?_⟩⟩
  simp only [start, stop, Covers, clamped] at *
  omega

end MarkdownPreview.Selection
