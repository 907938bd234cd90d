/-! Sorting by insertion from the right. Elements that the order does not separate keep their places
relative to each other. -/

namespace MarkdownPreview.Text

variable {α : Type}

/-- Puts `x` before the first element that it may precede. -/
def insertBy (le : α → α → Bool) (x : α) : List α → List α
  | [] => [x]
  | y :: ys => if le x y then x :: y :: ys else y :: insertBy le x ys

/-- The list in ascending order, equal elements in their given order. -/
def stableSort (le : α → α → Bool) (xs : List α) : List α := xs.foldr (insertBy le) []

theorem stableSort_cons (le : α → α → Bool) (x : α) (xs : List α) :
    stableSort le (x :: xs) = insertBy le x (stableSort le xs) := rfl

theorem insertBy_perm (le : α → α → Bool) (x : α) (ys : List α) :
    (insertBy le x ys).Perm (x :: ys) := by
  induction ys with
  | nil => exact .refl _
  | cons y ys ih =>
    simp only [insertBy]
    split
    · exact .refl _
    · exact (ih.cons y).trans (.swap x y ys)

theorem stableSort_perm (le : α → α → Bool) (xs : List α) : (stableSort le xs).Perm xs := by
  induction xs with
  | nil => exact .refl _
  | cons x xs ih => exact (insertBy_perm le x _).trans (ih.cons x)

theorem mem_insertBy {le : α → α → Bool} {x y : α} {ys : List α} :
    y ∈ insertBy le x ys ↔ y = x ∨ y ∈ ys := by
  rw [(insertBy_perm le x ys).mem_iff, List.mem_cons]

theorem mem_stableSort {le : α → α → Bool} {x : α} {xs : List α} :
    x ∈ stableSort le xs ↔ x ∈ xs := (stableSort_perm le xs).mem_iff

theorem pairwise_insertBy {le : α → α → Bool} (trans : ∀ a b c, le a b → le b c → le a c)
    (total : ∀ a b, le a b ∨ le b a) (x : α) {ys : List α} (h : ys.Pairwise (le · ·)) :
    (insertBy le x ys).Pairwise (le · ·) := by
  induction ys with
  | nil => exact List.pairwise_singleton _ _
  | cons y ys ih =>
    obtain ⟨hy, hys⟩ := List.pairwise_cons.1 h
    simp only [insertBy]
    split
    next hxy =>
      refine List.pairwise_cons.2 ⟨fun z hz => ?_, h⟩
      rcases List.mem_cons.1 hz with rfl | hz
      · exact hxy
      · exact trans _ _ _ hxy (hy z hz)
    next hxy =>
      refine List.pairwise_cons.2 ⟨fun z hz => ?_, ih hys⟩
      rcases mem_insertBy.1 hz with rfl | hz
      · exact (total z y).resolve_left hxy
      · exact hy z hz

/-- Sorting puts a list in order. -/
theorem pairwise_stableSort {le : α → α → Bool} (trans : ∀ a b c, le a b → le b c → le a c)
    (total : ∀ a b, le a b ∨ le b a) (xs : List α) : (stableSort le xs).Pairwise (le · ·) := by
  induction xs with
  | nil => exact .nil
  | cons x xs ih => exact pairwise_insertBy trans total x ih

end MarkdownPreview.Text
