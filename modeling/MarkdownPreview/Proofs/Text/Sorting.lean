import MarkdownPreview.Text.StableSort

/-! Stable sorting of lists that are put together. Elements with different keys may be inserted in
either order, so a part of a list may be sorted beforehand without a difference to the whole. Nor
does it matter whether elements are dropped before a list is sorted or after, or how the elements
were arranged, if the order tells them apart. -/

namespace MarkdownPreview.Text

variable {α β : Type} {le : α → α → Bool}

/-- An element that may precede all others comes first. -/
theorem insertBy_eq_cons {x : α} {ys : List α} (h : ∀ y ∈ ys, le x y = true) :
    insertBy le x ys = x :: ys := by
  cases ys with
  | nil => rfl
  | cons y ys => simp [insertBy, h y List.mem_cons_self]

/-- A list in order is left as it is. -/
theorem stableSort_eq_self {xs : List α} (h : xs.Pairwise (le · ·)) : stableSort le xs = xs := by
  induction xs with
  | nil => rfl
  | cons x xs ih =>
    obtain ⟨hx, hxs⟩ := List.pairwise_cons.1 h
    rw [stableSort_cons, ih hxs, insertBy_eq_cons hx]

/-- An element that may precede all of the end of a list is inserted before that. -/
theorem insertBy_append {x : α} {ys : List α} (xs : List α) (h : ∀ y ∈ ys, le x y = true) :
    insertBy le x (xs ++ ys) = insertBy le x xs ++ ys := by
  induction xs with
  | nil => exact insertBy_eq_cons h
  | cons z xs ih =>
    simp only [List.cons_append, insertBy]
    split
    · rfl
    · rw [ih, List.cons_append]

/-- Two parts, the first of which may precede the second, are sorted one after the other. -/
theorem stableSort_append {xs ys : List α} (h : ∀ x ∈ xs, ∀ y ∈ ys, le x y = true) :
    stableSort le (xs ++ ys) = stableSort le xs ++ stableSort le ys := by
  induction xs with
  | nil => rfl
  | cons x xs ih =>
    obtain ⟨hx, hxs⟩ := List.forall_mem_cons.1 h
    rw [List.cons_append, stableSort_cons, stableSort_cons, ih hxs]
    exact insertBy_append _ fun y hy => hx y (mem_stableSort.1 hy)

section Order

variable (trans : ∀ a b c, le a b → le b c → le a c) (total : ∀ a b, le a b ∨ le b a)

include trans total

/-- Of two elements that have to change places, either may be inserted first. -/
theorem insertBy_comm {x y : α} (hxy : le x y = false) (zs : List α) :
    insertBy le x (insertBy le y zs) = insertBy le y (insertBy le x zs) := by
  have hyx : le y x = true := (total y x).resolve_right (by simp [hxy])
  induction zs with
  | nil => simp [insertBy, hxy, hyx]
  | cons z zs ih =>
    by_cases hyz : le y z = true
    · by_cases hxz : le x z = true <;> simp [insertBy, hxy, hyx, hyz, hxz]
    · -- `x` comes after `y`, so it does not go before `z` either
      have hxz : ¬ le x z = true := fun hxz => hyz (trans _ _ _ hyx hxz)
      simp [insertBy, hyz, hxz, ih]

theorem foldr_insertBy (x : α) (xs zs : List α) :
    (insertBy le x xs).foldr (insertBy le) zs = insertBy le x (xs.foldr (insertBy le) zs) := by
  induction xs with
  | nil => rfl
  | cons y ys ih =>
    by_cases hxy : le x y = true
    · simp [insertBy, hxy]
    · have hcomm := insertBy_comm trans total (Bool.not_eq_true _ ▸ hxy)
      simp only [insertBy, hxy, Bool.false_eq_true, if_false, List.foldr_cons, ih]
      exact (hcomm _).symm

/-- Elements may be sorted among themselves before they are inserted. -/
theorem foldr_stableSort (xs zs : List α) :
    (stableSort le xs).foldr (insertBy le) zs = xs.foldr (insertBy le) zs := by
  induction xs with
  | nil => rfl
  | cons x xs ih => rw [stableSort_cons, foldr_insertBy trans total, ih, List.foldr_cons]

/-- Two parts that were sorted before are sorted into the same list as the parts themselves. -/
theorem stableSort_append_stableSort (xs ys : List α) :
    stableSort le (stableSort le xs ++ stableSort le ys) = stableSort le (xs ++ ys) := by
  have hidem : stableSort le (stableSort le ys) = stableSort le ys :=
    foldr_stableSort trans total ys []
  calc stableSort le (stableSort le xs ++ stableSort le ys)
      = (stableSort le xs).foldr (insertBy le) (stableSort le (stableSort le ys)) :=
        List.foldr_append
    _ = xs.foldr (insertBy le) (stableSort le ys) := by rw [hidem, foldr_stableSort trans total]
    _ = stableSort le (xs ++ ys) := List.foldr_append.symm

/-- Where the order tells the elements apart, it does not matter how they were arranged before. -/
theorem stableSort_eq_of_perm {xs ys : List α}
    (antisymm : ∀ x ∈ xs, ∀ y ∈ xs, le x y = true → le y x = true → x = y) (h : xs.Perm ys) :
    stableSort le xs = stableSort le ys := by
  have hsorts : (stableSort le xs).Perm (stableSort le ys) :=
    ((stableSort_perm le xs).trans h).trans (stableSort_perm le ys).symm
  refine hsorts.eq_of_pairwise (fun x y hx hy => ?_) (pairwise_stableSort trans total xs)
    (pairwise_stableSort trans total ys)
  exact antisymm x (mem_stableSort.1 hx) y (h.mem_iff.2 (mem_stableSort.1 hy))

omit total in
/-- Of elements in order, those to keep may be picked before another one is inserted or after. -/
theorem filter_insertBy (p : α → Bool) (x : α) {ys : List α} (h : ys.Pairwise (le · ·)) :
    (insertBy le x ys).filter p =
      if p x then insertBy le x (ys.filter p) else ys.filter p := by
  induction ys with
  | nil => simp [insertBy, List.filter_cons]
  | cons y ys ih =>
    obtain ⟨hy, hys⟩ := List.pairwise_cons.1 h
    by_cases hxy : le x y = true
    · have hfirst : ∀ z ∈ (y :: ys).filter p, le x z = true := fun z hz => by
        rcases List.mem_cons.1 (List.mem_filter.1 hz).1 with rfl | hz
        · exact hxy
        · exact trans _ _ _ hxy (hy z hz)
      rw [insertBy, if_pos hxy, List.filter_cons, insertBy_eq_cons hfirst]
    · rw [insertBy, if_neg hxy, List.filter_cons, List.filter_cons, ih hys]
      by_cases hpx : p x = true <;> by_cases hpy : p y = true <;> simp [hpx, hpy, insertBy, hxy]

/-- A list may be sorted before elements are picked from it or after. -/
theorem filter_stableSort (p : α → Bool) (xs : List α) :
    (stableSort le xs).filter p = stableSort le (xs.filter p) := by
  induction xs with
  | nil => rfl
  | cons x xs ih =>
    rw [stableSort_cons, filter_insertBy trans p x (pairwise_stableSort trans total xs), ih,
      List.filter_cons]
    split
    · rw [stableSort_cons]
    · rfl

end Order

/-- Sorting does not see what a map does to the elements, as long as it keeps their order. -/
theorem stableSort_map {le' : β → β → Bool} {f : α → β} (h : ∀ x y, le' (f x) (f y) = le x y)
    (xs : List α) : stableSort le' (xs.map f) = (stableSort le xs).map f := by
  have hinsert (x : α) (ys : List α) :
      insertBy le' (f x) (ys.map f) = (insertBy le x ys).map f := by
    induction ys with
    | nil => rfl
    | cons y ys ih =>
      simp only [List.map_cons, insertBy, h]
      split
      · rfl
      · rw [List.map_cons, ih]
  induction xs with
  | nil => rfl
  | cons x xs ih => rw [List.map_cons, stableSort_cons, ih, hinsert, stableSort_cons]

end MarkdownPreview.Text
