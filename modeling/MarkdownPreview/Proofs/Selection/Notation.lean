import MarkdownPreview.Proofs.Text.Numeral
import MarkdownPreview.Proofs.Text.Trimming
import MarkdownPreview.Selection.Notation

/-! The notation for selections read. An offset has nothing in it but digits, a sign and white
space, so that a colon ends it and no hyphen starts a selection. -/

namespace MarkdownPreview.Selection

open Text

variable {text anchor head : List Char} {n a b : Nat} {s : Selection}

/-! ### Offsets -/

theorem word?_of_offset? (h : offset? text = .ok n) : word? (trim isBlank text) = some n := by
  simp only [offset?] at h
  split at h
  · cases h
  · split at h
    · rename_i m hword
      cases h
      exact hword
    · cases h

/-- A character that is no white space and has no place in a number is in no offset. -/
theorem not_mem_of_offset? (h : offset? text = .ok n) {c : Char} (hblank : isBlank c = false)
    (hsign : c ≠ '+') (hdigit : ¬ ('0' ≤ c ∧ c ≤ '9')) : c ∉ text := fun hc =>
  (signs_of_word? (word?_of_offset? h) c (mem_trim hc hblank)).elim hsign hdigit

theorem colon_not_mem_of_offset? (h : offset? text = .ok n) : ':' ∉ text :=
  not_mem_of_offset? h (by decide) (by decide) (by decide)

theorem hyphen_not_mem_of_offset? (h : offset? text = .ok n) : '-' ∉ text :=
  not_mem_of_offset? h (by decide) (by decide) (by decide)

/-- A number is an offset, without white space to trim. -/
theorem offset?_of_word? (h : word? text = some n) : offset? text = .ok n := by
  have hblank : ∀ c ∈ text, isBlank c = false := by
    intro c hc
    rcases signs_of_word? h c hc with rfl | hdigit
    · decide
    · exact isBlank_eq_false_of_digit hdigit
  have hne : text ≠ [] := by
    rintro rfl
    cases h
  simp only [offset?, trim_eq_self hblank, hne, if_false, h]

/-! ### Selections -/

theorem parse_of_not_mem (h : ':' ∉ text) : parse text = (offsetAt? text 0 text).map caret := by
  have hdrop : text.dropWhile (· != ':') = [] :=
    List.dropWhile_eq_nil_iff.2 fun c hc => bne_iff_ne.2 (ne_of_mem_of_not_mem hc h)
  simp only [parse, hdrop]

/-- The first colon has the anchor before it and the head behind it. -/
theorem parse_append_colon (h : ':' ∉ anchor) (head : List Char) :
    parse (anchor ++ ':' :: head) =
      (offsetAt? (anchor ++ ':' :: head) 0 anchor).bind fun a =>
        (offsetAt? (anchor ++ ':' :: head) (byteLength anchor + 1) head).map (⟨a, ·⟩) := by
  have hne : ∀ c ∈ anchor, (c != ':') = true :=
    fun c hc => bne_iff_ne.2 (ne_of_mem_of_not_mem hc h)
  have htake : (anchor ++ ':' :: head).takeWhile (· != ':') = anchor := by
    rw [List.takeWhile_append_of_pos hne]
    simp
  have hdrop : (anchor ++ ':' :: head).dropWhile (· != ':') = ':' :: head := by
    rw [List.dropWhile_append_of_pos hne]
    simp
  simp only [parse, htake, hdrop]
  rfl

/-- An offset alone is a caret. -/
theorem parse_offset (h : offset? text = .ok n) : parse text = .ok (caret n) := by
  simp only [parse_of_not_mem (colon_not_mem_of_offset? h), offsetAt?, h]
  rfl

/-- Two offsets with a colon between them are the ends of a selection. -/
theorem parse_offsets (ha : offset? anchor = .ok a) (hb : offset? head = .ok b) :
    parse (anchor ++ ':' :: head) = .ok ⟨a, b⟩ := by
  simp only [parse_append_colon (colon_not_mem_of_offset? ha), offsetAt?, ha, hb]
  rfl

theorem offset?_of_offsetAt? {input : List Char} {pos : Nat}
    (h : offsetAt? input pos text = .ok n) : offset? text = .ok n := by
  rw [offsetAt?] at h
  split at h
  · rename_i hoffset
    cases h
    exact hoffset
  · cases h

/-- What is read as a selection starts with an offset. -/
theorem exists_offset_of_parse (h : parse text = .ok s) :
    ∃ n, offset? (text.takeWhile (· != ':')) = .ok n := by
  rw [parse] at h
  split at h
  · rename_i hdrop
    have htake : text.takeWhile (· != ':') = text := by
      rw [← List.append_nil (text.takeWhile _), ← hdrop, List.takeWhile_append_dropWhile]
    rw [htake]
    cases hpart : offsetAt? text 0 text with
    | error e => simp [hpart, Except.map] at h
    | ok n => exact ⟨n, offset?_of_offsetAt? hpart⟩
  · cases hpart : offsetAt? text 0 (text.takeWhile (· != ':')) with
    | error e => simp [hpart, bind, Except.bind] at h
    | ok n => exact ⟨n, offset?_of_offsetAt? hpart⟩

theorem head?_ne_hyphen_of_parse (h : parse text = .ok s) : text.head? ≠ some '-' := by
  obtain ⟨n, hn⟩ := exists_offset_of_parse h
  intro hhead
  obtain ⟨rest, rfl⟩ := List.head?_eq_some_iff.1 hhead
  exact hyphen_not_mem_of_offset? hn (by simp)

end MarkdownPreview.Selection
