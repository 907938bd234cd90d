import MarkdownPreview.Proofs.Text.Lines
import MarkdownPreview.Text.Offset

/-! Texts with another text put before them. Positions move by the length of what stands before,
bytes by its bytes and characters by its characters. A slice is the same text as it was, a byte
offset stands for the moved character offset, and line numbers go up by the lines that were put
before. -/

namespace MarkdownPreview.Text

/-! ### Spans -/

namespace Span

variable (s t : Span) (n : Nat)

@[simp] theorem shift_start : (s.shift n).start = s.start + n := rfl

@[simp] theorem shift_stop : (s.shift n).stop = s.stop + n := rfl

@[simp] theorem length_shift : (s.shift n).length = s.length := Nat.add_sub_add_right _ _ _

@[simp] theorem isEmpty_shift : (s.shift n).isEmpty = s.isEmpty := by simp [isEmpty]

@[simp] theorem overlaps_shift : (s.shift n).overlaps (t.shift n) = s.overlaps t := by
  simp [overlaps]

@[simp] theorem encloses_shift : (s.shift n).encloses (t.shift n) = s.encloses t := by
  simp [encloses]

@[simp] theorem contains_shift (p : Nat) : (s.shift n).contains (p + n) = s.contains p := by
  simp [contains]

end Span

/-! ### Slices -/

variable (before text : List Char)

theorem dropBytes?_append (b : Nat) :
    dropBytes? (before ++ text) (b + byteLength before) = dropBytes? text b := by
  induction before with
  | nil => rfl
  | cons c before ih =>
    obtain ⟨k, hk⟩ := Nat.exists_eq_succ_of_ne_zero (Nat.ne_of_gt c.utf8Size_pos)
    have hsum : b + byteLength (c :: before) = b + byteLength before + k + 1 := by
      rw [byteLength_cons]
      omega
    have hrest : b + byteLength before + k + 1 - c.utf8Size = b + byteLength before := by omega
    rw [hsum, List.cons_append, dropBytes?, if_pos (by omega), hrest, ih]

theorem takeBytes?_append (b : Nat) : takeBytes? (before ++ text) (b + byteLength before) =
    (takeBytes? text b).map (before ++ ·) := by
  induction before with
  | nil => simp
  | cons c before ih =>
    obtain ⟨k, hk⟩ := Nat.exists_eq_succ_of_ne_zero (Nat.ne_of_gt c.utf8Size_pos)
    have hsum : b + byteLength (c :: before) = b + byteLength before + k + 1 := by
      rw [byteLength_cons]
      omega
    have hrest : b + byteLength before + k + 1 - c.utf8Size = b + byteLength before := by omega
    rw [hsum, List.cons_append, takeBytes?, if_pos (by omega), hrest, ih, Option.map_map]
    rfl

theorem byteSlice?_append (bytes : Span) :
    byteSlice? (before ++ text) (bytes.shift (byteLength before)) = byteSlice? text bytes := by
  have hlength : bytes.stop + byteLength before - (bytes.start + byteLength before) =
      bytes.stop - bytes.start := Nat.add_sub_add_right _ _ _
  simp only [byteSlice?, Span.shift_start, Span.shift_stop, dropBytes?_append, hlength,
    Nat.add_le_add_iff_right]

theorem charOffset_append_add (b : Nat) :
    charOffset (before ++ text) (b + byteLength before) =
      charOffset text b + before.length := by
  induction before with
  | nil => rfl
  | cons c before ih =>
    have hrest : b + (c.utf8Size + byteLength before) - c.utf8Size = b + byteLength before := by
      omega
    rw [List.cons_append, charOffset, byteLength_cons, if_pos (by omega), hrest, ih,
      List.length_cons, Nat.add_assoc]

theorem charSpan_append (bytes : Span) :
    charSpan (before ++ text) (bytes.shift (byteLength before)) =
      (charSpan text bytes).shift before.length := by
  simp only [charSpan, Span.map, Span.shift, charOffset_append_add]

/-! ### Lines -/

/-- The number of lines that the text put before has ended. -/
def linesBefore : Nat := lineOf (before ++ text) before.length

def LineSpan.shift (s : LineSpan) (n : Nat) : LineSpan := ⟨s.first + n, s.last + n⟩

@[simp] theorem LineSpan.overlaps_shift (s t : LineSpan) (n : Nat) :
    (s.shift n).overlaps (t.shift n) = s.overlaps t := by
  simp [overlaps, shift]

theorem lineOf_append (n : Nat) :
    lineOf (before ++ text) (n + before.length) = lineOf text n + linesBefore before text := by
  rw [Nat.add_comm n, lineOf_append_add, Nat.add_comm (lineOf text n), linesBefore]

theorem lineSpan_append (start stop : Nat) :
    lineSpan (before ++ text) (start + before.length) (stop + before.length) =
      (lineSpan text start stop).shift (linesBefore before text) := by
  have hlast (h : start < stop) :
      stop + before.length - 1 = stop - 1 + before.length := by omega
  simp only [lineSpan, LineSpan.shift, lineOf_append, Nat.add_lt_add_iff_right,
    LineSpan.mk.injEq, true_and]
  split
  next h => rw [hlast h, lineOf_append, Nat.add_max_add_right]
  next => rw [Nat.add_max_add_right]

theorem closedLineSpan_append (start stop : Nat) :
    closedLineSpan (before ++ text) (start + before.length) (stop + before.length) =
      (closedLineSpan text start stop).shift (linesBefore before text) := by
  simp only [closedLineSpan, LineSpan.shift, lineOf_append, Nat.add_max_add_right]

end MarkdownPreview.Text
