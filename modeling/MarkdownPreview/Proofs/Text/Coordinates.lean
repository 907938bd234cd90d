import Mathlib.Data.Nat.Basic
import Mathlib.Order.Monotone.Defs
import MarkdownPreview.Proofs.Text.Occurrence

/-! The two coordinates of a text beside its UTF-8 form. The character offset of a byte offset
counts the characters that have all of their bytes before it, and a span of bytes between characters
is sent to the span of the characters that these bytes encode. -/

namespace MarkdownPreview.Text

variable {text : List Char} {bytes : Span}

/-! ### Bytes -/

theorem size_utf8Encode (text : List Char) : text.utf8Encode.size = byteLength text := by
  induction text with
  | nil => rw [List.utf8Encode_nil, byteLength_nil, ByteArray.size_empty]
  | cons c cs ih =>
    rw [List.utf8Encode_cons, ByteArray.size_append, ih, List.utf8Encode_singleton,
      List.size_toByteArray, String.length_utf8EncodeChar, byteLength_cons]

/-- The bytes of a piece of text are those from where it starts to where it ends. -/
theorem extract_utf8Encode (before piece after : List Char) :
    (before ++ piece ++ after).utf8Encode.extract (byteLength before)
      (byteLength before + byteLength piece) = piece.utf8Encode := by
  rw [List.append_assoc, List.utf8Encode_append, List.utf8Encode_append, ← size_utf8Encode,
    ← size_utf8Encode, ← Nat.add_zero (ByteArray.size before.utf8Encode), Nat.add_assoc,
    Nat.zero_add, ByteArray.extract_append_size_add]
  exact ByteArray.extract_append_eq_left rfl

theorem byteLength_take_le (text : List Char) (n : Nat) :
    byteLength (text.take n) ≤ byteLength text := by
  have hsplit := byteLength_append (text.take n) (text.drop n)
  rw [List.take_append_drop] at hsplit
  omega

/-! ### Characters counted -/

/-- Before a byte offset there are the characters that end there or further ahead. -/
theorem charOffset_eq_countP (text : List Char) (b : Nat) :
    charOffset text b =
      (List.range text.length).countP fun i => byteLength (text.take (i + 1)) ≤ b := by
  induction text generalizing b with
  | nil => rfl
  | cons c cs ih =>
    rw [List.length_cons, List.range_succ_eq_map, List.countP_cons, List.countP_map, charOffset]
    by_cases hc : c.utf8Size ≤ b
    · rw [if_pos hc, ih, if_pos (by simpa using hc)]
      congr 1
      refine List.countP_congr fun i _ => ?_
      rw [Function.comp, decide_eq_true_iff, decide_eq_true_iff, List.take_succ_cons,
        byteLength_cons]
      omega
    · -- no later character ends before the first one
      rw [if_neg hc, if_neg (by simpa using hc), Nat.add_zero]
      refine (List.countP_eq_zero.2 fun i _ => ?_).symm
      rw [Function.comp, decide_eq_true_iff, List.take_succ_cons, byteLength_cons]
      omega

/-! ### Slices -/

/-- Between characters, a slice by bytes is the slice over the corresponding characters. -/
theorem charSlice?_charSpan {piece : List Char} (h : byteSlice? text bytes = some piece) :
    charSlice? text (charSpan text bytes) = some piece := by
  obtain ⟨before, after, rfl, hstart, hstop⟩ := byteSlice?_eq_some_iff.1 h
  have hfirst : charOffset (before ++ piece ++ after) bytes.start = before.length := by
    rw [← hstart, List.append_assoc, charOffset_append]
  have hlast : charOffset (before ++ piece ++ after) bytes.stop = (before ++ piece).length := by
    rw [hstop, ← hstart, ← byteLength_append, charOffset_append]
  rw [charSlice?, charSpan, Span.map_start, Span.map_stop, hfirst, hlast, if_pos (by simp)]
  simp

/-- The character offset of a byte offset is the number of characters that lie wholly within the
bytes before it, which is all of them past the end. Between characters, the slice over the
corresponding character offsets is the text that the bytes encode, and a span that has bytes has
characters. -/
theorem charOffset_slices (text : List Char) :
    (∀ b, charOffset text b = (List.range text.length).countP fun i =>
      (text.take (i + 1)).utf8Encode.size ≤ min b text.utf8Encode.size) ∧
    Monotone (charOffset text) ∧
    ∀ bytes, Aligned text bytes → bytes.start ≤ bytes.stop →
      (charSlice? text (charSpan text bytes)).map List.utf8Encode =
        some (text.utf8Encode.extract bytes.start bytes.stop) ∧
      (bytes.start < bytes.stop → (charSpan text bytes).start < (charSpan text bytes).stop) := by
  refine ⟨fun b => ?_, fun a b => charOffset_mono text, fun bytes h hle => ⟨?_, charOffset_lt h.2⟩⟩
  · rw [charOffset_eq_countP]
    refine List.countP_congr fun i _ => ?_
    have hinside := byteLength_take_le text (i + 1)
    rw [decide_eq_true_iff, decide_eq_true_iff, size_utf8Encode, size_utf8Encode]
    omega
  · obtain ⟨piece, hpiece⟩ := h.exists_byteSlice? hle
    obtain ⟨before, after, htext, hstart, hstop⟩ := byteSlice?_eq_some_iff.1 hpiece
    rw [charSlice?_charSpan hpiece, Option.map_some, htext, hstop, ← hstart, extract_utf8Encode]

/-- One character of four bytes between two others. -/
theorem charOffset_slices_wide :
    let text := "é🌍b".toList
    let bytes : Span := ⟨2, 6⟩
    Aligned text bytes ∧ bytes.start < bytes.stop ∧
      (charSlice? text (charSpan text bytes)).map List.utf8Encode =
        some (text.utf8Encode.extract bytes.start bytes.stop) ∧
      (charSpan text bytes).start < (charSpan text bytes).stop := by
  have haligned : Aligned "é🌍b".toList ⟨2, 6⟩ := by decide
  have hslice := (charOffset_slices "é🌍b".toList).2.2 ⟨2, 6⟩ haligned (by decide)
  exact ⟨haligned, by decide, hslice.1, hslice.2 (by decide)⟩

end MarkdownPreview.Text
