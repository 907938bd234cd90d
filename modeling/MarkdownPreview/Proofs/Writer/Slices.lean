import MarkdownPreview.Proofs.Text.Occurrence
import MarkdownPreview.Writer.Emission

/-! Slices of the source and what is subtracted from their ends. A delimiter that was read off a
slice is no longer than the slice, and the slice no longer than its span, so that stepping back over
the delimiter cannot fail. Each decoration rule with a subtraction has here the form that it takes
once that is known. -/

namespace MarkdownPreview.Writer

open Text Syntax

variable {source : List Char} {bytes : Span}

/-! ### Slices -/

/-- Either the span has no slice or its slice is all that lies between its ends. -/
theorem raw_cases (source : List Char) (bytes : Span) : raw source bytes = [] ∨
    ∃ before after, source = before ++ raw source bytes ++ after ∧
      byteLength before = bytes.start ∧
      bytes.stop = bytes.start + byteLength (raw source bytes) := by
  cases h : byteSlice? source bytes with
  | none => exact .inl (by simp [raw, h])
  | some text =>
    have hraw : raw source bytes = text := by simp [raw, h]
    exact .inr (hraw ▸ byteSlice?_eq_some_iff.1 h)

theorem standsAt_raw (source : List Char) (bytes : Span) :
    StandsAt source bytes.start (raw source bytes) := by
  intro hne
  obtain h | ⟨before, after, hs, hb, -⟩ := raw_cases source bytes
  · exact absurd h hne
  · exact ⟨before, after, hs, hb⟩

theorem stop_eq_of_raw_ne_nil (h : raw source bytes ≠ []) :
    bytes.stop = bytes.start + byteLength (raw source bytes) := by
  obtain hnil | ⟨_, _, _, _, hstop⟩ := raw_cases source bytes
  · exact absurd hnil h
  · exact hstop

theorem byteLength_raw_le (source : List Char) (bytes : Span) :
    byteLength (raw source bytes) ≤ bytes.length := by
  obtain h | ⟨_, _, _, _, hstop⟩ := raw_cases source bytes
  · simp [h]
  · simp only [Span.length]
    omega

theorem byteLength_raw_le_stop (source : List Char) (bytes : Span) :
    byteLength (raw source bytes) ≤ bytes.stop :=
  Nat.le_trans (byteLength_raw_le source bytes) (Nat.sub_le _ _)

/-! ### Delimiter runs -/

/-- The class has only characters of one byte. -/
def OneByte (p : Char → Bool) : Prop := ∀ c, p c = true → c.utf8Size = 1

theorem oneByte_isEmphasisSign : OneByte isEmphasisSign := by
  intro c h
  simp only [isEmphasisSign, Bool.or_eq_true, beq_iff_eq] at h
  rcases h with rfl | rfl <;> rfl

theorem oneByte_beq {c : Char} (h : c.utf8Size = 1) : OneByte (· == c) := by
  intro d hd
  rw [beq_iff_eq.1 hd, h]

theorem take_runLength_isPrefix (p : Char → Bool) (most : Nat) (text : List Char) :
    text.take (runLength p most text) <+: text.takeWhile p := by
  have hle : runLength p most text ≤ (text.takeWhile p).length := Nat.min_le_right _ _
  apply List.prefix_of_prefix_length_le (List.take_prefix _ _) (List.takeWhile_prefix p)
  rw [List.length_take]
  omega

/-- A run of one-byte characters at the head of a text has as many bytes as characters. -/
theorem byteLength_take_runLength {p : Char → Bool} (hp : OneByte p) (most : Nat)
    (text : List Char) :
    byteLength (text.take (runLength p most text)) = runLength p most text := by
  have hle : runLength p most text ≤ (text.takeWhile p).length := Nat.min_le_right _ _
  rw [byteLength_eq_length, List.length_take, Nat.min_eq_left]
  · exact Nat.le_trans hle (List.takeWhile_prefix p).length_le
  · intro c hc
    exact hp c (List.all_eq_true.1 List.all_takeWhile c
      ((take_runLength_isPrefix p most text).subset hc))

/-- A character ends where a run of delimiters ends that opens an aligned span. -/
theorem boundary_opening (h : Aligned source bytes) {p : Char → Bool} (hp : OneByte p)
    (most : Nat) : Boundary source (bytes.start + runLength p most (raw source bytes)) := by
  by_cases hraw : raw source bytes = []
  · simpa [hraw, runLength] using h.1
  · have hstands := standsAt_raw source bytes
    rw [← List.take_append_drop (runLength p most (raw source bytes)) (raw source bytes)] at hstands
    have := hstands.boundary_inside (by rwa [List.take_append_drop])
    rwa [byteLength_take_runLength hp] at this

/-- The run of delimiters at the end of a span. -/
def closingRun (p : Char → Bool) (most : Nat) (text : List Char) : List Char :=
  (text.reverse.take (runLengthAtEnd p most text)).reverse

theorem byteLength_closingRun {p : Char → Bool} (hp : OneByte p) (most : Nat) (text : List Char) :
    byteLength (closingRun p most text) = runLengthAtEnd p most text := by
  rw [closingRun, byteLength_reverse]
  exact byteLength_take_runLength hp most text.reverse

theorem standsAt_closingRun {p : Char → Bool} (hp : OneByte p) (most : Nat) (source : List Char)
    (bytes : Span) : StandsAt source (bytes.stop - runLengthAtEnd p most (raw source bytes))
      (closingRun p most (raw source bytes)) := by
  by_cases hraw : raw source bytes = []
  · rw [hraw, closingRun, List.reverse_nil, List.take_nil]
    exact fun h => absurd rfl h
  · have hstop := stop_eq_of_raw_ne_nil hraw
    have hstands := standsAt_raw source bytes
    generalize raw source bytes = text at *
    have hsplit : (text.reverse.drop (runLengthAtEnd p most text)).reverse ++
        closingRun p most text = text := by
      rw [closingRun, ← List.reverse_append, List.take_append_drop, List.reverse_reverse]
    have hlength := congrArg byteLength hsplit
    rw [byteLength_append, byteLength_closingRun hp] at hlength
    rw [← hsplit] at hstands
    have hpos : bytes.stop - runLengthAtEnd p most text =
        bytes.start + byteLength (text.reverse.drop (runLengthAtEnd p most text)).reverse := by
      omega
    rw [hpos]
    exact hstands.right

/-- A character starts where a run of delimiters starts that closes an aligned span. -/
theorem boundary_closing (h : Aligned source bytes) {p : Char → Bool} (hp : OneByte p)
    (most : Nat) : Boundary source (bytes.stop - runLengthAtEnd p most (raw source bytes)) := by
  by_cases hrun : closingRun p most (raw source bytes) = []
  · rw [← byteLength_closingRun hp, hrun]
    exact h.2
  · exact (standsAt_closingRun hp most source bytes).boundary_start hrun

/-! ### Subtractions -/

theorem stepBack_of_le {offset length : Nat} (h : length ≤ offset) :
    stepBack offset length = .ok (offset - length) := if_pos h

theorem clampOffset_of_le {offset first last : Nat} (h : first ≤ last) :
    clampOffset offset first last = .ok (min (max offset first) last) := if_pos h

theorem contentSpan_of_le {closing : Nat} (opening : Nat) (h : closing ≤ bytes.stop) :
    contentSpan bytes opening closing = .ok ⟨bytes.start + opening, bytes.stop - closing⟩ := by
  simp only [contentSpan, stepBack_of_le h]
  rfl

theorem delimited_of_le {closing : Nat} (opening : Nat) (kind : Decoration.Kind)
    (h : closing ≤ bytes.stop) : delimited source bytes opening closing kind =
      .ok (surround source bytes ⟨bytes.start + opening, bytes.stop - closing⟩ kind) := by
  simp only [delimited, contentSpan_of_le opening h]
  rfl

theorem emphasis_eq (source : List Char) (bytes : Span) (isDelimiter : Char → Bool) (most : Nat)
    (kind : Decoration.Kind) :
    let text := raw source bytes
    let opening := runLength isDelimiter most text
    let closing := runLengthAtEnd isDelimiter opening text
    emphasis source bytes isDelimiter most kind =
      .ok (if opening = 0 ∨ byteLength text < opening + closing then mark source bytes kind
        else surround source bytes ⟨bytes.start + opening, bytes.stop - closing⟩ kind) := by
  intro text opening closing
  simp only [emphasis]
  split
  · rfl
  next h =>
    have hroom : opening + closing ≤ byteLength text := Nat.not_lt.1 (not_or.1 h).2
    have hle : closing ≤ bytes.stop :=
      Nat.le_trans (Nat.le_add_left closing opening)
        (Nat.le_trans hroom (byteLength_raw_le_stop source bytes))
    exact delimited_of_le opening kind hle

/-- Math with room for its delimiters is decorated around and inside its content. -/
theorem mathBetween_eq (source : List Char) (options : Options) (bytes : Span)
    (opening closing : Nat) (kind : Decoration.Kind) :
    mathBetween source options bytes opening closing kind =
      .ok (if holdsDelimiters bytes opening closing then
        surround source bytes ⟨bytes.start + opening, bytes.stop - closing⟩ kind ++
          mathSymbols source options ⟨bytes.start + opening, bytes.stop - closing⟩
        else []) := by
  simp only [mathBetween]
  split
  next h =>
    have hroom := of_decide_eq_true h
    simp only [Span.length] at hroom
    rw [contentSpan_of_le opening (by omega)]
    rfl
  · rfl

theorem codeSpan_eq (source : List Char) (bytes : Span) :
    let text := raw source bytes
    let opening := (text.takeWhile isBacktick).length
    let closing := runLengthAtEnd isBacktick opening text
    codeSpan source bytes =
      .ok (if opening = 0 ∨ byteLength text < opening + closing then mark source bytes .code
        else mark source bytes .code ++
          mark source ⟨bytes.start, bytes.start + opening⟩ .transparent ++
          mark source ⟨bytes.stop - closing, bytes.stop⟩ .transparent) := by
  intro text opening closing
  simp only [codeSpan]
  split
  · rfl
  next h =>
    have hroom : opening + closing ≤ byteLength text := Nat.not_lt.1 (not_or.1 h).2
    have hle : closing ≤ bytes.stop :=
      Nat.le_trans (Nat.le_add_left closing opening)
        (Nat.le_trans hroom (byteLength_raw_le_stop source bytes))
    rw [contentSpan_of_le opening hle]
    rfl

/-! ### Rules -/

theorem trailingIndent_le (before : List Char) : trailingIndent before ≤ before.length := by
  simp only [trailingIndent]
  split
  · exact Nat.le_refl _
  · split
    · simpa using (List.takeWhile_prefix (· == ' ') (l := before.reverse)).length_le
    · exact Nat.zero_le _

/-- An indentation ends where it is read. -/
theorem indentBefore_le (source : List Char) (pos : Nat) : indentBefore source pos ≤ pos := by
  simp only [indentBefore]
  cases h : takeBytes? source pos with
  | none => simp
  | some before =>
    obtain ⟨after, -, rfl⟩ := takeBytes?_eq_some_iff.1 h
    exact Nat.le_trans (trailingIndent_le before) (length_le_byteLength before)

theorem rule_eq (h : bytes.start ≤ byteLength source) :
    rule source bytes = .ok (mark source ⟨bytes.start - indentBefore source bytes.start,
      bytes.start + byteLength (withoutLineEnding (raw source bytes))⟩ .horizontalRule) := by
  rw [rule, if_neg (by omega), stepBack_of_le (indentBefore_le source bytes.start)]
  rfl

end MarkdownPreview.Writer
