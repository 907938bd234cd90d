import MarkdownPreview.Proofs.Markdown.QuoteForest
import MarkdownPreview.Proofs.Syntax.QuoteMarkers
import MarkdownPreview.Proofs.Writer.Origin
import MarkdownPreview.Proofs.Writer.Sequence

/-! The quote markers that a run decorates. They are those of the outermost quotations, each looked
for in the slice of its quotation; whether the marker of an inner quotation is found depends on what
stands before it on its line. -/

namespace MarkdownPreview.Writer

open Text Syntax
open Markdown (Event EventKind MarkerAt outermostQuotes)

variable {source : List Char} {options : Options} {d : Decoration}

/-! ### Runs -/

theorem eq_start_of_blockquote_mem {kind : EventKind} (h : .blockquote ∈ eventKinds kind) :
    kind = .start .blockquote := by
  unfold eventKinds at h
  split at h
  case h_4 level =>
    obtain h | h := List.mem_cons.1 h
    · cases h
    · obtain h | h := List.mem_cons.1 h
      · cases h
      · simp only [Decoration.Kind.ofHeadingLevel?, Option.mem_toList] at h
        split at h <;> cases h
  case h_6 => rfl
  all_goals exact absurd h (by decide)

/-- The quote markers of a run are those of its outermost quotations. -/
theorem mem_emitAll_blockquote {w : Walk} {events : List Event} {ds : List Decoration}
    (h : emitAll source options w events = .ok ds) : d ∈ ds ∧ d.kind = .blockquote ↔
      ∃ span ∈ outermostQuotes w.quotes.depth events, d ∈ blockquote source span := by
  induction events generalizing w ds with
  | nil =>
    obtain rfl := Except.ok.inj h
    simp [outermostQuotes]
  | cons e rest ih =>
    obtain ⟨now, later, hnow, hlater, rfl⟩ := emitAll_cons_eq_ok_iff.1 h
    have hdepth := counts_quotes.step w e
    rw [List.mem_append, or_and_right, ih hlater, hdepth, outermostQuotes]
    simp only [opensQuote, closesQuote, beq_iff_eq]
    by_cases hstart : e.kind = .start .blockquote
    · -- an inner quotation gives nothing of its own
      have hkind : ∀ d ∈ blockquote source e.span, d.kind = .blockquote := fun d hd =>
        List.mem_singleton.1 (blockquote_ofKinds d hd)
      simp only [emit, hstart, QuoteDepth.enter] at hnow
      obtain rfl := Except.ok.inj hnow
      simp only [hstart, if_true]
      by_cases hzero : w.quotes.depth = 0
      · simp [hzero, and_iff_left_of_imp (hkind d)]
      · simp [hzero]
    · have hnone : ¬ (d ∈ now ∧ d.kind = .blockquote) := by
        rintro ⟨hd, hkind⟩
        exact hstart (eq_start_of_blockquote_mem (hkind ▸ emit_ofKinds hnow d hd))
      by_cases hstop : e.kind = .stop .blockquote
      · simp [hstop, hnone]
      · simp [hstart, hstop, hnone]

/-! ### Markers of one quotation -/

/-- A quotation with one of its markers is cut in two before it. -/
theorem exists_raw_eq {bytes : Span} {pos : Nat} (ha : Aligned source bytes)
    (hpos : bytes.contains pos = true) (hmarker : MarkerAt source pos) :
    bytes.start + byteLength (raw source ⟨bytes.start, pos⟩) = pos ∧
      ∃ rest, raw source bytes = raw source ⟨bytes.start, pos⟩ ++ '>' :: rest := by
  rw [Span.contains_iff] at hpos
  obtain ⟨upto, behind, hsource, rfl⟩ := hmarker
  obtain ⟨text, htext⟩ := ha.exists_byteSlice? (by omega)
  obtain ⟨before, after, hslice, hstart, hstop⟩ := byteSlice?_eq_some_iff.1 htext
  rw [List.append_assoc] at hslice
  obtain ⟨inside, rfl⟩ : before <+: upto :=
    isPrefix_of_byteLength_le ⟨_, hslice.symm⟩ ⟨_, hsource.symm⟩ (by omega)
  rw [byteLength_append] at hpos
  have hrest : text ++ after = (inside ++ ['>']) ++ behind := by
    rw [hslice, List.append_assoc, List.append_cancel_left_eq] at hsource
    rw [hsource, List.append_assoc, List.singleton_append]
  obtain ⟨rest, hinside⟩ : inside ++ ['>'] <+: text := by
    refine isPrefix_of_byteLength_le ⟨_, hrest.symm⟩ (List.prefix_append text after) ?_
    rw [byteLength_append, show byteLength ['>'] = 1 from rfl]
    omega
  have hbefore : byteSlice? source ⟨bytes.start, byteLength (before ++ inside)⟩ = some inside :=
    byteSlice?_eq_some_iff.2 ⟨before, '>' :: behind, hsource, hstart, by
      rw [byteLength_append, hstart]⟩
  rw [raw, hbefore, Option.getD_some, byteLength_append, hstart, raw, htext, Option.getD_some,
    ← hinside]
  exact ⟨rfl, rest, by rw [List.append_assoc, List.singleton_append]⟩

theorem aligned_of_mem_quoteMarkers {bytes marker : Span}
    (hm : marker ∈ quoteMarkers (raw source bytes)) :
    Aligned source (marker.shift bytes.start) := by
  have hne : raw source bytes ≠ [] := by
    intro hnil
    rw [hnil] at hm
    cases hm
  obtain ⟨before, run, after, hraw, rfl⟩ := quoteMarkersFrom_piece hm
  rw [flatten_linesOf] at hraw
  have hstands := standsAt_raw source bytes
  rw [hraw] at hne hstands
  have hstop := hstands.boundary_inside hne
  rw [List.append_assoc] at hne hstands
  have hstart := hstands.boundary_inside hne
  rw [byteLength_append] at hstop
  rw [Aligned, Span.shift]
  refine ⟨?_, ?_⟩
  · rwa [show 0 + byteLength before + bytes.start = bytes.start + byteLength before by omega]
  · rwa [show 0 + byteLength before + byteLength run + bytes.start =
      bytes.start + (byteLength before + byteLength run) by omega]

theorem blockquote_inside {bytes : Span} (hd : d ∈ blockquote source bytes) :
    Inside source bytes d := by
  obtain ⟨marker, hm, hd⟩ := List.mem_flatMap.1 hd
  have hwithin := within_of_mem_quoteMarkersFrom hm
  have hraw := byteLength_raw_le source bytes
  obtain ⟨hlt, -⟩ := mem_mark.1 hd
  rw [flatten_linesOf] at hwithin
  simp only [Span.length, Span.shift] at hraw hlt
  exact mark_inside hd (Nat.le_add_left _ _) (by simp only [Span.shift]; omega)

theorem contains_of_mem_blockquote {bytes : Span} {pos : Nat} (ha : Aligned source bytes)
    (hd : d ∈ blockquote source bytes) (hpos : d.span.contains (charOffset source pos) = true) :
    bytes.contains pos = true := by
  obtain ⟨hstart, hstop⟩ := blockquote_inside hd
  simp only [Span.contains_iff, Decoration.span] at hpos ⊢
  rw [← charOffset_le_iff ha.1, ← Nat.not_le, ← charOffset_le_iff ha.2]
  omega

/-- The decorated bytes of a quotation are those of its runs of markers. -/
theorem blockquote_contains_iff_exists {bytes : Span} {pos : Nat} :
    (∃ d ∈ blockquote source bytes, d.span.contains (charOffset source pos) = true) ↔
      ∃ marker ∈ quoteMarkers (raw source bytes),
        (marker.shift bytes.start).contains pos = true := by
  constructor
  · rintro ⟨d, hd, hpos⟩
    obtain ⟨marker, hm, hd⟩ := List.mem_flatMap.1 hd
    exact ⟨marker, hm, (mark_contains_iff _ (aligned_of_mem_quoteMarkers hm)).1 ⟨d, hd, hpos⟩⟩
  · rintro ⟨marker, hm, hpos⟩
    obtain ⟨d, hd, hpos⟩ :=
      (mark_contains_iff .blockquote (aligned_of_mem_quoteMarkers hm)).2 hpos
    exact ⟨d, List.mem_flatMap.2 ⟨marker, hm, hd⟩, hpos⟩

/-- A marker in a quotation is decorated exactly when there are only markers before it on its line,
behind the indentation. -/
theorem blockquote_contains_iff {bytes : Span} {pos : Nat} (ha : Aligned source bytes)
    (hpos : bytes.contains pos = true) (hmarker : MarkerAt source pos) :
    (∃ d ∈ blockquote source bytes, d.span.contains (charOffset source pos) = true) ↔
      QuoteMarks ((lastLine (raw source ⟨bytes.start, pos⟩)).dropWhile isSpaceOrTab) := by
  obtain ⟨hbefore, rest, hraw⟩ := exists_raw_eq ha hpos hmarker
  rw [blockquote_contains_iff_exists, ← quoteMarkers_contains_iff _ rest, ← hraw]
  refine exists_congr fun marker => and_congr_right fun _ => ?_
  simp only [Span.contains_iff, Span.shift]
  omega

end MarkdownPreview.Writer
