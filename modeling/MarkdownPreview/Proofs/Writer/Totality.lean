import MarkdownPreview.Proofs.Writer.BracketLayer
import MarkdownPreview.Proofs.Writer.Links

/-! The writer gets through every event stream that stays within its source, whether or not the
events are balanced or in order. No rule starts outside the source, no scan is sent past its end,
nothing is taken from an offset that is too small for it, and no link's text ends before it starts.
The decorations come in order and fit the document. -/

namespace MarkdownPreview.Writer

open Text Syntax
open Markdown (Event)

variable {source : List Char} {aligned : Prop}

/-! ### Events -/

theorem oneByte_isTilde : OneByte isTilde := oneByte_beq rfl

theorem displayKind_ne_mathSymbol (source : List Char) (bytes : Span) :
    displayKind source bytes ≠ .mathSymbol := by
  simp only [displayKind]
  split <;> decide

/-- One event within the source is written, and what it gives fits. -/
theorem emit_fits (options : Options) {w : Walk} {e : Event} (hin : Within source e.span)
    (ha : aligned → Aligned source e.span) (hw : aligned → w.AlignedIn source) :
    ∃ ds, emit source options w e = .ok ds ∧ AllFit source aligned ds := by
  have hlink : ∃ ds, (w.links.head?.map (finishLink source)).getD (.ok []) = .ok ds ∧
      AllFit source aligned ds := by
    cases hf : w.links.head? with
    | none => exact ⟨[], rfl, allFit_nil⟩
    | some f => exact finishLink_fits fun h => hw h f (List.mem_of_mem_head? hf)
  simp only [emit]
  split
  · exact emphasis_fits oneByte_isEmphasisSign 1 (by decide) ha
  · exact emphasis_fits oneByte_isEmphasisSign 2 (by decide) ha
  · exact emphasis_fits oneByte_isTilde 2 (by decide) ha
  · exact ⟨_, rfl, heading_fits _⟩
  · exact ⟨_, rfl, listItem_fits⟩
  · refine ⟨_, rfl, ?_⟩
    split
    · exact blockquote_fits
    · exact allFit_nil
  · exact ⟨_, rfl, fencedBlock_fits ha⟩
  · exact ⟨_, rfl, indentedBlock_fits⟩
  · exact hlink
  · exact hlink
  · exact codeSpan_fits ha
  · exact dollarMath_fits options 1 (by decide) ha
  · exact dollarMath_fits options 2 (displayKind_ne_mathSymbol _ _) ha
  · exact rule_fits hin ha
  · exact ⟨_, rfl, taskMarker_fits _⟩
  · exact ⟨_, rfl, allFit_nil⟩

theorem emitAll_fits (options : Options) {events : List Event} {w : Walk}
    (hin : ∀ e ∈ events, Within source e.span)
    (ha : aligned → ∀ e ∈ events, Aligned source e.span) (hw : aligned → w.AlignedIn source) :
    ∃ ds, emitAll source options w events = .ok ds ∧ AllFit source aligned ds := by
  induction events generalizing w with
  | nil => exact ⟨[], rfl, allFit_nil⟩
  | cons e rest ih =>
    obtain ⟨hine, hinrest⟩ := List.forall_mem_cons.1 hin
    obtain ⟨now, hnow, hfit⟩ := emit_fits options hine
      (fun h => ha h e List.mem_cons_self) hw
    obtain ⟨later, hlater, hfits⟩ := ih hinrest
      (fun h d hd => ha h d (List.mem_cons_of_mem e hd))
      (fun h => (hw h).step (ha h e List.mem_cons_self))
    exact ⟨now ++ later, emitAll_cons_eq_ok_iff.2 ⟨now, later, hnow, hlater, rfl⟩,
      hfit.append hfits⟩

/-! ### Excluded spans -/

theorem span_eq_of_excludedBy {e : Event} {s : Span} (h : excludedBy source e = some s) :
    s = e.span := by
  simp only [excludedBy] at h
  split at h
  case h_4 | h_5 =>
    split at h
    · exact (Option.some.inj h).symm
    · simp at h
  case h_6 => simp at h
  all_goals exact (Option.some.inj h).symm

/-- The excluded spans are those of code and of the math that was written, where they are not
empty. -/
theorem mem_excludedSpans {events : List Event} {s : Span} :
    s ∈ excludedSpans source events ↔
      (∃ e ∈ events, excludedBy source e = some s) ∧ s.isEmpty = false := by
  rw [excludedSpans, ExcludedSpans.mem_foldl_add, List.mem_filterMap]
  simp

/-! ### Runs -/

theorem mathSpans_eq_ok_iff {options : Options} {events : List Event} {spans : List Span} :
    mathSpans source options events = .ok spans ↔
      if options.latexBrackets then
        bracketMath source (excludedSpans source events) = .ok spans
      else spans = [] := by
  simp only [mathSpans]
  split
  · cases bracketMath source (excludedSpans source events) with
    | error overrun => simp
    | ok found => simp only [Except.ok.injEq]
  · rw [Except.ok.injEq, eq_comm]

/-- The spans of bracket math in a run whose events stay within the source. -/
theorem mathSpans_found (options : Options) {events : List Event}
    (hin : ∀ e ∈ events, Within source e.span) :
    ∃ spans, mathSpans source options events = .ok spans ∧
      Found source (excludedSpans source events) 0 spans := by
  simp only [mathSpans]
  split
  · have hex : ∀ s ∈ excludedSpans source events, s.stop ≤ byteLength source := by
      intro s hs
      obtain ⟨⟨e, he, hse⟩, -⟩ := mem_excludedSpans.1 hs
      rw [span_eq_of_excludedBy hse]
      exact (hin e he).2
    obtain ⟨spans, hrun, hfound⟩ := bracketMath_found hex
    exact ⟨spans, by rw [hrun], hfound⟩
  · exact ⟨[], rfl, .nil⟩

theorem pairwise_sortByStart (ds : List Decoration) :
    (sortByStart ds).Pairwise fun a b => a.start ≤ b.start := by
  refine (pairwise_stableSort ?_ ?_ ds).imp of_decide_eq_true
  · intro a b c hab hbc
    simp only [decide_eq_true_eq] at *
    omega
  · intro a b
    simp only [decide_eq_true_eq]
    omega

theorem mem_sortByStart {ds : List Decoration} {d : Decoration} :
    d ∈ sortByStart ds ↔ d ∈ ds := mem_stableSort

/-- A run whose events stay within the source, with its parts: what the events give, the spans of
bracket math, and the one laid over the other. -/
theorem write_eq (options : Options) {events : List Event}
    (hin : ∀ e ∈ events, Within source e.span) :
    ∃ ds spans, emitAll source options {} events = .ok ds ∧
      mathSpans source options events = .ok spans ∧
      write source options events = .ok (sortByStart (overlay source options spans ds)) ∧
      Found source (excludedSpans source events) 0 spans ∧
      AllFit source (∀ e ∈ events, Aligned source e.span) ds := by
  obtain ⟨ds, hds, hfit⟩ := emitAll_fits options (w := {}) hin id
    (fun _ f hf => absurd hf (List.not_mem_nil))
  obtain ⟨spans, hspans, hfound⟩ := mathSpans_found options hin
  refine ⟨ds, spans, hds, hspans, ?_, hfound, hfit⟩
  have hlay := foldlM_layMath options hfound.bracketed ds
  simp only [write, hds, hspans]
  change (spans.foldlM (layMath source options) ds >>= fun ds => .ok (sortByStart ds)) = _
  rw [hlay]
  rfl

/-- Without bracket math, the writer puts in order what the events give. -/
theorem write_of_emitAll {options : Options} {events : List Event} {ds : List Decoration}
    (hoff : options.latexBrackets = false) (h : emitAll source options {} events = .ok ds) :
    write source options events = .ok (sortByStart ds) := by
  simp only [write, h, mathSpans, hoff]
  rfl

/-- A stream of events within the source, in whatever order, gives decorations in order of their
start. Each lies in the document, and only math symbols have a replacement. If all spans of events
start and stop between characters, no decoration is empty. -/
theorem write_sorted_fits (source : List Char) (options : Options) (events : List Event)
    (hin : ∀ e ∈ events, Within source e.span) :
    ∃ ds, write source options events = .ok ds ∧
      (ds.Pairwise fun a b => a.start ≤ b.start) ∧
      (∀ d ∈ ds, d.start ≤ d.stop ∧ d.stop ≤ source.length) ∧
      (∀ d ∈ ds, d.replacement.isSome = true ↔ d.kind = .mathSymbol) ∧
      ((∀ e ∈ events, Aligned source e.span) → ∀ d ∈ ds, d.start < d.stop) := by
  obtain ⟨ds, spans, -, -, hwrite, hfound, hfit⟩ := write_eq options hin
  have hall := overlay_fits options hfound.bracketed hfit
  refine ⟨_, hwrite, pairwise_sortByStart _, fun d hd => ?_, fun d hd => ?_, fun h d hd => ?_⟩
  · exact ⟨(hall d (mem_sortByStart.1 hd)).ordered, (hall d (mem_sortByStart.1 hd)).inside⟩
  · exact (hall d (mem_sortByStart.1 hd)).replaced
  · exact (hall d (mem_sortByStart.1 hd)).nonempty h

/-- A link closed before any was opened, emphasis after a character of two bytes, and a rule. -/
theorem write_sorted_fits_unbalanced :
    let source := ['é', '*', 'x', '*', '\n', '-', '-', '-']
    let events : List Event :=
      [⟨.stop .link, ⟨5, 2⟩⟩, ⟨.start .emphasis, ⟨2, 5⟩⟩, ⟨.rule, ⟨6, 9⟩⟩]
    (∀ e ∈ events, Within source e.span) ∧ (∀ e ∈ events, Aligned source e.span) ∧
    ∃ ds, write source {} events = .ok ds ∧
      (ds.Pairwise fun a b => a.start ≤ b.start) ∧
      (∀ d ∈ ds, d.start ≤ d.stop ∧ d.stop ≤ source.length) ∧
      (∀ d ∈ ds, d.replacement.isSome = true ↔ d.kind = .mathSymbol) ∧
      ((∀ e ∈ events, Aligned source e.span) → ∀ d ∈ ds, d.start < d.stop) :=
  ⟨by decide, by decide, write_sorted_fits _ _ _ (by decide)⟩

end MarkdownPreview.Writer
