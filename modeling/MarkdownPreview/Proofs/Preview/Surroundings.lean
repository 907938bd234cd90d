import MarkdownPreview.Proofs.Preview.Documents
import MarkdownPreview.Proofs.Writer.Constructs
import MarkdownPreview.Proofs.Writer.Surroundings

/-! Styling around bracket math in the preview. The reader's events are trees, so that every
construct has both of its ends, and its headings are on one line or underlined. A formula inside a
heading, emphasis, a link or an image leaves the decorations of the construct alone, but for those
that lie within the formula themselves. -/

namespace MarkdownPreview

open Text Syntax Writer
open Markdown (Event Tag Forest HeadingText)

variable {source : List Char} {options : Options} {span : Span} {tag : Tag}
  {before rest : List Event}

/-- An event of a document gives its decorations at its place in the stream. -/
theorem exists_emit_of_mem_readEvents {e : Event} (w : Walk)
    (he : e ∈ Markdown.readEvents options.dialect source) :
    ∃ marks, emit source options w e = .ok marks := by
  obtain ⟨marks, hmarks, -⟩ : ∃ marks, emit source options w e = .ok marks ∧
      AllFit source False marks :=
    emit_fits options (within_of_mem_readEvents he) False.elim False.elim
  exact ⟨marks, hmarks⟩

/-- A heading, emphasis, link or image of a document is closed behind the events inside it. Of the
decorations that its two ends give, the document has all that no formula encloses. A formula inside
the construct encloses none of them, unless emphasis has no other content, the text of a heading or
a link begins with the formula, or a link ends with it. -/
theorem construct_keeps_styling (options : Options) (source : List Char)
    (hsplit : Markdown.readEvents options.dialect source = before ++ ⟨.start tag, span⟩ :: rest)
    (htag : isStyled tag = true) :
    ∃ inner after opening closing spans, rest = inner ++ ⟨.stop tag, span⟩ :: after ∧
      Forest (fun _ _ => True) span inner ∧
      emit source options (before.foldl Walk.step {}) ⟨.start tag, span⟩ = .ok opening ∧
      emit source options ((before ++ ⟨.start tag, span⟩ :: inner).foldl Walk.step {})
        ⟨.stop tag, span⟩ = .ok closing ∧
      mathSpans source options (Markdown.readEvents options.dialect source) = .ok spans ∧
      ∀ d ∈ opening ++ closing,
        ((∀ s ∈ spans, ¬ Inside source s d) → d ∈ extract options source) ∧
        ∀ s ∈ spans, span.start ≤ s.start → s.stop ≤ span.stop → Inside source s d →
          Undercut source span s d tag := by
  obtain ⟨outer, hforest⟩ := readEvents_forest options.dialect source
  obtain ⟨⟨_, htext⟩, inner, after, rfl, hinner⟩ := hforest.closes hsplit
  have hevents : Markdown.readEvents options.dialect source =
      (before ++ ⟨.start tag, span⟩ :: inner) ++ ⟨.stop tag, span⟩ :: after := by
    rw [hsplit, List.append_assoc, List.cons_append]
  have hfirst : ⟨.start tag, span⟩ ∈ Markdown.readEvents options.dialect source :=
    hsplit ▸ List.mem_append_right before List.mem_cons_self
  have hlast : ⟨.stop tag, span⟩ ∈ Markdown.readEvents options.dialect source :=
    hevents ▸ List.mem_append_right _ List.mem_cons_self
  obtain ⟨opening, hopening⟩ := exists_emit_of_mem_readEvents (before.foldl Walk.step {}) hfirst
  obtain ⟨closing, hclosing⟩ := exists_emit_of_mem_readEvents
    ((before ++ ⟨.start tag, span⟩ :: inner).foldl Walk.step {}) hlast
  obtain ⟨ds, spans, hds, hspans, hwrite, hfound, -⟩ :=
    write_eq options fun e he => within_of_mem_readEvents he
  refine ⟨inner, after, opening, closing, spans, rfl, hinner.mono fun _ _ _ => trivial, hopening,
    hclosing, hspans, fun d hd => ⟨fun hfree => ?_, fun s hs hstart hstop hin => ?_⟩⟩
  · have hgiven : d ∈ ds := by
      rw [mem_emitAll hds]
      obtain hd | hd := List.mem_append.1 hd
      · exact ⟨before, _, _, opening, hsplit, hopening, hd⟩
      · exact ⟨_, _, after, closing, hevents, hclosing, hd⟩
    rw [extract, hwrite, mem_sortByStart, mem_overlay options hfound.bracketed hfound.ascending]
    exact .inl ⟨hgiven, hfree⟩
  · have hbracketed := hfound.bracketed s hs
    have hend : Boundary source span.stop := (aligned_of_mem_readEvents hfirst).2
    obtain hd | hd := List.mem_append.1 hd
    · exact undercut_of_start htag hbracketed hend (fun level htag => htext level (htag ▸ rfl))
        hstart hstop hopening hd hin
    · rw [List.foldl_append] at hclosing
      exact undercut_of_stop htag hbracketed hend hinner hstart hstop hclosing hd hin

/-- Strong emphasis of a word and a formula, which encloses none of its decorations. -/
theorem construct_keeps_styling_strong :
    let source := "**a \\[x\\]**".toList
    let options : Options := {}
    let span : Span := ⟨0, 11⟩
    let before : List Event := [⟨.start .paragraph, span⟩]
    let rest : List Event := [⟨.text, ⟨2, 4⟩⟩, ⟨.text, ⟨5, 7⟩⟩, ⟨.text, ⟨8, 9⟩⟩,
      ⟨.stop .strong, span⟩, ⟨.stop .paragraph, span⟩]
    Markdown.readEvents options.dialect source =
      before ++ ⟨.start .strong, span⟩ :: rest ∧ isStyled .strong = true ∧
    ∃ inner after opening closing spans, rest = inner ++ ⟨.stop .strong, span⟩ :: after ∧
      Forest (fun _ _ => True) span inner ∧
      emit source options (before.foldl Walk.step {}) ⟨.start .strong, span⟩ = .ok opening ∧
      emit source options ((before ++ ⟨.start .strong, span⟩ :: inner).foldl Walk.step {})
        ⟨.stop .strong, span⟩ = .ok closing ∧
      mathSpans source options (Markdown.readEvents options.dialect source) = .ok spans ∧
      ∀ d ∈ opening ++ closing,
        ((∀ s ∈ spans, ¬ Inside source s d) → d ∈ extract options source) ∧
        ∀ s ∈ spans, span.start ≤ s.start → s.stop ≤ span.stop → Inside source s d →
          Undercut source span s d .strong := by
  intro source options span before rest
  have hsplit : Markdown.readEvents options.dialect source =
      before ++ ⟨.start .strong, span⟩ :: rest := by decide +kernel
  exact ⟨hsplit, rfl, construct_keeps_styling options source hsplit rfl⟩

/-- A heading with a formula and nothing else is no longer styled as one. -/
theorem heading_unstyled_around_formula :
    let source := "# \\[x\\]".toList
    let options : Options := {}
    let span : Span := ⟨0, 7⟩
    Markdown.readEvents options.dialect source = [⟨.start (.heading 1), span⟩, ⟨.text, ⟨3, 5⟩⟩,
      ⟨.text, ⟨6, 7⟩⟩, ⟨.stop (.heading 1), span⟩] ∧
    mathSpans source options (Markdown.readEvents options.dialect source) = .ok [⟨2, 7⟩] ∧
    emit source options {} ⟨.start (.heading 1), span⟩ =
      .ok [⟨0, 2, .hide, none⟩, ⟨2, 7, .heading, none⟩, ⟨2, 7, .heading1, none⟩] ∧
    ∀ d ∈ extract options source, d.kind ≠ .heading ∧ d.kind ≠ .heading1 := by
  decide +kernel

end MarkdownPreview
