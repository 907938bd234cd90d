import MarkdownPreview.Proofs.Preview.Documents
import MarkdownPreview.Proofs.Writer.Quotations

/-! The markers of quotations in the preview. A quotation in no other one gets a decoration for each
of its lines, which is to reach the markers of the quotations inside it. It does not reach them
all. -/

namespace MarkdownPreview

open Text Syntax Writer
open Markdown (outermostQuotes readEvents_quoteForest)

variable {source : List Char} {options : Options} {bytes : Span}

/-- The quote markers of a document are those of its outermost quotations. -/
theorem mem_extract_blockquote (hoff : options.latexBrackets = false) {d : Decoration} :
    d ∈ extract options source ∧ d.kind = .blockquote ↔
      ∃ span ∈ outermostQuotes 0 (Markdown.readEvents options.dialect source),
        d ∈ blockquote source span := by
  obtain ⟨ds, hds, hextract⟩ := exists_emitAll_readEvents hoff source
  rw [hextract]
  exact mem_emitAll_blockquote hds

/-- Without bracket math, each quotation begins with a marker and is in a quotation that is in no
other one. The marker is decorated exactly when on its line in that quotation, behind the
indentation, there are only markers before it, with at most one space or tab after each. -/
theorem quotation_marker_decorated_iff (hoff : options.latexBrackets = false)
    (hquote : ⟨.start .blockquote, bytes⟩ ∈ Markdown.readEvents options.dialect source) :
    (raw source bytes).head? = some '>' ∧
      ∃ outer, ⟨.start .blockquote, outer⟩ ∈ Markdown.readEvents options.dialect source ∧
        outer.encloses bytes = true ∧
        (∀ other, ⟨.start .blockquote, other⟩ ∈ Markdown.readEvents options.dialect source →
          other.encloses outer = true → other = outer) ∧
        ((∃ d ∈ extract options source, d.kind = .blockquote ∧
            d.span.contains (charOffset source bytes.start) = true) ↔
          QuoteMarks ((lastLine (raw source ⟨outer.start, bytes.start⟩)).dropWhile
            isSpaceOrTab)) := by
  obtain ⟨stop, hforest⟩ := readEvents_quoteForest options.dialect source
  obtain ⟨hmarker, -, hlt, -⟩ := hforest.bounds hquote
  obtain ⟨outer, houter, hstart, hstop⟩ := hforest.exists_mem_outermostQuotes hquote
  have houterquote := Markdown.mem_of_mem_outermostQuotes houter
  have haligned {span : Span}
      (h : span ∈ outermostQuotes 0 (Markdown.readEvents options.dialect source)) :
      Aligned source span := aligned_of_mem_readEvents (Markdown.mem_of_mem_outermostQuotes h)
  have hinside : outer.contains bytes.start = true := Span.contains_iff.2 ⟨hstart, by omega⟩
  refine ⟨?_, outer, houterquote, ?_, fun other => hforest.eq_of_encloses houter, ?_⟩
  · have hbytes : Aligned source bytes := aligned_of_mem_readEvents hquote
    obtain ⟨hbefore, rest, hraw⟩ := exists_raw_eq hbytes
      (Span.contains_iff.2 ⟨Nat.le_refl _, hlt⟩) hmarker
    have hnil : raw source ⟨bytes.start, bytes.start⟩ = [] := by
      rw [← byteLength_eq_zero_iff]
      omega
    rw [hraw, hnil]
    rfl
  · exact Span.encloses_iff.2 ⟨hstart, hstop⟩
  · rw [← blockquote_contains_iff (haligned houter) hinside hmarker]
    constructor
    · rintro ⟨d, hd, hkind, hpos⟩
      obtain ⟨span, hspan, hd⟩ := (mem_extract_blockquote hoff).1 ⟨hd, hkind⟩
      have hcontains := contains_of_mem_blockquote (haligned hspan) hd hpos
      obtain rfl := hforest.eq_of_overlap hspan houter hcontains hinside
      exact ⟨d, hd, hpos⟩
    · rintro ⟨d, hd, hpos⟩
      obtain ⟨hd, hkind⟩ := (mem_extract_blockquote hoff).2 ⟨outer, houter, hd⟩
      exact ⟨d, hd, hkind, hpos⟩

/-- Quotations in one another, in an item of a list, with the markers of all three together. -/
theorem quotation_marker_decorated_iff_nested :
    let source := "- > > > x".toList
    let options : Options := { latexBrackets := false }
    let bytes : Span := ⟨6, 9⟩
    options.latexBrackets = false ∧
    ⟨.start .blockquote, bytes⟩ ∈ Markdown.readEvents options.dialect source ∧
    (raw source bytes).head? = some '>' ∧
      ∃ outer, ⟨.start .blockquote, outer⟩ ∈ Markdown.readEvents options.dialect source ∧
        outer.encloses bytes = true ∧
        (∀ other, ⟨.start .blockquote, other⟩ ∈ Markdown.readEvents options.dialect source →
          other.encloses outer = true → other = outer) ∧
        ((∃ d ∈ extract options source, d.kind = .blockquote ∧
            d.span.contains (charOffset source bytes.start) = true) ↔
          QuoteMarks ((lastLine (raw source ⟨outer.start, bytes.start⟩)).dropWhile
            isSpaceOrTab)) := by
  intro source options bytes
  have hquote : ⟨.start .blockquote, bytes⟩ ∈ Markdown.readEvents options.dialect source := by
    decide +kernel
  exact ⟨rfl, hquote, quotation_marker_decorated_iff rfl hquote⟩

/-- With one space more before it, the marker of an inner quotation stays visible. -/
theorem inner_quotation_marker_visible :
    let source := ">  > x".toList
    let options : Options := { latexBrackets := false }
    ⟨.start .blockquote, ⟨3, 6⟩⟩ ∈ Markdown.readEvents options.dialect source ∧
      (raw source ⟨3, 6⟩).head? = some '>' ∧
      ¬ ∃ d ∈ extract options source, d.kind = .blockquote ∧
        d.span.contains (charOffset source 3) = true := by
  decide +kernel

end MarkdownPreview
