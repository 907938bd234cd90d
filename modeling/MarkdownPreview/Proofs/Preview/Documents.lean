import MarkdownPreview.Preview
import MarkdownPreview.Proofs.Markdown.BlockEvents
import MarkdownPreview.Proofs.Writer.Totality

/-! The events of a document. They are the reader's, with byte offsets for its characters: trees
that lie in the source between characters, with the delimiters of other constructs before or behind
a fenced code block. So writing their decorations does not fail. -/

namespace MarkdownPreview

open Text Syntax Writer
open Markdown (Event Forest HeadingText ReadFenced)

variable {source before text after : List Char} {options : Options} {span bytes : Span}

/-! ### Bytes -/

/-- The slice over characters that stand in the source. -/
theorem raw_map_byteOffset (hsource : source = before ++ text ++ after)
    (hstart : span.start = before.length) (hstop : span.stop = before.length + text.length) :
    (span.map (byteOffset source)).start = byteLength before ∧
      raw source (span.map (byteOffset source)) = text := by
  have hbefore : byteOffset source before.length = byteLength before := by
    rw [hsource, List.append_assoc, byteOffset_append]
  have hend : byteOffset source (before.length + text.length) =
      byteLength before + byteLength text := by
    rw [hsource, ← List.length_append, byteOffset_append, byteLength_append]
  rw [Span.map_start, hstart]
  refine ⟨hbefore, ?_⟩
  rw [raw, byteSlice?_eq_some_iff.2 ⟨before, after, hsource, ?_, ?_⟩, Option.getD_some]
  · rw [Span.map_start, hstart, hbefore]
  · rw [Span.map_stop, Span.map_start, hstart, hstop, hbefore, hend]

theorem within_of_mem_readEvents {e : Event}
    (he : e ∈ Markdown.readEvents options.dialect source) : Within source e.span := by
  obtain ⟨chars, -, rfl⟩ := List.mem_map.1 he
  exact ⟨byteOffset_le source _, byteOffset_le source _⟩

theorem aligned_of_mem_readEvents {e : Event}
    (he : e ∈ Markdown.readEvents options.dialect source) : Aligned source e.span := by
  obtain ⟨chars, -, rfl⟩ := List.mem_map.1 he
  exact ⟨boundary_byteOffset source _, boundary_byteOffset source _⟩

/-! ### Constructs -/

/-- The events of a document are trees, and its headings have the text of one. -/
theorem readEvents_forest (d : Markdown.Dialect) (source : List Char) :
    ∃ outer, Forest (fun _ e => ∀ level, e.kind = .start (.heading level) →
      HeadingText (raw source e.span)) outer (Markdown.readEvents d source) := by
  have h := Markdown.readOutline_blockForest d source
    (Markdown.readOutline d source).definitions ⟨0, 0⟩
  refine ⟨_, h.map fun _ e hheading level hkind => ?_⟩
  obtain ⟨before, text, after, hsource, hstart, hstop, htext⟩ := hheading _ hkind rfl
  exact (raw_map_byteOffset hsource hstart hstop).2 ▸ htext

/-- Where fenced code begins in a document, its text and its end follow, and the delimiters before
and after it lie before and behind it. -/
theorem readEvents_fence {d : Markdown.Dialect} {events rest : List Event}
    (hsplit : Markdown.readEvents d source = events ++ ⟨.start .fencedCode, bytes⟩ :: rest) :
    ∃ span texts later, bytes = span.map (byteOffset source) ∧ ReadFenced source span texts ∧
      rest = texts.map (·.mapSpan (byteOffset source)) ++ ⟨.stop .fencedCode, bytes⟩ :: later ∧
      (∀ e ∈ events, e.kind.hidesSyntax = true → e.span.stop ≤ bytes.start) ∧
      ∀ e ∈ later, e.kind.hidesSyntax = true → bytes.stop ≤ e.span.start := by
  obtain ⟨stop, hblocks⟩ := Markdown.readOutline_blocksIn d source
  have hrow := hblocks.fenceRow (Markdown.readOutline d source).definitions
  obtain ⟨chars, more, hchars, rfl, hmore⟩ := List.map_eq_append_iff.1 hsplit
  obtain ⟨⟨kind, span⟩, others, rfl, hstart, rfl⟩ := List.map_eq_cons_iff.1 hmore
  obtain ⟨rfl, rfl⟩ := Event.mk.inj hstart
  obtain ⟨texts, after, rfl, hread, hbefore, hafter⟩ := hrow.cut hchars
  refine ⟨span, texts, after.map (·.mapSpan (byteOffset source)), rfl, hread, ?_, ?_, ?_⟩
  · rw [List.map_append, List.map_cons]
    rfl
  · refine List.forall_mem_map.2 fun e he hhides => ?_
    exact byteOffset_mono source (hbefore e he hhides)
  · refine List.forall_mem_map.2 fun e he hhides => ?_
    exact byteOffset_mono source (hafter e he hhides)

/-! ### Decorations -/

/-- Without bracket math, a document has the decorations that its events give. -/
theorem exists_emitAll_readEvents (hoff : options.latexBrackets = false) (source : List Char) :
    ∃ ds, emitAll source options {} (Markdown.readEvents options.dialect source) = .ok ds ∧
      ∀ d, d ∈ extract options source ↔ d ∈ ds := by
  obtain ⟨ds, -, hds, -⟩ := write_eq options fun e
    (he : e ∈ Markdown.readEvents options.dialect source) => within_of_mem_readEvents he
  refine ⟨ds, hds, fun d => ?_⟩
  rw [extract, write_of_emitAll hoff hds, mem_sortByStart]

end MarkdownPreview
