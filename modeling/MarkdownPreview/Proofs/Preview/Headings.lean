import MarkdownPreview.Proofs.Decoration.Reveal
import MarkdownPreview.Proofs.Preview.Documents

/-! Headings in the preview. Nothing ties the number signs or the underline of a heading to its
styles except the lines that they are on. Number signs before the content begin a line that the
content continues, so that both give way together. What stands behind the content may be on a later
line, and a selection which starts there leaves the styles alone. -/

namespace MarkdownPreview

open Text Syntax Writer Decoration
open Markdown (Event)

variable {source : List Char} {options : Options} {events : List Event}
  {selections : List Selection} {bytes : Span} {level : Nat} {m h d : Decoration}

/-! ### Pieces -/

theorem not_endsLine_of_marker {c : Char} (hc : c = '#' ∨ isSpaceOrTab c = true)
    (rest : List Char) : endsLine c rest = false := by
  simp only [isSpaceOrTab, Bool.or_eq_true, beq_iff_eq] at hc
  obtain rfl | rfl | rfl := hc <;> rfl

/-- A mark over a piece of text in which no line ends is on the line on which it ends. -/
theorem lineOf_eq_of_mem_mark {pos : Nat} {piece : List Char} {k : Kind}
    (hstands : StandsAt source pos piece) (hpiece : ∀ c ∈ piece, ∀ rest, endsLine c rest = false)
    (hd : d ∈ mark source ⟨pos, pos + byteLength piece⟩ k) {p : Nat} (hstart : d.start ≤ p)
    (hstop : p ≤ d.stop) : lineOf source p = lineOf source d.stop := by
  have hne : piece ≠ [] := by
    rintro rfl
    have := (mem_mark.1 hd).1
    simp at this
  have hlength := hstands.charOffset_stop hne
  obtain ⟨hdstart, hdstop, -⟩ := ends_of_mem_mark hd
  obtain ⟨before, after, rfl, rfl⟩ := hstands hne
  rw [List.append_assoc] at *
  simp only [hlength, charOffset_append] at hdstart hdstop
  rw [hdstop] at hstop ⊢
  rw [lineOf_eq_of_mem_piece after hpiece (hdstart ▸ hstart) hstop,
    lineOf_eq_of_mem_piece after hpiece (Nat.le_add_right _ _) (Nat.le_refl _)]

/-- A marker of a heading either leads up to the content, with no line end on the way, or is behind
the content. -/
theorem heading_sides (hm : m ∈ heading source bytes level) (hhide : m.kind = .hide)
    (hh : h ∈ heading source bytes level) (hstyle : h.kind ∈ headingStyles level) :
    (m.stop = h.start ∧ ∀ p, m.start ≤ p → p ≤ m.stop → lineOf source p = lineOf source m.stop) ∨
    h.stop ≤ m.start := by
  have hplain : m.kind ∉ headingStyles level := fun hm =>
    (revealScope_of_mem_headingStyles hm).2 hhide
  have hshown : h.kind ∉ [Kind.hide] := fun hh =>
    (revealScope_of_mem_headingStyles hstyle).2 (List.mem_singleton.1 hh)
  have hstands := standsAt_raw source bytes
  simp only [heading] at hm hh
  split at hm
  next hlines =>
    rw [if_pos hlines] at hh
    split at hm
    · simp at hm
    next s hs =>
      simp only [hs, markPieces, List.flatMap_nil, List.nil_append, List.append_nil,
        List.mem_append, mem_flatMap_mark] at hm hh
      -- the underline is the only marker, and all of the content is before it
      have hm := (hm.resolve_right fun h => hplain h.1).2
      have hh := (hh.resolve_left fun h => hshown h.1).2
      rw [(ends_of_mem_mark hm).1, (ends_of_mem_mark hh).2.1]
      refine .inr (charOffset_mono source ?_)
      simp only [byteLength_append]
      omega
  next hline =>
    rw [if_neg hline] at hh
    split at hm
    · simp at hm
    next a ha =>
      simp only [ha, markPieces, List.flatMap_nil, List.nil_append, List.append_nil,
        List.mem_append, mem_flatMap_mark] at hm hh
      have hm := hm.resolve_right fun h => hplain h.1
      have hh := (hh.resolve_left fun h => h.elim (fun h => hshown h.1) fun h => hshown h.1).2
      obtain ⟨-, hm⟩ | ⟨-, hm⟩ := hm
      · rw [← atxHeading?_text ha, AtxHeading.text] at hstands
        refine .inl ⟨?_, fun p => lineOf_eq_of_mem_mark hstands.left.left.left.right
          (fun c hc => not_endsLine_of_marker (mem_marker_of_atxHeading? ha c hc)) hm⟩
        rw [(ends_of_mem_mark hm).2.1, (ends_of_mem_mark hh).1, byteLength_append, Nat.add_assoc]
      · rw [(ends_of_mem_mark hm).1, (ends_of_mem_mark hh).2.1]
        refine .inr (charOffset_mono source ?_)
        simp only [byteLength_append]
        omega

/-! ### Lines -/

theorem revealed_iff_by_line {ds : List Decoration} (hscope : d.kind.revealScope = .line) :
    Revealed source selections ds d ↔ RevealedByLine source selections d := by
  simp only [Revealed, hscope]

/-- What reveals a decoration all of which is on the line where another one starts reveals that one
as well. -/
theorem revealedByLine_of_lead (h : RevealedByLine source selections m) (hm : m.start < m.stop)
    (hline : ∀ p, m.start ≤ p → p ≤ m.stop → lineOf source p = lineOf source d.start) :
    RevealedByLine source selections d := by
  obtain ⟨line, ⟨p, hp, hpline⟩, hcovered⟩ := h
  obtain ⟨hstart, hstop⟩ := hp.bounds hm
  refine ⟨line, ⟨d.start, d.span.occupies_start, ?_⟩, hcovered⟩
  rw [← hpline]
  exact (hline p hstart (Nat.le_trans hstop (Nat.sub_le _ _))).symm

/-- What reveals a decoration behind another one reveals that one as well, if both end on the same
line. -/
theorem revealedByLine_of_last_line (h : RevealedByLine source selections m)
    (hm : m.start < m.stop) (hd : d.start < d.stop) (hbehind : d.stop ≤ m.start)
    (hline : lineOf source (m.stop - 1) = lineOf source (d.stop - 1)) :
    RevealedByLine source selections d := by
  obtain ⟨line, ⟨p, hp, hpline⟩, hcovered⟩ := h
  obtain ⟨hstart, hstop⟩ := hp.bounds hm
  refine ⟨line, ⟨d.stop - 1, Span.occupies_last hd, ?_⟩, hcovered⟩
  rw [← hpline]
  refine Nat.le_antisymm (lineOf_mono source ?_) (hline ▸ lineOf_mono source hstop)
  exact Nat.le_trans (Nat.sub_le _ _) (Nat.le_trans hbehind hstart)

/-- A selection that reveals a decoration behind another one, but starts on the last line of the
other one or above it, covers a position on that line. -/
theorem revealedByLine_of_selection {s : Selection} (hs : s ∈ selections)
    (h : RevealedByLine source [s] m) (hm : m.start < m.stop) (hd : d.start < d.stop)
    (hbehind : d.stop ≤ m.start)
    (hle : lineOf source (s.clamped source.length).start ≤ lineOf source (d.stop - 1)) :
    RevealedByLine source selections d := by
  obtain ⟨line, ⟨p, hp, hpline⟩, q, ⟨t, ht, hq⟩, hqline⟩ := h
  obtain rfl := List.mem_singleton.1 ht
  obtain ⟨hstart, -⟩ := hp.bounds hm
  have hbelow : lineOf source (d.stop - 1) ≤ lineOf source q := by
    rw [hqline, ← hpline]
    exact lineOf_mono source (Nat.le_trans (Nat.sub_le _ _) (Nat.le_trans hbehind hstart))
  have hfirst : (t.clamped source.length).start ≤ q := hq.1
  obtain ⟨r, hsr, hrq, hrline⟩ := exists_lineOf_eq hfirst hle hbelow
  exact ⟨_, ⟨d.stop - 1, Span.occupies_last hd, rfl⟩, r,
    ⟨t, hs, hsr, Nat.le_trans hrq hq.2⟩, hrline⟩

/-! ### Headings -/

/-- `m` hides a piece of a heading's syntax, and `h` styles the content of the same heading. -/
def OfOneHeading (source : List Char) (events : List Event) (m h : Decoration) : Prop :=
  ∃ e ∈ events, ∃ level, e.kind = .start (.heading level) ∧ m ∈ heading source e.span level ∧
    m.kind = .hide ∧ h ∈ heading source e.span level ∧ h.kind ∈ headingStyles level

/-- The marker leads up to the content, or ends on the last line of the content, or is revealed by a
selection that starts on that line or above it. -/
def ReachesContent (options : Options) (source : List Char) (selections : List Selection)
    (m h : Decoration) : Prop :=
  m.start < h.start ∨ lineOf source (m.stop - 1) = lineOf source (h.stop - 1) ∨
    ∃ s ∈ selections, m ∉ (preview options source [s]).get .hide ∧
      lineOf source (s.clamped source.length).start ≤ lineOf source (h.stop - 1)

theorem extract_fits (options : Options) (source : List Char) :
    ∀ d ∈ extract options source, d.start ≤ d.stop ∧ d.stop ≤ source.length := by
  obtain ⟨ds, hds, -, hfit, -⟩ :=
    write_sorted_fits source options _ fun _ => within_of_mem_readEvents
  rw [extract, hds]
  exact hfit

/-- A heading whose marker gives way to selections does not keep its styles, except where all of
these selections start below the content. -/
theorem heading_gives_way_with_marker (options : Options) (source : List Char)
    (selections : List Selection) (m h : Decoration)
    (hone : OfOneHeading source (Markdown.readEvents options.dialect source) m h)
    (hm : m ∈ extract options source) (hgone : m ∉ (preview options source selections).get .hide)
    (hreach : ReachesContent options source selections m h) :
    h ∉ (preview options source selections).get h.kind := by
  obtain ⟨e, -, level, -, hmark, hhide, hstyle, hkind⟩ := hone
  have hscope : m.kind.revealScope = .line := by rw [hhide]; rfl
  have hfits : AllFit source True (heading source e.span level) := heading_fits level
  have hms := (hfits m hmark).nonempty trivial
  have hhs := (hfits h hstyle).nonempty trivial
  have hrevealed (S : List Selection) (hS : m ∉ (preview options source S).get .hide) :
      RevealedByLine source S m := by
    rw [← hhide, preview, mem_get_filter_iff (extract_fits options source),
      revealed_iff_by_line hscope] at hS
    exact Classical.not_not.1 fun hnot => hS ⟨hm, hnot⟩
  rw [preview, mem_get_filter_iff (extract_fits options source),
    revealed_iff_by_line (revealScope_of_mem_headingStyles hkind).1]
  refine fun hdrawn => hdrawn.2 ?_
  obtain ⟨hmeet, hline⟩ | hbehind := heading_sides hmark hhide hstyle hkind
  · exact revealedByLine_of_lead (hrevealed selections hgone) hms fun p hp hpm =>
      hmeet ▸ hline p hp hpm
  · obtain hlead | hlast | ⟨s, hs, hgone, hle⟩ := hreach
    · omega
    · exact revealedByLine_of_last_line (hrevealed selections hgone) hms hhs hbehind hlast
    · exact revealedByLine_of_selection hs (hrevealed [s] hgone) hms hhs hbehind hle

/-- A heading of two lines with its underline, and a selection from the underline back to the second
line. -/
theorem heading_gives_way_with_marker_underlined :
    let source := ['A', '\n', 'B', '\n', '-']
    let options : Options := {}
    let selections : List Selection := [⟨4, 2⟩]
    let m : Decoration := ⟨4, 5, .hide, none⟩
    let h : Decoration := ⟨0, 3, .heading2, none⟩
    OfOneHeading source (Markdown.readEvents options.dialect source) m h ∧
    m ∈ extract options source ∧ m ∉ (preview options source selections).get .hide ∧
    ReachesContent options source selections m h ∧
    h ∉ (preview options source selections).get h.kind := by
  intro source options selections m h
  have hone : OfOneHeading source (Markdown.readEvents options.dialect source) m h :=
    ⟨⟨.start (.heading 2), ⟨0, 5⟩⟩, by decide +kernel, 2, rfl, by decide +kernel, rfl,
      by decide +kernel, by decide⟩
  have hm : m ∈ extract options source := by decide +kernel
  have hgone : m ∉ (preview options source selections).get .hide := by decide +kernel
  have hreach : ReachesContent options source selections m h :=
    .inr (.inr ⟨⟨4, 2⟩, by decide, hgone, by decide⟩)
  exact ⟨hone, hm, hgone, hreach, heading_gives_way_with_marker _ _ _ _ _ hone hm hgone hreach⟩

/-- With the cursor on the underline, the underline is shown raw, and the content above it is still
drawn as a heading. -/
theorem heading_drawn_over_raw_underline :
    let source := ['A', '\n', '=']
    let options : Options := {}
    let m : Decoration := ⟨2, 3, .hide, none⟩
    let h : Decoration := ⟨0, 1, .heading, none⟩
    OfOneHeading source (Markdown.readEvents options.dialect source) m h ∧
    m ∈ extract options source ∧ m ∉ (preview options source [.caret 2]).get .hide ∧
    h ∈ (preview options source [.caret 2]).get .heading := by
  intro source options m h
  have hone : OfOneHeading source (Markdown.readEvents options.dialect source) m h :=
    ⟨⟨.start (.heading 1), ⟨0, 3⟩⟩, by decide +kernel, 1, rfl, by decide +kernel, rfl,
      by decide +kernel, by decide⟩
  exact ⟨hone, by decide +kernel, by decide +kernel, by decide +kernel⟩

end MarkdownPreview
