import Mathlib.Data.List.Basic
import MarkdownPreview.Markdown.Document
import MarkdownPreview.Proofs.Syntax.BracketGreedy
import MarkdownPreview.Proofs.Writer.Constructs

/-! What bracket math does to a document. Its spans stand one after another between their
delimiters, without a blank line and clear of code and of math between dollar signs, and each ends
at the first closing delimiter that is not the end of an empty pair. A document with bracket math
has the decorations that it has without, less those inside a span, and besides these just the
decorations of the spans. -/

namespace MarkdownPreview.Writer

open Text Syntax
open Markdown (Event)

variable {source : List Char} {options : Options} {events : List Event} {s : Span}

/-! ### Spans -/

/-- The event stands for a code span, for a code block, or for math between dollar signs that is
decorated. -/
def KeepsMathOut (source : List Char) (options : Options) (e : Event) : Prop :=
  e.kind = .code ∨ e.kind = .start .fencedCode ∨ e.kind = .start .indentedCode ∨
    (e.kind = .inlineMath ∨ e.kind = .displayMath) ∧
      ∃ d marks, emit source options {} e = .ok (d :: marks)

theorem KeepsMathOut.excludedBy {e : Event} (h : KeepsMathOut source options e) :
    excludedBy source e = some e.span := by
  obtain hk | hk | hk | ⟨hk | hk, d, marks, hmarks⟩ := h <;>
    simp only [Writer.excludedBy, hk]
  · simp only [emit, hk] at hmarks
    exact if_pos (holdsDelimiters_of_mem hmarks List.mem_cons_self)
  · simp only [emit, hk] at hmarks
    exact if_pos (holdsDelimiters_of_mem hmarks List.mem_cons_self)

theorem mathSpans_unbroken {spans : List Span} (h : mathSpans source options events = .ok spans) :
    ∀ s ∈ spans, Unbroken source s := by
  rw [mathSpans_eq_ok_iff] at h
  split at h
  · exact bracketMath_unbroken h
  · simp [h]

/-- What a span of bracket math brings: its two delimiters hidden, its content styled, and the
symbols of its content. -/
def displayMath (source : List Char) (options : Options) (s : Span) : List Decoration :=
  [⟨charOffset source s.start, charOffset source (s.start + 2), .hide, none⟩,
    ⟨charOffset source (s.start + 2), charOffset source (s.stop - 2), .displayMath, none⟩,
    ⟨charOffset source (s.stop - 2), charOffset source s.stop, .hide, none⟩] ++
    mathSymbols source options ⟨s.start + 2, s.stop - 2⟩

/-- In a bracketed span, neither a delimiter nor the content is empty, so none of the three
decorations is missing. -/
theorem bracketMarks_eq (h : Bracketed source s) :
    bracketMarks source options s = displayMath source options s := by
  have hlt := start_add_four_lt h
  have hmark {bytes : Span} {kind : Decoration.Kind} (hne : bytes.start < bytes.stop) :
      mark source bytes kind =
        [⟨charOffset source bytes.start, charOffset source bytes.stop, kind, none⟩] := by
    rw [mark, if_neg]
    simpa [Span.isEmpty] using hne
  rw [bracketMarks, surround, bracketContent, hmark (by simp only; omega),
    hmark (by simp only; omega), hmark (by simp only; omega)]
  rfl

/-! ### Closing delimiters -/

theorem mathSpans_delimited {spans : List Span} (h : mathSpans source options events = .ok spans) :
    ∀ s ∈ spans, ∃ text body, OpensAt source s.start text ∧ Closes text body ∧
      s.stop = s.start + 4 + byteLength body := by
  intro s hs
  rw [mathSpans_eq_ok_iff] at h
  split at h
  · obtain ⟨later, hrounds⟩ := rounds_of_bracketMath h
    obtain ⟨-, hq, -⟩ := (hrounds.greedy.mem_iff s).1 hs
    obtain ⟨text, body, hopen, hcloses, hstop, -⟩ := hq.delimited
    exact ⟨text, body, hopen, hcloses, hstop⟩
  · rw [h] at hs
    exact absurd hs List.not_mem_nil

/-- A span of bracket math ends with the first closing delimiter behind its opener, with one
exception: a closing delimiter directly behind the opener makes an empty pair with it, and counts
as the beginning of the body. -/
theorem mathSpans_closed_first (source : List Char) (options : Options) (events : List Event)
    (hin : ∀ e ∈ events, Within source e.span) :
    ∃ spans, mathSpans source options events = .ok spans ∧ ∀ s ∈ spans,
      ∃ before body after, source = before ++ '\\' :: '[' :: (body ++ '\\' :: ']' :: after) ∧
        body ≠ [] ∧ s = ⟨byteLength before, byteLength before + 4 + byteLength body⟩ ∧
        ∀ inner, inner ++ ['\\', ']'] <+: body ++ ['\\', ']'] → inner = [] ∨ inner = body := by
  obtain ⟨spans, hspans, -⟩ := mathSpans_found options hin
  refine ⟨spans, hspans, fun s hs => ?_⟩
  obtain ⟨text, body, ⟨before, hsource, hstart⟩, hcloses, hstop⟩ := mathSpans_delimited hspans s hs
  obtain ⟨after, rfl⟩ := hcloses.closed
  rw [List.append_assoc] at hsource
  refine ⟨before, body, after, hsource, hcloses.ne_nil, ?_, fun inner hinner => ?_⟩
  · rw [hstart, ← hstop]
  · rw [or_iff_not_imp_left]
    intro hne
    have hbody : body <+: inner := hcloses.first inner hne (hinner.trans ⟨after, rfl⟩)
    have hlength := hinner.length_le
    rw [List.length_append, List.length_append] at hlength
    exact (hbody.eq_of_length_le (Nat.le_of_add_le_add_right hlength)).symm

theorem mathSpans_closed_first_between_openers :
    let source := "a\\[b\\[c\\] \\]".toList
    let events : List Event := [⟨.text, ⟨0, 4⟩⟩, ⟨.text, ⟨9, 12⟩⟩]
    (∀ e ∈ events, Within source e.span) ∧ mathSpans source {} events = .ok [⟨1, 9⟩] ∧
    ∃ spans, mathSpans source {} events = .ok spans ∧ ∀ s ∈ spans,
      ∃ before body after, source = before ++ '\\' :: '[' :: (body ++ '\\' :: ']' :: after) ∧
        body ≠ [] ∧ s = ⟨byteLength before, byteLength before + 4 + byteLength body⟩ ∧
        ∀ inner, inner ++ ['\\', ']'] <+: body ++ ['\\', ']'] → inner = [] ∨ inner = body :=
  ⟨by decide, by decide +kernel, mathSpans_closed_first _ _ _ (by decide)⟩

/-- Behind an empty pair, the exception swallows the text up to a later closing delimiter, which no
opener of its own begins. -/
theorem empty_pair_swallows_text :
    let source := "\\[\\] x \\]".toList
    let events := Markdown.readEvents ({} : Options).dialect source
    (∀ e ∈ events, Within source e.span) ∧ mathSpans source {} events = .ok [⟨0, 9⟩] ∧
      source = ['\\', '['] ++ ['\\', ']'] ++ [' ', 'x', ' '] ++ ['\\', ']'] := by
  decide +kernel

/-! ### Without bracket math -/

/-- What an event gives does not depend on whether bracket math is looked for. -/
theorem emitAll_latexBrackets (b : Bool) (w : Walk) (events : List Event) :
    emitAll source { options with latexBrackets := b } w events =
      emitAll source options w events := by
  induction events generalizing w with
  | nil => rfl
  | cons e rest ih =>
    have hemit : emit source { options with latexBrackets := b } w e =
        emit source options w e := rfl
    simp only [emitAll, hemit, ih]

theorem sortByStart_perm (ds : List Decoration) : (sortByStart ds).Perm ds := stableSort_perm _ ds

/-- The spans of bracket math follow one another, each from its opening to its closing delimiter
around a body without a blank line. None shares a byte with a code span, with a code block or with
math between dollar signs that is decorated. The decorations are those of the document without
bracket math, except what a span encloses, together with what every span brings, of which no other
span takes anything away. -/
theorem write_perm_without_bracketMath (source : List Char) (options : Options)
    (events : List Event) (hin : ∀ e ∈ events, Within source e.span) :
    ∃ spans plain ds, mathSpans source options events = .ok spans ∧
      write source { options with latexBrackets := false } events = .ok plain ∧
      write source options events = .ok ds ∧
      (spans.Pairwise fun s t => s.stop ≤ t.start) ∧ (∀ s ∈ spans, Unbroken source s) ∧
      (∀ s ∈ spans, ∀ e ∈ events, KeepsMathOut source options e → Apart e.span s) ∧
      (∀ s ∈ spans, ∀ t ∈ spans, s ≠ t → ∀ d ∈ displayMath source options s,
        (charSpan source t).encloses d.span = false) ∧
      ds.Perm
        (plain.filter (fun d => spans.all fun s => ! (charSpan source s).encloses d.span) ++
          spans.flatMap (displayMath source options)) := by
  obtain ⟨given, spans, hgiven, hspans, hwrite, hfound, -⟩ := write_eq options hin
  have hplain := write_of_emitAll rfl ((emitAll_latexBrackets false {} events).trans hgiven)
  have hmarks : spans.flatMap (bracketMarks source options) =
      spans.flatMap (displayMath source options) :=
    List.flatMap_congr fun s hs => bracketMarks_eq (hfound.bracketed s hs)
  refine ⟨spans, _, _, hspans, hplain, hwrite, hfound.ascending, mathSpans_unbroken hspans,
    fun s hs e he hout => apart_of_found hfound he hout.excludedBy hs,
    fun s hs t ht hne d hd => ?_, ?_⟩
  · obtain rfl | hapart := eq_or_of_pairwise (r := Apart) (fun _ _ h => h.symm)
      (hfound.ascending.imp apart_of_stop_le) hs ht
    · exact absurd rfl hne
    · rw [← Bool.not_eq_true, encloses_charSpan_iff]
      rw [← bracketMarks_eq (hfound.bracketed s hs)] at hd
      exact not_inside_of_apart options (hfound.bracketed s hs) hapart hd
  · rw [← hmarks, overlay_eq options hfound.bracketed hfound.ascending]
    refine (sortByStart_perm _).trans (.append ?_ (.refl _))
    exact ((sortByStart_perm given).filter _).symm

/-- Two spans of bracket math, a rule inside the first one, and between the two a code span that
holds the delimiters of a third. -/
theorem write_perm_without_bracketMath_code :
    let source := ['\\', '[', 'é', '-', '-', '-', '\\', ']', '`', '\\', '[', 'a', '\\', ']', '`',
      '\\', '[', '\\', 'p', 'i', '\\', ']']
    let options : Options := {}
    let events : List Event := [⟨.rule, ⟨4, 7⟩⟩, ⟨.code, ⟨9, 16⟩⟩]
    (∀ e ∈ events, Within source e.span) ∧
    ∃ spans plain ds, mathSpans source options events = .ok spans ∧
      write source { options with latexBrackets := false } events = .ok plain ∧
      write source options events = .ok ds ∧
      (spans.Pairwise fun s t => s.stop ≤ t.start) ∧ (∀ s ∈ spans, Unbroken source s) ∧
      (∀ s ∈ spans, ∀ e ∈ events, KeepsMathOut source options e → Apart e.span s) ∧
      (∀ s ∈ spans, ∀ t ∈ spans, s ≠ t → ∀ d ∈ displayMath source options s,
        (charSpan source t).encloses d.span = false) ∧
      ds.Perm
        (plain.filter (fun d => spans.all fun s => ! (charSpan source s).encloses d.span) ++
          spans.flatMap (displayMath source options)) :=
  ⟨by decide, write_perm_without_bracketMath _ _ _ (by decide)⟩

end MarkdownPreview.Writer
