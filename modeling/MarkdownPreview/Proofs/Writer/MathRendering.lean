import MarkdownPreview.Proofs.Latex.Rendering
import MarkdownPreview.Proofs.Writer.Constructs

/-! The two ways to a rendered formula. The symbols that a run gives for math are counted in
characters of the document and are put over it one by one; a formula on its own is drawn in one pass
over its text. Put into the text of the formula, the symbols of the document give what the pass
gives. -/

namespace MarkdownPreview.Writer

open Text Syntax
open Markdown (Event)

variable {source : List Char} {options : Options} {events : List Event} {spans : List Span}
  {content : Span} {given ds marks : List Decoration} {d : Decoration}

/-! ### Runs that get through -/

/-- A run that gets through, with its parts: what the events give, the spans of bracket math, and
the one laid over the other. -/
theorem exists_of_write_eq_ok (h : write source options events = .ok ds)
    (hspans : mathSpans source options events = .ok spans) :
    Found source (excludedSpans source events) 0 spans ∧
      ∃ given, emitAll source options {} events = .ok given ∧
        ds = sortByStart (overlay source options spans given) := by
  have hfound : Found source (excludedSpans source events) 0 spans := by
    rw [mathSpans_eq_ok_iff] at hspans
    split at hspans
    · exact found_of_bracketMath hspans
    · exact hspans ▸ .nil
  refine ⟨hfound, ?_⟩
  cases hgiven : emitAll source options {} events with
  | error err =>
    simp only [write, hgiven] at h
    cases h
  | ok given =>
    have hlay := foldlM_layMath options hfound.bracketed given
    simp only [write, hgiven, hspans] at h
    change (spans.foldlM (layMath source options) given >>= fun ds => .ok (sortByStart ds)) = _ at h
    rw [hlay] at h
    exact ⟨given, rfl, (Except.ok.inj h).symm⟩

/-! ### Formulas -/

/-- A formula that a run writes, with its content and the decorations that it gives: between dollar
signs that it has room for, or between the delimiters of bracket math. -/
inductive Formula (source : List Char) (options : Options) (events : List Event)
    (spans : List Span) : Span → List Decoration → Prop
  | inline {before after : List Event} {e : Event} {marks : List Decoration}
      (hsplit : events = before ++ e :: after) (hk : e.kind = .inlineMath)
      (hroom : holdsDelimiters e.span (dollarRuns source e.span 1).1
        (dollarRuns source e.span 1).2 = true)
      (hmarks : emit source options (before.foldl Walk.step {}) e = .ok marks) :
      Formula source options events spans (dollarContent source e.span 1) marks
  | display {before after : List Event} {e : Event} {marks : List Decoration}
      (hsplit : events = before ++ e :: after) (hk : e.kind = .displayMath)
      (hroom : holdsDelimiters e.span (dollarRuns source e.span 2).1
        (dollarRuns source e.span 2).2 = true)
      (hmarks : emit source options (before.foldl Walk.step {}) e = .ok marks) :
      Formula source options events spans (dollarContent source e.span 2) marks
  | bracket {s : Span} {marks : List Decoration} (hs : s ∈ spans)
      (hmarks : layMath source options [] s = .ok marks) :
      Formula source options events spans (bracketContent s) marks

/-- A formula is a construct that has its content as extent, and gives the symbols of the content
besides what hides its delimiters and styles it. -/
theorem Formula.construct (hfound : Found source (excludedSpans source events) 0 spans)
    (h : Formula source options events spans content marks) :
    ∃ home kind, Construct source options events spans home content marks ∧ kind ≠ .mathSymbol ∧
      marks = surround source home content kind ++ mathSymbols source options content := by
  cases h with
  | @inline before after e _ hsplit hk hroom hmarks =>
    have hextent : ownExtent source e = dollarContent source e.span 1 := by
      simp only [ownExtent, hk]
    refine ⟨e.span, .inlineMath, hextent ▸ .event hsplit hmarks, by decide, ?_⟩
    simp only [emit, hk, dollarMath_of_room hroom] at hmarks
    exact (Except.ok.inj hmarks).symm
  | @display before after e _ hsplit hk hroom hmarks =>
    have hextent : ownExtent source e = dollarContent source e.span 2 := by
      simp only [ownExtent, hk]
    refine ⟨e.span, displayKind source e.span, hextent ▸ .event hsplit hmarks,
      displayKind_ne_mathSymbol _ _, ?_⟩
    simp only [emit, hk, dollarMath_of_room hroom] at hmarks
    exact (Except.ok.inj hmarks).symm
  | @bracket s _ hs hmarks =>
    rw [layMath_of_bracketed (hfound.bracketed s hs)] at hmarks
    obtain rfl := Except.ok.inj hmarks
    exact ⟨s, .displayMath, .bracket hs, by decide, rfl⟩

/-! ### Symbols -/

/-- The symbols among decorations. -/
def symbolsOf (ds : List Decoration) : List Decoration := ds.filter (·.kind == .mathSymbol)

theorem symbolsOf_surround (bytes content : Span) {kind : Decoration.Kind}
    (hk : kind ≠ .mathSymbol) :
    symbolsOf (surround source bytes content kind ++ mathSymbols source options content) =
      mathSymbols source options content := by
  have hnone : symbolsOf (surround source bytes content kind) = [] := by
    refine List.filter_eq_nil_iff.2 fun d hd => ?_
    simp only [surround, List.mem_append, mem_mark] at hd
    rcases hd with (⟨-, rfl⟩ | ⟨-, rfl⟩) | ⟨-, rfl⟩ <;> simp [hk]
  have hall : symbolsOf (mathSymbols source options content) =
      mathSymbols source options content :=
    List.filter_eq_self.2 fun d hd => beq_iff_eq.2 (mathSymbols_inside options content hd).1
  calc symbolsOf (surround source bytes content kind ++ mathSymbols source options content)
      = symbolsOf (surround source bytes content kind) ++
          symbolsOf (mathSymbols source options content) := List.filter_append _ _
    _ = mathSymbols source options content := by rw [hnone, hall, List.nil_append]

/-- What a symbol replaces, and by what. -/
def symbolEdit (d : Decoration) : Span × List Char := (d.span, d.replacement.getD [])

/-- The symbols of a content follow one another, and put into its text they give what the text is
drawn as. -/
theorem mathSymbols_render (hsubst : options.substituteLatex = true) {text : List Char}
    (htext : byteSlice? source content = some text) :
    (mathSymbols source options content).Pairwise (fun d e => d.stop ≤ e.start) ∧
      Latex.splice (charOffset source content.start)
        ((mathSymbols source options content).map symbolEdit) text = Latex.renderUnicode text := by
  have hraw : raw source content = text := by rw [raw, htext, Option.getD_some]
  rw [mathSymbols, if_pos hsubst, hraw]
  constructor
  · exact (Latex.follow_findSubstitutions text _).ascending.map _ fun _ _ h => h
  · rw [List.map_map]
    exact Latex.splice_findSubstitutions text _

/-- Let a document be written with its LaTeX rendered, and let the content of a formula in it start
and stop between characters. The symbols that the formula gives are decorations of the document.
They lie in the content, one after another, and replacing in the text of the content the characters
of each by what it draws gives the rendering of that text. -/
theorem formula_symbols_render (source : List Char) (options : Options) (events : List Event)
    {ds marks : List Decoration} {spans : List Span} {content : Span}
    (hsubst : options.substituteLatex = true) (hds : write source options events = .ok ds)
    (hspans : mathSpans source options events = .ok spans)
    (hformula : Formula source options events spans content marks)
    (ha : Aligned source content) (hle : content.start ≤ content.stop) :
    ∃ text, byteSlice? source content = some text ∧
      (∀ d ∈ symbolsOf marks, d ∈ ds ∧ d.replacement.isSome = true ∧ d.start < d.stop ∧
        Inside source content d) ∧
      (symbolsOf marks).Pairwise (fun d e => d.stop ≤ e.start) ∧
      Latex.splice (charOffset source content.start) ((symbolsOf marks).map symbolEdit) text =
        Latex.renderUnicode text := by
  obtain ⟨hfound, given, hgiven, rfl⟩ := exists_of_write_eq_ok hds hspans
  obtain ⟨home, kind, hconstruct, hk, hmarks⟩ := hformula.construct hfound
  obtain ⟨text, htext⟩ := ha.exists_byteSlice? hle
  obtain ⟨hascending, hrender⟩ := mathSymbols_render hsubst htext
  have hsymbols : symbolsOf marks = mathSymbols source options content :=
    hmarks ▸ symbolsOf_surround home content hk
  rw [hsymbols]
  refine ⟨text, htext, fun d hd => ?_, hascending, hrender⟩
  obtain ⟨hsymbol, hreplaced, hlt, hin⟩ := mathSymbols_inside options content hd
  have hmem : d ∈ marks := hmarks ▸ List.mem_append_right _ hd
  have hown : inOwnership d.kind = true := by simp [hsymbol, inOwnership, Decoration.Kind.owners]
  have hlaid := hconstruct.mem_overlay hgiven hfound hmem hown hlt
  exact ⟨mem_sortByStart.2 hlaid, hreplaced, hlt, hin⟩

/-- A power and a Greek letter between dollar signs, after a character of two bytes. -/
theorem formula_symbols_render_inline :
    let source := ['é', '$', 'x', '^', '2', '\\', 'p', 'i', '$']
    let options : Options := {}
    let events : List Event := [⟨.inlineMath, ⟨2, 10⟩⟩]
    let marks : List Decoration := [⟨1, 2, .hide, none⟩, ⟨2, 8, .inlineMath, none⟩,
      ⟨8, 9, .hide, none⟩, ⟨3, 5, .mathSymbol, some ['²']⟩, ⟨5, 8, .mathSymbol, some ['π']⟩]
    let content : Span := ⟨3, 9⟩
    ∃ ds, write source options events = .ok ds ∧ mathSpans source options events = .ok [] ∧
      Formula source options events [] content marks ∧ Aligned source content ∧
      ∃ text, byteSlice? source content = some text ∧
        (∀ d ∈ symbolsOf marks, d ∈ ds ∧ d.replacement.isSome = true ∧ d.start < d.stop ∧
          Inside source content d) ∧
        (symbolsOf marks).Pairwise (fun d e => d.stop ≤ e.start) ∧
        Latex.splice (charOffset source content.start) ((symbolsOf marks).map symbolEdit) text =
          Latex.renderUnicode text := by
  have hmarks : emit ['é', '$', 'x', '^', '2', '\\', 'p', 'i', '$'] {} {}
      ⟨.inlineMath, ⟨2, 10⟩⟩ = .ok [⟨1, 2, .hide, none⟩, ⟨2, 8, .inlineMath, none⟩,
        ⟨8, 9, .hide, none⟩, ⟨3, 5, .mathSymbol, some ['²']⟩,
        ⟨5, 8, .mathSymbol, some ['π']⟩] := rfl
  intro source options events marks content
  have hformula : Formula source options events [] content marks :=
    .inline (List.nil_append events).symm rfl (by decide) hmarks
  obtain ⟨ds, hds, -⟩ := write_sorted_fits source options events (by decide)
  exact ⟨ds, hds, rfl, hformula, by decide,
    formula_symbols_render source options events rfl hds rfl hformula (by decide) (by decide)⟩

end MarkdownPreview.Writer
