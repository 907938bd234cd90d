import MarkdownPreview.Proofs.Text.Sorting
import MarkdownPreview.Proofs.Writer.Origin
import MarkdownPreview.Proofs.Writer.Totality

/-! Math whose LaTeX is left as it stands. Symbols are put over a document and take no part in what
else is written: the spans of bracket math are the same without them, a span takes away the same of
the other decorations, and these keep their order. A document written without symbols therefore has
the decorations that it has with them, less the symbols. -/

namespace MarkdownPreview.Writer

open Text Syntax
open Markdown (Event EventKind)

variable {source : List Char} {options : Options} {bytes : Span} {kind : Decoration.Kind}
  {ds : List Decoration}

/-! ### Symbols and the rest -/

/-- The options with LaTeX left as it stands. -/
def withLatexKept (options : Options) : Options := { options with substituteLatex := false }

/-- The decorations that are no symbols. -/
def plainOf (ds : List Decoration) : List Decoration := ds.filter (·.kind ≠ .mathSymbol)

theorem plainOf_append (ds es : List Decoration) : plainOf (ds ++ es) = plainOf ds ++ plainOf es :=
  List.filter_append ds es

theorem plainOf_eq_self (h : ∀ d ∈ ds, d.kind ≠ .mathSymbol) : plainOf ds = ds :=
  List.filter_eq_self.2 fun d hd => decide_eq_true (h d hd)

theorem plainOf_mathSymbols (content : Span) : plainOf (mathSymbols source options content) = [] :=
  List.filter_eq_nil_iff.2 fun d hd => by simp [(mathSymbols_inside options content hd).1]

theorem plainOf_surround {content : Span} (hk : kind ≠ .mathSymbol) :
    plainOf (surround source bytes content kind) = surround source bytes content kind := by
  refine plainOf_eq_self fun d hd => ?_
  simp only [surround, List.mem_append, mem_mark] at hd
  rcases hd with (⟨-, rfl⟩ | ⟨-, rfl⟩) | ⟨-, rfl⟩
  · simp
  · exact hk
  · simp

/-! ### One construct -/

theorem mathSymbols_withLatexKept (content : Span) :
    mathSymbols source (withLatexKept options) content = [] := rfl

theorem mathBetween_withLatexKept (opening closing : Nat) (hk : kind ≠ .mathSymbol) :
    mathBetween source (withLatexKept options) bytes opening closing kind =
      (mathBetween source options bytes opening closing kind).map plainOf := by
  rw [mathBetween_eq, mathBetween_eq, Except.map]
  split
  · rw [plainOf_append, plainOf_surround hk, plainOf_mathSymbols, mathSymbols_withLatexKept]
  · rfl

theorem dollarMath_withLatexKept (most : Nat) (hk : kind ≠ .mathSymbol) :
    dollarMath source (withLatexKept options) bytes most kind =
      (dollarMath source options bytes most kind).map plainOf :=
  mathBetween_withLatexKept _ _ hk

theorem eq_math_of_mathSymbol_mem {kind : EventKind} (h : .mathSymbol ∈ eventKinds kind) :
    kind = .inlineMath ∨ kind = .displayMath := by
  unfold eventKinds at h
  split at h
  case h_4 level =>
    obtain h | h := List.mem_cons.1 h
    · cases h
    · exact absurd (revealScope_of_mem_headingStyles h).1 (by decide)
  case h_12 => exact .inl rfl
  case h_13 => exact .inr rfl
  all_goals exact absurd h (by decide)

/-- An event that is no math gives no symbols. -/
theorem plainOf_emit {w : Walk} {e : Event} (hinline : e.kind ≠ .inlineMath)
    (hdisplay : e.kind ≠ .displayMath) (h : emit source options w e = .ok ds) :
    plainOf ds = ds :=
  plainOf_eq_self fun d hd hk =>
    (eq_math_of_mathSymbol_mem (hk ▸ emit_ofKinds h d hd)).elim hinline hdisplay

/-- What an event gives depends on the symbols only where it is math. -/
theorem emit_withLatexKept (w : Walk) (e : Event) :
    emit source (withLatexKept options) w e = (emit source options w e).map plainOf := by
  by_cases hinline : e.kind = .inlineMath
  · simp only [emit, hinline]
    exact dollarMath_withLatexKept 1 (by decide)
  by_cases hdisplay : e.kind = .displayMath
  · simp only [emit, hdisplay]
    exact dollarMath_withLatexKept 2 (displayKind_ne_mathSymbol _ _)
  have hsame : emit source (withLatexKept options) w e = emit source options w e := by
    obtain ⟨kind, span⟩ := e
    cases kind with
    | start tag | stop tag => cases tag <;> rfl
    | inlineMath => exact absurd rfl hinline
    | displayMath => exact absurd rfl hdisplay
    | _ => rfl
  rw [hsame]
  cases hds : emit source options w e with
  | error err => rfl
  | ok ds => rw [Except.map, plainOf_emit hinline hdisplay hds]

/-! ### Runs -/

theorem emitAll_withLatexKept (options : Options) {events : List Event} {w : Walk}
    (h : emitAll source options w events = .ok ds) :
    emitAll source (withLatexKept options) w events = .ok (plainOf ds) := by
  induction events generalizing w ds with
  | nil =>
    obtain rfl := Except.ok.inj h
    rfl
  | cons e rest ih =>
    obtain ⟨now, later, hnow, hlater, rfl⟩ := emitAll_cons_eq_ok_iff.1 h
    refine emitAll_cons_eq_ok_iff.2 ⟨_, _, ?_, ih hlater, plainOf_append now later⟩
    rw [emit_withLatexKept, hnow]
    rfl

theorem bracketMarks_withLatexKept (s : Span) :
    bracketMarks source (withLatexKept options) s = plainOf (bracketMarks source options s) := by
  rw [bracketMarks, bracketMarks, plainOf_append, plainOf_surround (by decide),
    plainOf_mathSymbols, mathSymbols_withLatexKept]

/-- A span of bracket math takes away what it encloses, symbol or not. So the symbols may be dropped
before the spans are laid over a document or after. -/
theorem overlay_withLatexKept (options : Options) (spans : List Span) (ds : List Decoration) :
    overlay source (withLatexKept options) spans (plainOf ds) =
      plainOf (overlay source options spans ds) := by
  induction spans generalizing ds with
  | nil => rfl
  | cons s spans ih =>
    have hswap : (plainOf ds).filter (! (charSpan source s).encloses ·.span) =
        plainOf (ds.filter (! (charSpan source s).encloses ·.span)) := by
      simp only [plainOf, List.filter_filter, Bool.and_comm]
    have hlay := ih (ds.filter (! (charSpan source s).encloses ·.span) ++
      bracketMarks source options s)
    rw [plainOf_append, ← hswap, ← bracketMarks_withLatexKept] at hlay
    exact hlay

theorem plainOf_sortByStart (ds : List Decoration) :
    plainOf (sortByStart ds) = sortByStart (plainOf ds) := by
  refine filter_stableSort (fun a b c hab hbc => ?_) (fun a b => ?_) _ ds
  · simp only [decide_eq_true_eq] at *
    omega
  · simp only [decide_eq_true_eq]
    omega

/-- Whatever the other options, a stream of events within the source is written with its LaTeX
rendered and with its LaTeX left as it stands, and the second result is the first one without its
symbols. -/
theorem write_substituteLatex (source : List Char) (options : Options) (events : List Event)
    (hin : ∀ e ∈ events, Within source e.span) :
    ∃ ds, write source { options with substituteLatex := true } events = .ok ds ∧
      write source { options with substituteLatex := false } events =
        .ok (ds.filter (·.kind ≠ .mathSymbol)) := by
  let rendered : Options := { options with substituteLatex := true }
  obtain ⟨given, spans, hgiven, hspans, hwrite, -, -⟩ := write_eq rendered hin
  obtain ⟨given', spans', hgiven', hspans', hwrite', -, -⟩ := write_eq (withLatexKept rendered) hin
  -- neither what is excluded nor where the scan looks depends on the symbols
  obtain rfl : spans' = spans := Except.ok.inj (hspans'.symm.trans hspans)
  obtain rfl : given' = plainOf given :=
    Except.ok.inj (hgiven'.symm.trans (emitAll_withLatexKept rendered hgiven))
  refine ⟨_, hwrite, hwrite'.trans (congrArg Except.ok ?_)⟩
  rw [overlay_withLatexKept, ← plainOf_sortByStart]
  rfl

/-- A quotation with a power between dollar signs and a Greek letter in bracket math, which takes
away the emphasis inside it; a rule starts where the first symbol does. -/
theorem write_substituteLatex_enclosed :
    let source := ['>', '$', 'x', '^', '2', '$', '\\', '[', '\\', 'p', 'i', '-', '\\', ']']
    let events : List Event := [⟨.start .blockquote, ⟨0, 14⟩⟩, ⟨.inlineMath, ⟨1, 6⟩⟩,
      ⟨.start .emphasis, ⟨8, 12⟩⟩, ⟨.stop .link, ⟨9, 3⟩⟩, ⟨.rule, ⟨3, 5⟩⟩]
    (∀ e ∈ events, Within source e.span) ∧
    ∃ ds, write source { gfm := false, substituteLatex := true } events = .ok ds ∧
      write source { gfm := false, substituteLatex := false } events =
        .ok (ds.filter (·.kind ≠ .mathSymbol)) :=
  ⟨by decide, write_substituteLatex _ { gfm := false } _ (by decide)⟩

end MarkdownPreview.Writer
