import MarkdownPreview.Proofs.Latex.CarriageReturn
import MarkdownPreview.Proofs.Syntax.CarriageReturn
import MarkdownPreview.Proofs.Writer.Links
import MarkdownPreview.Writer.Basic

/-! The writer over a source whose line feeds are replaced by carriage returns. Most rules read
their slice without regard to lines, and give the same decorations. Five look for line feeds alone:
headings with an underline, quotations, fenced code, display math, and the indentation of a rule;
bracket math looks for blank lines with them. Where none of these spans a line end, the decorations
are the same, and where one does they need not be. -/

namespace MarkdownPreview

open Text

/-- The decoration with the line feeds in its replacement replaced. -/
def Decoration.withReturns (d : Decoration) : Decoration :=
  { d with replacement := d.replacement.map Text.withReturns }

namespace Writer

open Syntax
open Markdown (Event)

variable (source : List Char) (options : Options) (bytes : Span) (kind : Decoration.Kind)

/-! ### Marks -/

theorem raw_withReturns : raw (withReturns source) bytes = withReturns (raw source bytes) := by
  rw [raw, byteSlice?_withReturns, raw]
  cases byteSlice? source bytes <;> rfl

theorem mark_withReturns : mark (withReturns source) bytes kind =
    (mark source bytes kind).map (·.withReturns) := by
  simp only [mark, charOffset_withReturns]
  split <;> rfl

/-- A piece of text with its line feeds replaced. -/
def pieceWithReturns (p : List Char × List Decoration.Kind) : List Char × List Decoration.Kind :=
  (withReturns p.1, p.2)

theorem markPieces_withReturns (pos : Nat) (pieces : List (List Char × List Decoration.Kind)) :
    markPieces (withReturns source) pos (pieces.map pieceWithReturns) =
      (markPieces source pos pieces).map (·.withReturns) := by
  induction pieces generalizing pos with
  | nil => rfl
  | cons p rest ih =>
    obtain ⟨piece, kinds⟩ := p
    have hmark := funext (mark_withReturns source ⟨pos, pos + byteLength piece⟩)
    simp only [List.map_cons, markPieces, pieceWithReturns, byteLength_withReturns,
      List.map_append, List.map_flatMap, hmark, ih]

theorem surround_withReturns (content : Span) :
    surround (withReturns source) bytes content kind =
      (surround source bytes content kind).map (·.withReturns) := by
  simp only [surround, mark_withReturns, List.map_append]

/-! ### Delimited text -/

theorem runLength_withReturns {p : Char → Bool} (hp : p '\n' = p '\r') (most : Nat)
    (text : List Char) : runLength p most (withReturns text) = runLength p most text := by
  rw [runLength, takeWhile_withReturns text hp, length_withReturns, runLength]

theorem runLengthAtEnd_withReturns {p : Char → Bool} (hp : p '\n' = p '\r') (most : Nat)
    (text : List Char) : runLengthAtEnd p most (withReturns text) = runLengthAtEnd p most text := by
  rw [runLengthAtEnd, withReturns_reverse, runLength_withReturns hp, runLengthAtEnd]

theorem emphasis_withReturns {isDelimiter : Char → Bool}
    (hp : isDelimiter '\n' = isDelimiter '\r') (most : Nat) :
    emphasis (withReturns source) bytes isDelimiter most kind =
      (emphasis source bytes isDelimiter most kind).map (·.map (·.withReturns)) := by
  rw [emphasis_eq, emphasis_eq, raw_withReturns, runLength_withReturns hp,
    runLengthAtEnd_withReturns hp, byteLength_withReturns, mark_withReturns, surround_withReturns,
    Except.map]
  split <;> rfl

theorem mathSymbols_withReturns (content : Span) :
    mathSymbols (withReturns source) options content =
      (mathSymbols source options content).map (·.withReturns) := by
  simp only [mathSymbols, raw_withReturns, charOffset_withReturns,
    Latex.nonOverlapping_withReturns]
  split
  · rw [List.map_map, List.map_map]
    rfl
  · rfl

theorem mathBetween_withReturns (opening closing : Nat) :
    mathBetween (withReturns source) options bytes opening closing kind =
      (mathBetween source options bytes opening closing kind).map (·.map (·.withReturns)) := by
  rw [mathBetween_eq, mathBetween_eq, surround_withReturns, mathSymbols_withReturns, Except.map]
  split
  · rw [List.map_append]
  · rfl

theorem dollarRuns_withReturns (most : Nat) :
    dollarRuns (withReturns source) bytes most = dollarRuns source bytes most := by
  simp only [dollarRuns, raw_withReturns, runLength_withReturns (p := isDollar) rfl,
    runLengthAtEnd_withReturns (p := isDollar) rfl]

theorem dollarMath_withReturns (most : Nat) :
    dollarMath (withReturns source) options bytes most kind =
      (dollarMath source options bytes most kind).map (·.map (·.withReturns)) := by
  simp only [dollarMath, dollarRuns_withReturns, mathBetween_withReturns]

theorem displayKind_withReturns (h : '\n' ∉ raw source bytes) :
    displayKind (withReturns source) bytes = displayKind source bytes := by
  rw [displayKind, raw_withReturns, withReturns_of_not_mem h, displayKind]

theorem codeSpan_withReturns : codeSpan (withReturns source) bytes =
    (codeSpan source bytes).map (·.map (·.withReturns)) := by
  have hrun := takeWhile_withReturns (raw source bytes) (p := isBacktick) rfl
  rw [codeSpan_eq, codeSpan_eq, raw_withReturns, hrun, length_withReturns,
    runLengthAtEnd_withReturns rfl, byteLength_withReturns, Except.map]
  split
  · rw [mark_withReturns]
  · simp only [mark_withReturns, List.map_append]

/-! ### Blocks -/

theorem heading_withReturns (level : Nat) (h : '\n' ∉ withoutLineEnding (raw source bytes)) :
    heading (withReturns source) bytes level =
      (heading source bytes level).map (·.withReturns) := by
  have hline (text : List Char) (h : '\n' ∉ withoutLineEnding text) :
      ¬ (withoutLineEnding text).contains '\n' = true := by
    simpa using h
  have hreturns : '\n' ∉ withoutLineEnding (withReturns (raw source bytes)) := by
    rw [withoutLineEnding_withReturns]
    exact lineFeed_not_mem_withReturns _
  simp only [heading, raw_withReturns, if_neg (hline _ h), if_neg (hline _ hreturns),
    atxHeading?_withReturns]
  cases atxHeading? (raw source bytes) with
  | none => rfl
  | some m =>
    simp only [Option.map_some, AtxHeading.withReturns, ← withReturns_append,
      byteLength_withReturns, List.map_append, ← markPieces_withReturns]
    cases m.closing <;> rfl

theorem listItem_withReturns : listItem (withReturns source) bytes =
    (listItem source bytes).map (·.withReturns) := by
  simp only [listItem, raw_withReturns, listMarker?_withReturns]
  cases listMarker? (raw source bytes) with
  | none => rfl
  | some m => exact markPieces_withReturns source bytes.start [(m.indent, []), (m.marker, _)]

theorem taskMarker_withReturns (checked : Bool) :
    taskMarker (withReturns source) bytes checked =
      (taskMarker source bytes checked).map (·.withReturns) := by
  simp only [taskMarker, raw_withReturns, checkbox?_withReturns]
  cases checkbox? (raw source bytes) with
  | none => rfl
  | some c => exact markPieces_withReturns source bytes.start [(c.lead, []), (c.box, _)]

theorem blockquote_withReturns (h : OneLine (raw source bytes)) :
    blockquote (withReturns source) bytes = (blockquote source bytes).map (·.withReturns) := by
  simp only [blockquote, raw_withReturns, quoteMarkers_withReturns h, List.map_flatMap,
    mark_withReturns]

theorem fencedBlock_withReturns (h : OneLine (raw source bytes)) :
    fencedBlock (withReturns source) bytes = (fencedBlock source bytes).map (·.withReturns) := by
  simp only [fencedBlock, raw_withReturns, fencedCode?_withReturns h]
  cases fencedCode? (raw source bytes) with
  | none => exact mark_withReturns source bytes .codeBlock
  | some f =>
    simp only [Option.map_some, ← markPieces_withReturns]
    congr 1
    cases hl : f.language <;> cases hc : f.close <;>
      simp [FencedCode.withReturns, pieceWithReturns, hl, hc]

theorem indentedBlock_withReturns : indentedBlock (withReturns source) bytes =
    (indentedBlock source bytes).map (·.withReturns) := by
  simp only [indentedBlock, raw_withReturns, withoutLineEnding_withReturns]
  exact markPieces_withReturns source bytes.start [(_, _)]

/-! ### Rules -/

theorem trailingIndent_withReturns {before : List Char}
    (h : trailingIndent before = 0 ∨ '\n' ∉ before) :
    trailingIndent (withReturns before) = trailingIndent before := by
  rcases h with h | h
  · rw [h]
    simp only [trailingIndent, withReturns_reverse,
      dropWhile_withReturns before.reverse (p := (· == ' ')) rfl] at h ⊢
    cases hd : before.reverse.dropWhile (· == ' ') with
    | nil =>
      rw [hd] at h
      simpa using h
    | cons c rest => simp [asReturn_ne_lineFeed]
  · rw [withReturns_of_not_mem h]

/-- The indentation of what stands at byte `pos` does not begin behind a line feed. -/
def staysInLine (pos : Nat) : Bool :=
  indentBefore source pos == 0 || ! ((takeBytes? source pos).getD []).contains '\n'

theorem indentBefore_withReturns {pos : Nat} (h : staysInLine source pos = true) :
    indentBefore (withReturns source) pos = indentBefore source pos := by
  simp only [staysInLine, indentBefore, Bool.or_eq_true, beq_iff_eq, Bool.not_eq_true',
    takeBytes?_withReturns] at h ⊢
  cases hbefore : takeBytes? source pos with
  | none => rfl
  | some before =>
    rw [hbefore] at h
    refine trailingIndent_withReturns ?_
    simpa using h

theorem rule_withReturns (h : staysInLine source bytes.start = true) :
    rule (withReturns source) bytes = (rule source bytes).map (·.map (·.withReturns)) := by
  simp only [rule, byteLength_withReturns, raw_withReturns, withoutLineEnding_withReturns,
    indentBefore_withReturns source h]
  split
  · rfl
  · cases stepBack bytes.start (indentBefore source bytes.start) with
    | error err => rfl
    | ok start => exact congrArg Except.ok (mark_withReturns source _ _)

/-! ### Links -/

theorem head?_withReturns {d : Char} (hfeed : d ≠ '\n') (hreturn : d ≠ '\r') (text : List Char) :
    (withReturns text).head? = some d ↔ text.head? = some d := by
  cases text with
  | nil => exact Iff.rfl
  | cons c rest => simp [asReturn_eq_iff c hfeed hreturn]

theorem getLast?_withReturns {d : Char} (hfeed : d ≠ '\n') (hreturn : d ≠ '\r')
    (text : List Char) : (withReturns text).getLast? = some d ↔ text.getLast? = some d := by
  rw [← List.head?_reverse, withReturns_reverse, head?_withReturns hfeed hreturn,
    List.head?_reverse]

theorem isPrefixOf_withReturns {opener : List Char} (h : ∀ d ∈ opener, d ≠ '\n' ∧ d ≠ '\r')
    (text : List Char) : opener.isPrefixOf (withReturns text) = opener.isPrefixOf text := by
  induction opener generalizing text with
  | nil => simp
  | cons d opener ih =>
    obtain ⟨⟨hfeed, hreturn⟩, hopener⟩ := List.forall_mem_cons.1 h
    cases text with
    | nil => rfl
    | cons c rest =>
      have hhead : (d == asReturn c) = (d == c) := by
        rw [Bool.eq_iff_iff, beq_iff_eq, beq_iff_eq, eq_comm, asReturn_eq_iff c hfeed hreturn,
          eq_comm]
      simp only [withReturns_cons, List.isPrefixOf, hhead, ih hopener]

theorem finishLink_withReturns (f : LinkFrame) :
    finishLink (withReturns source) f = (finishLink source f).map (·.map (·.withReturns)) := by
  have hopener : ∀ d ∈ LinkFrame.opener f.isImage, d ≠ '\n' ∧ d ≠ '\r' := by
    cases f.isImage <;> simp [LinkFrame.opener]
  have hfirst := head?_withReturns (show '<' ≠ '\n' by decide) (by decide) (raw source f.span)
  have hlast := getLast?_withReturns (show '>' ≠ '\n' by decide) (by decide) (raw source f.span)
  simp only [finishLink_eq, raw_withReturns, byteLength_withReturns, hfirst, hlast,
    isPrefixOf_withReturns hopener, surround_withReturns, mark_withReturns, Except.map]
  split
  · rfl
  split <;> rfl

/-! ### Events -/

/-- No line ends inside what the event's rule tells lines apart in. -/
def isInLine (e : Event) : Bool :=
  match e.kind with
  | .start (.heading _) => ! (withoutLineEnding (raw source e.span)).contains '\n'
  | .start .blockquote | .start .fencedCode => decide (OneLine (raw source e.span))
  | .displayMath => ! (raw source e.span).contains '\n'
  | .rule => staysInLine source e.span.start
  | _ => true

theorem emit_withReturns (w : Walk) {e : Event} (h : isInLine source e = true) :
    emit (withReturns source) options w e =
      (emit source options w e).map (·.map (·.withReturns)) := by
  have hlink : (w.links.head?.map (finishLink (withReturns source))).getD (.ok []) =
      ((w.links.head?.map (finishLink source)).getD (.ok [])).map
        (·.map (·.withReturns)) := by
    cases w.links.head? with
    | none => rfl
    | some f => exact finishLink_withReturns source f
  obtain ⟨kind, span⟩ := e
  simp only [emit]
  split
  · exact emphasis_withReturns source span _ rfl _
  · exact emphasis_withReturns source span _ rfl _
  · exact emphasis_withReturns source span _ rfl _
  next level =>
    simp only [isInLine, Bool.not_eq_true', List.contains_eq_mem, decide_eq_false_iff_not] at h
    exact congrArg Except.ok (heading_withReturns source span level h)
  · exact congrArg Except.ok (listItem_withReturns source span)
  · simp only [isInLine, decide_eq_true_eq] at h
    rw [blockquote_withReturns source span h]
    exact congrArg Except.ok
      (apply_ite (fun ds : List Decoration => ds.map (·.withReturns)) _ _ []).symm
  · simp only [isInLine, decide_eq_true_eq] at h
    exact congrArg Except.ok (fencedBlock_withReturns source span h)
  · exact congrArg Except.ok (indentedBlock_withReturns source span)
  · exact hlink
  · exact hlink
  · exact codeSpan_withReturns source span
  · exact dollarMath_withReturns source options span _ _
  · simp only [isInLine, Bool.not_eq_true', List.contains_eq_mem, decide_eq_false_iff_not] at h
    rw [displayKind_withReturns source span h]
    exact dollarMath_withReturns source options span _ _
  · exact rule_withReturns source span h
  · exact congrArg Except.ok (taskMarker_withReturns source span _)
  · rfl

theorem emitAll_withReturns {events : List Event} (h : ∀ e ∈ events, isInLine source e = true)
    (w : Walk) : emitAll (withReturns source) options w events =
      (emitAll source options w events).map (·.map (·.withReturns)) := by
  induction events generalizing w with
  | nil => rfl
  | cons e rest ih =>
    obtain ⟨he, hrest⟩ := List.forall_mem_cons.1 h
    rw [emitAll, emitAll, emit_withReturns source options w he, ih hrest]
    cases emit source options w e with
    | error err => rfl
    | ok now =>
      cases emitAll source options (w.step e) rest with
      | error err => rfl
      | ok later => exact congrArg Except.ok List.map_append.symm

/-! ### Bracket math -/

theorem excludedSpans_withReturns (events : List Event) :
    excludedSpans (withReturns source) events = excludedSpans source events := by
  have hexcluded : excludedBy (withReturns source) = excludedBy source := by
    funext e
    simp only [excludedBy, dollarRuns_withReturns]
  rw [excludedSpans, excludedSpans, hexcluded]

theorem mathSpans_withReturns (events : List Event)
    (h : options.latexBrackets = true → ¬ HoldsBlankLine source) :
    mathSpans (withReturns source) options events = mathSpans source options events := by
  simp only [mathSpans]
  split
  next hon => rw [excludedSpans_withReturns, bracketMath_withReturns _ (h hon)]
  · rfl

theorem layMath_withReturns (ds : List Decoration) (s : Span) :
    layMath (withReturns source) options (ds.map (·.withReturns)) s =
      (layMath source options ds s).map (·.map (·.withReturns)) := by
  simp only [layMath, charSpan_withReturns, mathBetween_withReturns, List.filter_map]
  cases mathBetween source options s 2 2 .displayMath with
  | error err => rfl
  | ok own => exact congrArg Except.ok List.map_append.symm

theorem foldlM_layMath_withReturns (spans : List Span) (ds : List Decoration) :
    spans.foldlM (layMath (withReturns source) options) (ds.map (·.withReturns)) =
      (spans.foldlM (layMath source options) ds).map (·.map (·.withReturns)) := by
  induction spans generalizing ds with
  | nil => rfl
  | cons s spans ih =>
    rw [List.foldlM_cons, List.foldlM_cons, layMath_withReturns]
    cases layMath source options ds s with
    | error err => rfl
    | ok laid => exact ih laid

theorem sortByStart_withReturns (ds : List Decoration) :
    sortByStart (ds.map (·.withReturns)) = (sortByStart ds).map (·.withReturns) :=
  stableSort_map (fun _ _ => rfl) ds

/-! ### Runs -/

/-- Let no line end inside what the rules of the events tell lines apart in, and where bracket math
is read, let no line of the source be blank. Then a source with carriage returns for line feeds is
written with the same decorations over the same characters, or fails alike; only the line feeds that
a math symbol draws are carriage returns too. -/
theorem write_withReturns (source : List Char) (options : Options) (events : List Event)
    (hline : ∀ e ∈ events, isInLine source e = true)
    (hblank : options.latexBrackets = true → ¬ HoldsBlankLine source) :
    write (withReturns source) options events =
      (write source options events).map (·.map (·.withReturns)) := by
  simp only [write, emitAll_withReturns source options hline,
    mathSpans_withReturns source options events hblank]
  cases emitAll source options {} events with
  | error err => rfl
  | ok given =>
    cases mathSpans source options events with
    | error err => rfl
    | ok spans =>
      have hlay := foldlM_layMath_withReturns source options spans given
      simp only [Except.map, bind, Except.bind] at hlay ⊢
      rw [hlay]
      cases spans.foldlM (layMath source options) given with
      | error err => rfl
      | ok laid => exact congrArg Except.ok (sortByStart_withReturns laid)

/-- A heading, a quotation and math whose argument holds a line feed, on lines of their own. -/
theorem write_withReturns_lines :
    let source := ['#', ' ', 'é', '\n', '>', ' ', 'b', '\n', '$', '\\', 't', 'e', 'x', 't', '{',
      'a', '\n', 'b', '}', '$']
    let events : List Event :=
      [⟨.start (.heading 1), ⟨0, 5⟩⟩, ⟨.start .blockquote, ⟨5, 9⟩⟩, ⟨.inlineMath, ⟨9, 21⟩⟩]
    (∀ e ∈ events, isInLine source e = true) ∧ ¬ HoldsBlankLine source ∧
      write (withReturns source) {} events =
        (write source {} events).map (·.map (·.withReturns)) := by
  intro source events
  have hblank : ¬ HoldsBlankLine source := mt spansBlankLine_iff.2 (by decide)
  exact ⟨by decide, hblank, write_withReturns source {} events (by decide) fun _ => hblank⟩

/-- An underlined heading loses its styles and its hidden underline when its lines end in carriage
returns, as the line feed before the underline is gone. -/
theorem underline_lost_withReturns :
    let source := ['A', '\n', '=', '\n']
    let events : List Event :=
      [⟨.start (.heading 1), ⟨0, 4⟩⟩, ⟨.text, ⟨0, 1⟩⟩, ⟨.stop (.heading 1), ⟨0, 4⟩⟩]
    (∀ e ∈ events, Within source e.span) ∧ '\r' ∉ source ∧
      write source {} events =
        .ok [⟨0, 1, .heading, none⟩, ⟨0, 1, .heading1, none⟩, ⟨2, 3, .hide, none⟩] ∧
      write (withReturns source) {} events = .ok [] :=
  ⟨by decide, by decide, rfl, rfl⟩

end Writer

end MarkdownPreview
