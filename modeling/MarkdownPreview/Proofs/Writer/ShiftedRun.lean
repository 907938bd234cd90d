import MarkdownPreview.Proofs.Syntax.BracketShift
import MarkdownPreview.Proofs.Writer.Shift
import MarkdownPreview.Proofs.Writer.Totality

/-! A run of the writer in a text that has another text before it. Each step does what it does in
the text alone, with everything that the writer keeps moved by the bytes before; so the run gives
the same decorations, moved by the characters before. -/

namespace MarkdownPreview.Writer

open Text Syntax Decoration
open Markdown (Event)

/-! ### Steps -/

theorem kind_mapSpan (f : Nat → Nat) (e : Event) : (e.mapSpan f).kind = e.kind := rfl

theorem span_mapSpan_add (n : Nat) (e : Event) : (e.mapSpan (· + n)).span = e.span.shift n := rfl

def Walk.shift (w : Walk) (n : Nat) : Walk := { w with links := w.links.map (·.shift n) }

theorem LinkFrame.ofSpan_shift (span : Span) (isImage : Bool) (n : Nat) :
    ofSpan (span.shift n) isImage = (ofSpan span isImage).shift n := by
  have hmin : min (span.start + n + (opener isImage).length) (span.stop + n) =
      min (span.start + (opener isImage).length) span.stop + n := by omega
  simp only [ofSpan, shift, Span.shift_start, Span.shift_stop, hmin]

theorem LinkFrame.observe_shift (f : LinkFrame) (inner : Span) (n : Nat) :
    (f.shift n).observe (inner.shift n) = (f.observe inner).shift n := by
  simp only [observe, shift, Span.shift_stop, Nat.add_le_add_iff_right]
  split
  · simp only [Nat.add_max_add_right]
  · rfl

theorem Walk.observe_shift (w : Walk) (e : Event) (n : Nat) :
    (w.shift n).observe (e.mapSpan (· + n)) = (w.observe e).shift n := by
  obtain ⟨links, quotes⟩ := w
  rw [observe, observe, kind_mapSpan]
  split
  · rfl
  · cases links with
    | nil => rfl
    | cons f fs => exact congrArg (fun g => Walk.mk (g :: _) quotes) (f.observe_shift e.span n)

theorem Walk.step_shift (w : Walk) (e : Event) (n : Nat) :
    (w.shift n).step (e.mapSpan (· + n)) = (w.step e).shift n := by
  simp only [step, kind_mapSpan, observe_shift]
  split
  · rfl
  · exact congrArg (fun f => Walk.mk (f :: _) _) (LinkFrame.ofSpan_shift e.span false n)
  · exact congrArg (fun f => Walk.mk (f :: _) _) (LinkFrame.ofSpan_shift e.span true n)
  · rfl
  · exact congrArg (fun fs => Walk.mk fs _) List.map_tail.symm
  · exact congrArg (fun fs => Walk.mk fs _) List.map_tail.symm
  · rfl

/-! ### Events -/

variable {before : List Char} (text : List Char) (options : Options)

/-- An event gives the same decorations behind another text. -/
theorem emit_behind (hend : before.getLast? = some '\n') (w : Walk) {e : Event}
    (hin : Within text e.span) :
    emit (before ++ text) options (w.shift (byteLength before))
        (e.mapSpan (· + byteLength before)) =
      (emit text options w e).map (·.map (·.shift before.length)) := by
  have hlink : ((w.shift (byteLength before)).links.head?.map
      (finishLink (before ++ text))).getD (.ok []) =
        ((w.links.head?.map (finishLink text)).getD (.ok [])).map
          (·.map (·.shift before.length)) := by
    obtain ⟨links, quotes⟩ := w
    cases links with
    | nil => rfl
    | cons f fs => exact finishLink_behind text f
  simp only [emit, kind_mapSpan, span_mapSpan_add]
  split
  · exact emphasis_behind before text e.span _ _ _
  · exact emphasis_behind before text e.span _ _ _
  · exact emphasis_behind before text e.span _ _ _
  · exact congrArg Except.ok (heading_behind before text e.span _)
  · exact congrArg Except.ok (listItem_behind before text e.span)
  · rw [blockquote_behind]
    exact congrArg Except.ok
      (apply_ite (fun ds : List Decoration => ds.map (·.shift before.length)) _ _ []).symm
  · exact congrArg Except.ok (fencedBlock_behind before text e.span)
  · exact congrArg Except.ok (indentedBlock_behind before text e.span)
  · exact hlink
  · exact hlink
  · exact codeSpan_behind before text e.span
  · exact dollarMath_behind before text options e.span _ _
  · rw [displayKind_behind]
    exact dollarMath_behind before text options e.span _ _
  · exact rule_behind text e.span hend hin.1
  · exact congrArg Except.ok (taskMarker_behind before text e.span _)
  · rfl

theorem emitAll_behind (hend : before.getLast? = some '\n') {events : List Event}
    (hin : ∀ e ∈ events, Within text e.span) (w : Walk) :
    emitAll (before ++ text) options (w.shift (byteLength before))
        (events.map (·.mapSpan (· + byteLength before))) =
      (emitAll text options w events).map (·.map (·.shift before.length)) := by
  induction events generalizing w with
  | nil => rfl
  | cons e rest ih =>
    obtain ⟨he, hrest⟩ := List.forall_mem_cons.1 hin
    rw [List.map_cons, emitAll, emitAll, emit_behind text options hend w he, Walk.step_shift,
      ih hrest]
    cases emit text options w e with
    | error err => rfl
    | ok now =>
      cases emitAll text options (w.step e) rest with
      | error err => rfl
      | ok later => exact congrArg Except.ok List.map_append.symm

/-! ### Bracket math -/

theorem excludedBy_behind (before : List Char) (e : Event) :
    excludedBy (before ++ text) (e.mapSpan (· + byteLength before)) =
      (excludedBy text e).map (·.shift (byteLength before)) := by
  simp only [excludedBy, kind_mapSpan, span_mapSpan_add, dollarRuns_behind, holdsDelimiters_shift]
  split
  case h_4 | h_5 =>
    rw [apply_ite (Option.map _)]
    rfl
  all_goals rfl

theorem excludedSpans_behind (before : List Char) (events : List Event) :
    excludedSpans (before ++ text) (events.map (·.mapSpan (· + byteLength before))) =
      (excludedSpans text events).map (·.shift (byteLength before)) := by
  have hadd (spans : List Span) (acc : ExcludedSpans) :
      (spans.map (·.shift (byteLength before))).foldl ExcludedSpans.add
          (acc.map (·.shift (byteLength before))) =
        (spans.foldl ExcludedSpans.add acc).map (·.shift (byteLength before)) := by
    rw [List.foldl_map]
    exact List.foldl_hom _ fun acc s => ExcludedSpans.add_shift _ acc s
  rw [excludedSpans, excludedSpans, ← hadd _ [], List.filterMap_map, List.map_filterMap]
  simp only [Function.comp_def, excludedBy_behind]
  rfl

theorem mathSpans_behind (hbefore : EndsBeforeOpener before) {events : List Event}
    {spans : List Span} (h : mathSpans text options events = .ok spans) :
    mathSpans (before ++ text) options (events.map (·.mapSpan (· + byteLength before))) =
      .ok (spans.map (·.shift (byteLength before))) := by
  rw [mathSpans_eq_ok_iff] at h ⊢
  split at h
  next hon =>
    rw [if_pos hon, excludedSpans_behind]
    exact bracketMath_append hbefore h
  next hoff => rw [if_neg hoff, h, List.map_nil]

variable {text options}

theorem bracketMarks_behind (before : List Char) {s : Span} (h : Bracketed text s) :
    bracketMarks (before ++ text) options (s.shift (byteLength before)) =
      (bracketMarks text options s).map (·.shift before.length) := by
  have hlt := start_add_four_lt h
  have hcontent : bracketContent (s.shift (byteLength before)) =
      (bracketContent s).shift (byteLength before) := inner_shift s 2 _ (by omega)
  rw [bracketMarks, bracketMarks, hcontent, surround_behind, mathSymbols_behind, List.map_append]

theorem overlay_behind (before : List Char) {spans : List Span}
    (h : ∀ s ∈ spans, Bracketed text s) (ds : List Decoration) :
    overlay (before ++ text) options (spans.map (·.shift (byteLength before)))
        (ds.map (·.shift before.length)) =
      (overlay text options spans ds).map (·.shift before.length) := by
  induction spans generalizing ds with
  | nil => rfl
  | cons s spans ih =>
    obtain ⟨hs, hrest⟩ := List.forall_mem_cons.1 h
    have hstep (source : List Char) (s : Span) (spans : List Span) (ds : List Decoration) :
        overlay source options (s :: spans) ds = overlay source options spans
          (ds.filter (! (charSpan source s).encloses ·.span) ++ bracketMarks source options s) := rfl
    have hencloses (d : Decoration) : ((charSpan text s).shift before.length).encloses
        (d.shift before.length).span = (charSpan text s).encloses d.span :=
      Span.encloses_shift _ d.span _
    rw [List.map_cons, hstep, hstep, charSpan_append, bracketMarks_behind before hs,
      List.filter_map, ← ih hrest, List.map_append]
    simp only [Function.comp_def, hencloses]

theorem sortByStart_shift (n : Nat) (ds : List Decoration) :
    sortByStart (ds.map (·.shift n)) = (sortByStart ds).map (·.shift n) :=
  stableSort_map (fun d e => by simp [Decoration.shift]) ds

/-! ### Runs -/

/-- The writer gives the same decorations behind another text, moved by the characters before. -/
theorem write_behind (hend : before.getLast? = some '\n') (hopen : ¬ ['\\', '['] <:+: before)
    {events : List Event} (hin : ∀ e ∈ events, Within text e.span) :
    ∃ ds, write text options events = .ok ds ∧
      write (before ++ text) options (events.map (·.mapSpan (· + byteLength before))) =
        .ok (ds.map (·.shift before.length)) := by
  obtain ⟨given, spans, hgiven, hspans, hwrite, hfound, -⟩ := write_eq options hin
  have hin' : ∀ e ∈ events.map (·.mapSpan (· + byteLength before)),
      Within (before ++ text) e.span := by
    refine List.forall_mem_map.2 fun e he => ?_
    obtain ⟨hstart, hstop⟩ := hin e he
    rw [Within, byteLength_append, Nat.add_comm (byteLength before)]
    exact ⟨Nat.add_le_add_right hstart _, Nat.add_le_add_right hstop _⟩
  obtain ⟨given', spans', hgiven', hspans', hwrite', -, -⟩ := write_eq options hin'
  have hmoved := emitAll_behind text options hend hin {}
  rw [hgiven] at hmoved
  obtain rfl := Except.ok.inj (hmoved.symm.trans hgiven')
  have hmath := mathSpans_behind text options (endsBeforeOpener_of_lineFeed hend hopen) hspans
  obtain rfl := Except.ok.inj (hmath.symm.trans hspans')
  refine ⟨_, hwrite, ?_⟩
  rw [hwrite', overlay_behind before hfound.bracketed, sortByStart_shift]

/-- Put behind a text that ends a line and opens no bracket math, a document has the decorations
that it has alone, moved by the characters before; and when its selections move with it, the same of
them are drawn. The spans of the events move by the bytes before. -/
theorem write_filter_behind (before text : List Char) (options : Options) (events : List Event)
    (hend : before.getLast? = some '\n') (hopen : ¬ ['\\', '['] <:+: before)
    (hin : ∀ e ∈ events, Within text e.span) :
    ∃ ds, write text options events = .ok ds ∧
      write (before ++ text) options (events.map (·.mapSpan (· + byteLength before))) =
        .ok (ds.map (·.shift before.length)) ∧
      ∀ selections : List Selection,
        filter (ds.map (·.shift before.length)) (before ++ text)
            (selections.map fun s => (s.clamped text.length).shift before.length) =
          (filter ds text selections).shift before.length := by
  obtain ⟨ds, hwrite, hmoved⟩ := write_behind hend hopen hin
  exact ⟨ds, hwrite, hmoved, filter_behind ds before text⟩

/-- A rule with an indentation, a link and bracket math, behind a line with a character of two bytes
and a backslash. -/
theorem write_filter_behind_line :
    let before := ['é', '\\', '\n']
    let text := [' ', '-', '-', '-', '\n', '[', 'a', ']', '(', ')', '\\', '[', '\\', 'p', 'i', '\\',
      ']']
    let options : Options := {}
    let events : List Event := [⟨.rule, ⟨1, 5⟩⟩, ⟨.start .link, ⟨5, 10⟩⟩, ⟨.text, ⟨6, 7⟩⟩,
      ⟨.stop .link, ⟨5, 10⟩⟩]
    before.getLast? = some '\n' ∧ ¬ ['\\', '['] <:+: before ∧ (∀ e ∈ events, Within text e.span) ∧
    ∃ ds, write text options events = .ok ds ∧
      write (before ++ text) options (events.map (·.mapSpan (· + byteLength before))) =
        .ok (ds.map (·.shift before.length)) ∧
      ∀ selections : List Selection,
        filter (ds.map (·.shift before.length)) (before ++ text)
            (selections.map fun s => (s.clamped text.length).shift before.length) =
          (filter ds text selections).shift before.length :=
  ⟨by decide, by decide, by decide, write_filter_behind _ _ _ _ (by decide) (by decide) (by decide)⟩

end MarkdownPreview.Writer
