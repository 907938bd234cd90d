import MarkdownPreview.Proofs.Decoration.Reveal
import MarkdownPreview.Proofs.Writer.Constructs

/-! Writer and filter together. The filter reveals a marker by the extent of the shortest owner
around it, and after the writer that owner is the construct which gave the marker. So the markers of
one construct are drawn together, and give way together as soon as a selection touches the
construct. -/

namespace MarkdownPreview

open Text Syntax Writer Decoration
open Markdown (Event)

/-- A run of the writer over events between characters, up to what the events give and the spans of
bracket math that are laid over it. Code and math between dollar signs share no bytes. -/
structure Run (source : List Char) (options : Options) (events : List Event) (spans : List Span)
    (given : List Decoration) : Prop where
  emitted : emitAll source options {} events = .ok given
  found : Found source (excludedSpans source events) 0 spans
  fits : AllFit source True given
  exclusive : Exclusive events

namespace Run

variable {source : List Char} {options : Options} {events : List Event}
  {selections : List Selection} {spans : List Span} {given marks : List Decoration}
  {home extent : Span} {d : Decoration}

/-! ### Decorations of a run and their constructs -/

theorem nonempty (r : Run source options events spans given)
    (h : Construct source options events spans home extent marks) (hd : d ∈ marks) :
    d.start < d.stop := by
  cases h with
  | @event before after e _ hsplit hmarks =>
    have hgiven := (mem_emitAll r.emitted).2 ⟨before, e, after, marks, hsplit, hmarks, hd⟩
    exact (r.fits d hgiven).nonempty trivial
  | bracket hs =>
    exact (bracketMarks_fits (r.found.bracketed _ hs) d hd).nonempty trivial

/-- What is left after bracket math is given by a construct. -/
theorem exists_construct (r : Run source options events spans given)
    (hd : d ∈ overlay source options spans given) :
    ∃ home extent marks, Construct source options events spans home extent marks ∧
      d ∈ marks := by
  obtain ⟨hd, -⟩ | ⟨s, hs, hd⟩ := (mem_overlay options r.found.bracketed r.found.ascending).1 hd
  · obtain ⟨before, e, after, marks, hsplit, hmarks, hd⟩ := (mem_emitAll r.emitted).1 hd
    exact ⟨_, _, marks, .event hsplit hmarks, hd⟩
  · exact ⟨_, _, _, .bracket hs, hd⟩

/-- Bracket math leaves the owners and markers of every construct. -/
theorem mem_overlay_of_construct (r : Run source options events spans given)
    (h : Construct source options events spans home extent marks) (hd : d ∈ marks)
    (hown : inOwnership d.kind = true) : d ∈ overlay source options spans given :=
  h.mem_overlay r.emitted r.found hd hown (r.nonempty h hd)

/-! ### Markers and their owners -/

theorem inOwnership_of_owns {o : Decoration} (h : Owns o d) : inOwnership o.kind = true := by
  simp [inOwnership, isOwner_of_mem_owners h.1]

/-- In the construct of a marker there is an owner of the marker. -/
theorem exists_owner (r : Run source options events spans given)
    (h : Construct source options events spans home extent marks) (hd : d ∈ marks)
    (hown : d.kind.owners ≠ []) : ∃ o ∈ overlay source options spans given, Owns o d := by
  obtain ⟨hin, o, ho, hkind, hspan⟩ := h.ownedBy.markers d hd hown
  have hstart : o.start = charOffset source extent.start := congrArg Span.start hspan
  have hstop : o.stop = charOffset source extent.stop := congrArg Span.stop hspan
  have howns : Owns o d := ⟨hkind, hstart ▸ hin.1, hstop ▸ hin.2⟩
  exact ⟨o, r.mem_overlay_of_construct h ho (inOwnership_of_owns howns), howns⟩

/-- Every owner of a marker is that of the marker's own construct, as other constructs are apart. -/
theorem span_of_owns (r : Run source options events spans given)
    (h : Construct source options events spans home extent marks) (hd : d ∈ marks)
    (hown : d.kind.owners ≠ []) {o : Decoration} (ho : o ∈ overlay source options spans given)
    (howns : Owns o d) : o.span = charSpan source extent := by
  have hmarker : inOwnership d.kind = true := by simp [inOwnership, hown]
  obtain ⟨home', extent', marks', h', ho'⟩ := r.exists_construct ho
  have hspan := h'.ownedBy.owners o ho' (isOwner_of_mem_owners howns.1)
  have hino := h'.inside ho' (inOwnership_of_owns howns)
  have hind : Inside source home' d :=
    ⟨Nat.le_trans hino.1 howns.2.1, Nat.le_trans howns.2.2 hino.2⟩
  obtain rfl | hapart :=
    h.eq_or_apart r.exclusive r.found hd hmarker h' ho' (inOwnership_of_owns howns)
  · exact hspan
  · exact absurd hind (hapart.not_inside (r.nonempty h hd) (h.inside hd hmarker))

end Run

/-! ### Drawn markers -/

/-- One of the selections, pulled into the document, touches the closed interval of characters from
the start of a span of bytes to its end. -/
def Touched (source : List Char) (selections : List Selection) (bytes : Span) : Prop :=
  ∃ s ∈ selections, (s.clamped source.length).touches (charOffset source bytes.start)
    (charOffset source bytes.stop) = true

variable {source : List Char} {options : Options} {events : List Event}
  {selections : List Selection} {spans : List Span} {given marks ds : List Decoration}
  {home extent : Span} {d : Decoration}

theorem revealScope_of_owners {k : Kind} (h : k.owners ≠ []) : k.revealScope = .span := by
  cases k <;> first | rfl | exact absurd rfl h

/-- A marker whose owners all cover one span is revealed by the selections that touch the span. -/
theorem revealed_iff_touched (hown : d.kind.owners ≠ []) (hd : d.start ≤ d.stop)
    (hsome : ∃ o ∈ ds, Owns o d) (hall : ∀ o ∈ ds, Owns o d → o.span = charSpan source extent) :
    Revealed source selections ds d ↔ Touched source selections extent := by
  have hextent : Extent ds d (Decoration.extent (ds.filter (·.kind.isOwner)) d) :=
    extent_eq_iff.1 rfl
  rw [hextent.eq_of_owners hsome hall] at hextent
  simp only [Revealed, revealScope_of_owners hown, RevealedByExtent]
  refine Iff.trans ?_ (Selection.exists_touches_iff (hextent.ordered hd)).symm
  constructor
  · rintro ⟨s, hs, p, hp⟩
    obtain rfl := hs.eq_of_owners hsome hall
    exact ⟨p, hp⟩
  · rintro ⟨p, hp⟩
    exact ⟨_, hextent, p, hp⟩

/-- A marker of a run is written, and it is drawn unless a selection touches the extent of its
construct. -/
theorem Run.mem_get_iff (r : Run source options events spans given)
    (h : Construct source options events spans home extent marks) (hd : d ∈ marks)
    (hown : d.kind.owners ≠ []) (hds : ds = sortByStart (overlay source options spans given)) :
    d ∈ ds ∧ (d ∈ (filter ds source selections).get d.kind ↔
      ¬ Touched source selections extent) := by
  have hmem : ∀ o, o ∈ ds ↔ o ∈ overlay source options spans given := fun o =>
    hds ▸ mem_sortByStart
  have hfits := overlay_fits options r.found.bracketed r.fits
  have hinside : ∀ o ∈ ds, o.start ≤ o.stop ∧ o.stop ≤ source.length := fun o ho =>
    ⟨(hfits o ((hmem o).1 ho)).ordered, (hfits o ((hmem o).1 ho)).inside⟩
  have hwritten : d ∈ ds :=
    (hmem d).2 (r.mem_overlay_of_construct h hd (by simp [inOwnership, hown]))
  obtain ⟨o, ho, howns⟩ := r.exists_owner h hd hown
  have hrevealed : Revealed source selections ds d ↔ Touched source selections extent :=
    revealed_iff_touched hown (Nat.le_of_lt (r.nonempty h hd)) ⟨o, (hmem o).2 ho, howns⟩
      fun o ho => r.span_of_owns h hd hown ((hmem o).1 ho)
  refine ⟨hwritten, ?_⟩
  rw [mem_get_filter_iff hinside, hrevealed]
  simp [hwritten]

/-! ### Code spans and math -/

/-- The content of math in a run: between the dollar signs of an event that has room for them, or
between the delimiters of bracket math. -/
inductive MathContent (source : List Char) (events : List Event) (spans : List Span) : Span → Prop
  | inline {e : Event} (he : e ∈ events) (hk : e.kind = .inlineMath)
      (hroom : holdsDelimiters e.span (dollarRuns source e.span 1).1
        (dollarRuns source e.span 1).2 = true) :
      MathContent source events spans (dollarContent source e.span 1)
  | display {e : Event} (he : e ∈ events) (hk : e.kind = .displayMath)
      (hroom : holdsDelimiters e.span (dollarRuns source e.span 2).1
        (dollarRuns source e.span 2).2 = true) :
      MathContent source events spans (dollarContent source e.span 2)
  | bracket {s : Span} (hs : s ∈ spans) : MathContent source events spans (bracketContent s)

/-- The symbols of math are given by a construct with the content as its extent. -/
theorem MathContent.exists_construct (options : Options) {content : Span}
    (h : MathContent source events spans content) :
    ∃ home marks, Construct source options events spans home content marks ∧
      ∀ d ∈ mathSymbols source options content, d ∈ marks := by
  cases h with
  | @inline e he hk hroom =>
    have hemit (w : Walk) : emit source options w e =
        dollarMath source options e.span 1 .inlineMath := by
      simp only [emit, hk]
    exact ⟨e.span, _, .of_event he (fun w => (hemit w).trans (dollarMath_of_room hroom))
      (by simp only [ownExtent, hk]), fun d => List.mem_append_right _⟩
  | @display e he hk hroom =>
    have hemit (w : Walk) : emit source options w e =
        dollarMath source options e.span 2 (displayKind source e.span) := by
      simp only [emit, hk]
    exact ⟨e.span, _, .of_event he (fun w => (hemit w).trans (dollarMath_of_room hroom))
      (by simp only [ownExtent, hk]), fun d => List.mem_append_right _⟩
  | bracket hs => exact ⟨_, _, .bracket hs, fun d => List.mem_append_right _⟩

/-- Writer and filter, over aligned events among which code and math between dollar signs share no
bytes. The backticks of a code span are drawn unless a selection touches the code span. The symbols
of math, between dollar signs or brackets, are drawn unless a selection touches its content. -/
theorem markers_drawn_together (source : List Char) (options : Options) (events : List Event)
    (selections : List Selection) (ha : ∀ e ∈ events, Aligned source e.span)
    (hex : Exclusive events) :
    ∃ ds spans, write source options events = .ok ds ∧
      mathSpans source options events = .ok spans ∧
      (∀ e ∈ events, e.kind = .code → ∃ marks, codeSpan source e.span = .ok marks ∧
        ∀ d ∈ marks, d.kind = .transparent → d ∈ ds ∧
          (d ∈ (filter ds source selections).get .transparent ↔
            ¬ Touched source selections e.span)) ∧
      (∀ content, MathContent source events spans content →
        ∀ d ∈ mathSymbols source options content, d ∈ ds ∧
          (d ∈ (filter ds source selections).get .mathSymbol ↔
            ¬ Touched source selections content)) := by
  have hin : ∀ e ∈ events, Within source e.span := fun e he => ⟨(ha e he).1.le, (ha e he).2.le⟩
  obtain ⟨given, spans, hgiven, hspans, hwrite, hfound, hfit⟩ := write_eq options hin
  have hrun : Run source options events spans given := ⟨hgiven, hfound, fun d hd =>
    ⟨(hfit d hd).ordered, (hfit d hd).inside, (hfit d hd).replaced,
      fun _ => (hfit d hd).nonempty ha⟩, hex⟩
  refine ⟨_, spans, hwrite, hspans, fun e he hk => ?_, fun content hcontent d hd => ?_⟩
  · refine ⟨_, codeSpan_eq source e.span, fun d hd htransparent => ?_⟩
    have hemit (w : Walk) : emit source options w e = codeSpan source e.span := by
      simp only [emit, hk]
    have hconstruct : Construct source options events spans e.span e.span _ :=
      .of_event he (fun w => (hemit w).trans (codeSpan_eq source e.span))
        (by simp only [ownExtent, hk])
    rw [← htransparent]
    exact hrun.mem_get_iff hconstruct hd (by simp [htransparent, Kind.owners]) rfl
  · obtain ⟨home, marks, hconstruct, hmarks⟩ := hcontent.exists_construct options
    obtain ⟨hsymbol, -⟩ := mathSymbols_inside options content hd
    rw [← hsymbol]
    exact hrun.mem_get_iff hconstruct (hmarks d hd) (by simp [hsymbol, Kind.owners]) rfl

/-- A code span, math between dollar signs and bracket math, one directly after the other, with a
cursor between the first two. -/
theorem markers_drawn_together_adjacent :
    let source := ['`', 'a', '`', '$', '\\', 'p', 'i', '$', '\\', '[', '\\', 'p', 'i', '\\', ']']
    let events : List Event := [⟨.code, ⟨0, 3⟩⟩, ⟨.inlineMath, ⟨3, 8⟩⟩]
    (∀ e ∈ events, Aligned source e.span) ∧ Exclusive events ∧
    ∃ ds spans, write source {} events = .ok ds ∧ mathSpans source {} events = .ok spans ∧
      (∀ e ∈ events, e.kind = .code → ∃ marks, codeSpan source e.span = .ok marks ∧
        ∀ d ∈ marks, d.kind = .transparent → d ∈ ds ∧
          (d ∈ (filter ds source [.caret 3]).get .transparent ↔
            ¬ Touched source [.caret 3] e.span)) ∧
      (∀ content, MathContent source events spans content →
        ∀ d ∈ mathSymbols source {} content, d ∈ ds ∧
          (d ∈ (filter ds source [.caret 3]).get .mathSymbol ↔
            ¬ Touched source [.caret 3] content)) := by
  intro source events
  have hex : Exclusive events := by
    refine List.pairwise_pair.2 fun p => ?_
    simp only [Span.contains, Bool.and_eq_true, decide_eq_true_eq]
    omega
  exact ⟨by decide, hex, markers_drawn_together source {} events [.caret 3] (by decide) hex⟩

end MarkdownPreview
