import MarkdownPreview.Proofs.Markdown.Forest
import MarkdownPreview.Proofs.Writer.Sequence

/-! The text of links and images in a nested event stream. A construct of such a stream is closed
after its content, which lies inside its span, and closing it leaves the writer with the links that
were open before. Only the innermost open link takes note of an event, but what it holds lies inside
it, and its own span is known to the link around it. So every link learns how far any event inside
it reaches, however deep. -/

namespace MarkdownPreview.Writer

open Text Syntax
open Markdown (Event EventKind Tag Forest wrap wrap_append)

/-! ### Nested streams -/

/-- The inner span is a proper range of bytes within the outer one. -/
def LiesIn (inner outer : Span) : Prop :=
  outer.start ≤ inner.start ∧ inner.start ≤ inner.stop ∧ inner.stop ≤ outer.stop

instance (inner outer : Span) : Decidable (LiesIn inner outer) :=
  inferInstanceAs (Decidable (_ ∧ _ ∧ _))

theorem LiesIn.trans {s t u : Span} (h : LiesIn s t) (h' : LiesIn t u) : LiesIn s u :=
  ⟨Nat.le_trans h'.1 h.1, h.2.1, Nat.le_trans h.2.2 h'.2.2⟩

/-- Events inside a span, each construct closed after the events inside its own span. -/
def Nested : Span → List Event → Prop := Forest fun outer e => LiesIn e.span outer

variable {source : List Char} {options : Options} {outer span : Span} {events rest : List Event}

theorem Nested.liesIn (h : Nested outer events) : ∀ e ∈ events, LiesIn e.span outer := by
  induction h with
  | nil => exact List.forall_mem_nil _
  | leaf _ hin _ ih => exact List.forall_mem_cons.2 ⟨hin, ih⟩
  | construct hin _ _ ihinner ihrest =>
    intro e he
    simp only [wrap, List.mem_append, List.mem_cons, List.not_mem_nil, or_false] at he
    rcases he with ((rfl | he) | rfl) | he
    · exact hin
    · exact (ihinner e he).trans hin
    · exact hin
    · exact ihrest e he

/-! ### Reach -/

/-- The furthest of the ends of some events and of a byte that is reached before them. -/
def reach (first : Nat) (events : List Event) : Nat :=
  events.foldl (fun furthest e => max furthest e.span.stop) first

theorem reach_cons (first : Nat) (e : Event) (events : List Event) :
    reach first (e :: events) = reach (max first e.span.stop) events := rfl

theorem reach_append (first : Nat) (events rest : List Event) :
    reach first (events ++ rest) = reach (reach first events) rest := List.foldl_append

theorem reach_le_iff {first bound : Nat} :
    reach first events ≤ bound ↔ first ≤ bound ∧ ∀ e ∈ events, e.span.stop ≤ bound := by
  induction events generalizing first with
  | nil => simp [reach]
  | cons e rest ih => rw [reach_cons, ih, Nat.max_le, List.forall_mem_cons, and_assoc]

theorem le_reach (first : Nat) (events : List Event) : first ≤ reach first events :=
  (reach_le_iff.1 (Nat.le_refl _)).1

theorem stop_le_reach (first : Nat) {e : Event} (he : e ∈ events) :
    e.span.stop ≤ reach first events := (reach_le_iff.1 (Nat.le_refl _)).2 e he

/-- What lies inside a construct reaches no further than the construct. -/
theorem Nested.reach_eq {first : Nat} (h : Nested outer events) (hle : outer.stop ≤ first) :
    reach first events = first := by
  refine Nat.le_antisymm (reach_le_iff.2 ⟨Nat.le_refl _, fun e he => ?_⟩) (le_reach _ _)
  exact Nat.le_trans (h.liesIn e he).2.2 hle

theorem Nested.reach_le {first : Nat} (h : Nested outer events) (hle : first ≤ outer.stop) :
    reach first events ≤ outer.stop :=
  reach_le_iff.2 ⟨hle, fun e he => (h.liesIn e he).2.2⟩

theorem Nested.reach_wrap {first : Nat} {tag : Tag} {inner : List Event} (h : Nested span inner) :
    reach first (wrap tag span inner ++ rest) = reach (max first span.stop) rest := by
  rw [wrap_append, reach_cons, reach_append, reach_cons, h.reach_eq (Nat.le_max_right _ _)]
  simp only [Nat.max_assoc, Nat.max_self]

/-! ### Open links -/

/-- The frame of a link or image that starts. -/
def linkFrame? : Tag → Span → Option LinkFrame
  | .link, span => some (.ofSpan span false)
  | .image, span => some (.ofSpan span true)
  | _, _ => none

theorem span_of_linkFrame? {tag : Tag} {f : LinkFrame} (h : linkFrame? tag span = some f) :
    f.span = span := by
  unfold linkFrame? at h
  split at h
  · exact Option.some.inj h ▸ rfl
  · exact Option.some.inj h ▸ rfl
  · cases h

theorem Walk.links_start (w : Walk) (tag : Tag) (span : Span) :
    (w.step ⟨.start tag, span⟩).links =
      (linkFrame? tag span).toList ++ (w.observe ⟨.start tag, span⟩).links := by
  cases tag <;> rfl

theorem Walk.links_stop (w : Walk) (tag : Tag) (span : Span) :
    (w.step ⟨.stop tag, span⟩).links = w.links.drop (linkFrame? tag span).toList.length := by
  have hobserve : w.observe ⟨.stop tag, span⟩ = w := rfl
  cases tag <;> simp [Walk.step, hobserve, linkFrame?]

theorem Walk.links_leaf {w : Walk} {e : Event} (h : e.kind.isLeaf = true) :
    (w.step e).links = (w.observe e).links := by
  obtain ⟨kind, s⟩ := e
  cases kind <;> first | rfl | cases h

theorem isStop_of_isLeaf {kind : EventKind} (h : kind.isLeaf = true) : kind.isStop = false := by
  cases kind <;> first | rfl | cases h

/-- The innermost open link takes note of an event inside it. -/
theorem Walk.links_observe {w : Walk} {e : Event} {f : LinkFrame} {fs : List LinkFrame}
    (hw : w.links = f :: fs) (hstop : e.kind.isStop = false) (hle : e.span.stop ≤ f.span.stop) :
    (w.observe e).links = { f with contentStop := max f.contentStop e.span.stop } :: fs := by
  simp only [Walk.observe, hstop, hw, LinkFrame.observe, hle, if_true, Bool.false_eq_true, if_false]

/-- Over a nested stream inside the innermost open link, that link learns how far the events reach,
and no other link is opened or closed in the end. -/
theorem Walk.links_foldl_step {w : Walk} {f : LinkFrame} {fs : List LinkFrame}
    (h : Nested outer events) (hw : w.links = f :: fs) (hle : outer.stop ≤ f.span.stop) :
    (events.foldl Walk.step w).links =
      { f with contentStop := reach f.contentStop events } :: fs := by
  induction h generalizing w f fs with
  | nil => exact hw
  | @leaf outer e rest hleaf hin hrest ih =>
    have hstep := links_leaf (w := w) hleaf
    rw [links_observe hw (isStop_of_isLeaf hleaf) (Nat.le_trans hin.2.2 hle)] at hstep
    exact ih hstep hle
  | @construct outer span tag inner rest hin hinner hrest ihinner ihrest =>
    have hspan : span.stop ≤ f.span.stop := Nat.le_trans hin.2.2 hle
    have hstart := w.links_start tag span
    rw [links_observe hw rfl hspan] at hstart
    rw [Nested.reach_wrap hinner, wrap_append, List.foldl_cons, List.foldl_append, List.foldl_cons]
    refine ihrest (f := { f with contentStop := max f.contentStop span.stop }) ?_ hle
    rw [links_stop]
    cases hframe : linkFrame? tag span with
    | none =>
      rw [hframe] at hstart
      rw [ihinner hstart hspan, Nested.reach_eq hinner (Nat.le_max_right _ _)]
      rfl
    | some g =>
      rw [hframe] at hstart
      rw [ihinner hstart (Nat.le_of_eq (congrArg Span.stop (span_of_linkFrame? hframe).symm))]
      rfl

/-! ### Closing a link -/

theorem contains_charSpan_iff {bytes : Span} {p : Nat} : (charSpan source bytes).contains p = true ↔
    charOffset source bytes.start ≤ p ∧ p < charOffset source bytes.stop := Span.contains_iff

/-- A mark covers the characters of its span. -/
theorem countP_mark (bytes : Span) (kind : Decoration.Kind) (p : Nat) :
    (mark source bytes kind).countP (·.span.contains p) =
      if (charSpan source bytes).contains p then 1 else 0 := by
  unfold mark
  split
  next hempty =>
    have hle : charOffset source bytes.stop ≤ charOffset source bytes.start :=
      charOffset_mono source (of_decide_eq_true hempty)
    rw [if_neg, List.countP_nil]
    rw [contains_charSpan_iff]
    omega
  · rw [List.countP_singleton]
    rfl

/-- Content and delimiters share the characters of a span among them. -/
theorem countP_surround {bytes content : Span} (hstart : bytes.start ≤ content.start)
    (hcontent : content.start ≤ content.stop) (hstop : content.stop ≤ bytes.stop)
    (kind : Decoration.Kind) (p : Nat) :
    (surround source bytes content kind).countP (·.span.contains p) =
      if (charSpan source bytes).contains p then 1 else 0 := by
  have hopening := charOffset_mono source hstart
  have hinner := charOffset_mono source hcontent
  have hclosing := charOffset_mono source hstop
  unfold surround
  rw [List.countP_append, List.countP_append, countP_mark, countP_mark, countP_mark]
  simp only [contains_charSpan_iff]
  split_ifs <;> omega

/-- The tag of an image or of a link. -/
def linkTag (isImage : Bool) : Tag := if isImage then .image else .link

theorem linkFrame?_linkTag (isImage : Bool) (span : Span) :
    linkFrame? (linkTag isImage) span = some (.ofSpan span isImage) := by
  cases isImage <;> rfl

theorem emit_stop_link (w : Walk) (isImage : Bool) (span : Span) :
    emit source options w ⟨.stop (linkTag isImage), span⟩ =
      (w.links.head?.map (finishLink source)).getD (.ok []) := by
  cases isImage <;> rfl

/-- A link whose text is known to reach to some byte inside it is hidden up to the end of its opener
and from that byte on. -/
theorem finishLink_of_opener {f : LinkFrame} {furthest : Nat}
    (hopener : LinkFrame.opener f.isImage <+: raw source f.span)
    (hcontent : max f.contentStop (f.span.start + (LinkFrame.opener f.isImage).length) = furthest)
    (hle : furthest ≤ f.span.stop) : finishLink source f = .ok (surround source f.span
      ⟨f.span.start + (LinkFrame.opener f.isImage).length, furthest⟩
      (if f.isImage then .image else .link)) := by
  have hangle : (raw source f.span).head? ≠ some '<' := by
    obtain ⟨text, htext⟩ := hopener
    rw [← htext]
    cases f.isImage <;> simp [LinkFrame.opener]
  rw [finishLink_eq, if_neg fun h => hangle h.2.1, if_pos (List.isPrefixOf_iff_prefix.2 hopener),
    hcontent, Nat.min_eq_left hle]

theorem opener_le_stop {isImage : Bool} (h : LinkFrame.opener isImage <+: raw source span) :
    span.start + (LinkFrame.opener isImage).length ≤ span.stop :=
  (opener_ends (f := .ofSpan span isImage) (List.isPrefixOf_iff_prefix.2 h)).1

/-- When a link is closed, its frame is on top again, and knows how far the events inside reach. -/
theorem emit_stop_of_nested (options : Options) (w : Walk) {isImage : Bool} {inner : List Event}
    (hinner : Nested span inner) (hopener : LinkFrame.opener isImage <+: raw source span) :
    let textStart := span.start + (LinkFrame.opener isImage).length
    emit source options ((⟨.start (linkTag isImage), span⟩ :: inner).foldl Walk.step w)
        ⟨.stop (linkTag isImage), span⟩ =
      .ok (surround source span ⟨textStart, reach textStart inner⟩
        (if isImage then .image else .link)) := by
  intro textStart
  have hfits : textStart ≤ span.stop := opener_le_stop hopener
  have hstart := w.links_start (linkTag isImage) span
  rw [linkFrame?_linkTag] at hstart
  have hfirst : (LinkFrame.ofSpan span isImage).contentStop = textStart := Nat.min_eq_left hfits
  have hcontent : max (reach textStart inner) textStart = reach textStart inner :=
    Nat.max_eq_left (le_reach textStart inner)
  rw [emit_stop_link, List.foldl_cons,
    Walk.links_foldl_step hinner hstart (Nat.le_refl span.stop), hfirst]
  exact finishLink_of_opener hopener hcontent (hinner.reach_le hfits)

/-- Events within the source are written, wherever the writer stands. -/
theorem exists_emitAll (options : Options) (w : Walk) (hin : ∀ e ∈ events, Within source e.span) :
    ∃ ds, emitAll source options w events = .ok ds := by
  obtain ⟨ds, hds, -⟩ : ∃ ds, emitAll source options w events = .ok ds ∧ AllFit source False ds :=
    emitAll_fits options hin False.elim False.elim
  exact ⟨ds, hds⟩

/-- In a nested stream inside the source, a link or image whose slice starts with its opener is
closed after the events inside it. When it is closed, the opener is hidden, what follows has the
style of the link up to the furthest end among those events, which is the end of the opener if they
do not reach beyond it, and the rest is hidden. Each character of the link is in one of the three,
and no event inside the link reaches into the last one. -/
theorem link_parted (options : Options) {before : List Event} {isImage : Bool}
    (h : Nested ⟨0, byteLength source⟩ events)
    (hsplit : events = before ++ ⟨.start (linkTag isImage), span⟩ :: rest)
    (hopener : LinkFrame.opener isImage <+: raw source span) :
    ∃ inner after, rest = inner ++ ⟨.stop (linkTag isImage), span⟩ :: after ∧ Nested span inner ∧
      let textStart := span.start + (LinkFrame.opener isImage).length
      let textStop := reach textStart inner
      let marks := mark source ⟨span.start, textStart⟩ .hide ++
        mark source ⟨textStart, textStop⟩ (if isImage then .image else .link) ++
        mark source ⟨textStop, span.stop⟩ .hide
      (∃ earlier later,
        emitAll source options {} (before ++ ⟨.start (linkTag isImage), span⟩ :: inner) =
          .ok earlier ∧
        emitAll source options {} events = .ok (earlier ++ marks ++ later)) ∧
      span.start < textStart ∧ textStart ≤ textStop ∧ textStop ≤ span.stop ∧
      (∀ p, marks.countP (·.span.contains p) =
        if (charSpan source span).contains p then 1 else 0) ∧
      ∀ e ∈ inner, e.span.stop ≤ textStop := by
  obtain ⟨-, inner, after, rfl, hinner⟩ := h.closes hsplit
  change Nested span inner at hinner
  refine ⟨inner, after, rfl, hinner, ?_⟩
  intro textStart textStop marks
  have hin : ∀ e ∈ events, Within source e.span := fun e he => by
    obtain ⟨-, hordered, hstop⟩ := h.liesIn e he
    exact ⟨Nat.le_trans hordered hstop, hstop⟩
  have htext : textStart ≤ textStop := le_reach textStart inner
  have hstop : textStop ≤ span.stop := hinner.reach_le (opener_le_stop hopener)
  have hopen : span.start < textStart := by
    have : 0 < (LinkFrame.opener isImage).length := by cases isImage <;> decide
    omega
  have hevents : events = (before ++ ⟨.start (linkTag isImage), span⟩ :: inner) ++
      ⟨.stop (linkTag isImage), span⟩ :: after := by
    rw [hsplit, List.append_assoc, List.cons_append]
  rw [hevents] at hin
  obtain ⟨earlier, hearlier⟩ := exists_emitAll options {} (List.forall_mem_append.1 hin).1
  have hmarks := emit_stop_of_nested options (before.foldl Walk.step {}) hinner hopener
  rw [← List.foldl_append] at hmarks
  obtain ⟨later, hlater⟩ := exists_emitAll options (Walk.step (List.foldl Walk.step {}
    (before ++ ⟨.start (linkTag isImage), span⟩ :: inner)) ⟨.stop (linkTag isImage), span⟩)
    (List.forall_mem_cons.1 (List.forall_mem_append.1 hin).2).2
  have hrest := emitAll_cons_eq_ok_iff.2 ⟨marks, later, hmarks, hlater, rfl⟩
  have hall := emitAll_append hearlier hrest
  rw [← hevents, ← List.append_assoc] at hall
  have hcount (p : Nat) : marks.countP (·.span.contains p) =
      if (charSpan source span).contains p then 1 else 0 := by
    change (surround source span ⟨textStart, textStop⟩ _).countP _ = _
    exact countP_surround (Nat.le_of_lt hopen) htext hstop _ p
  exact ⟨⟨earlier, later, hearlier, hall⟩, hopen, htext, hstop, hcount,
    fun e he => stop_le_reach textStart he⟩

/-- A link around an image around emphasis. Behind the image, the text of the link goes on, and so
does the link's style. -/
theorem link_parted_around_image :
    let source := "[a ![*b*](u) c](v)".toList
    let image := wrap .image ⟨3, 12⟩ (wrap .emphasis ⟨5, 8⟩ [⟨.text, ⟨6, 7⟩⟩] ++ [])
    let text := ⟨.text, ⟨1, 3⟩⟩ :: (image ++ [⟨.text, ⟨12, 14⟩⟩])
    let events := wrap .link ⟨0, 18⟩ text ++ []
    Nested ⟨0, byteLength source⟩ events ∧ LinkFrame.opener false <+: raw source ⟨0, 18⟩ ∧
      reach 1 text = 14 ∧
      ∃ inner after, text ++ [⟨.stop .link, ⟨0, 18⟩⟩] = inner ++ ⟨.stop .link, ⟨0, 18⟩⟩ :: after ∧
        Nested ⟨0, 18⟩ inner ∧
        let marks := mark source ⟨0, 1⟩ .hide ++ mark source ⟨1, reach 1 inner⟩ .link ++
          mark source ⟨reach 1 inner, 18⟩ .hide
        (∃ earlier later, emitAll source {} {} events = .ok (earlier ++ marks ++ later)) ∧
        (∀ p, marks.countP (·.span.contains p) =
          if (charSpan source ⟨0, 18⟩).contains p then 1 else 0) ∧
        ∀ e ∈ inner, e.span.stop ≤ reach 1 inner := by
  intro source image text events
  have hnested : Nested ⟨0, byteLength source⟩ events :=
    .construct (by decide) (.leaf rfl (by decide) (.construct (by decide)
      (.construct (by decide) (.leaf rfl (by decide) .nil) .nil)
      (.leaf rfl (by decide) .nil))) .nil
  have hopener : LinkFrame.opener false <+: raw source ⟨0, 18⟩ := by decide
  have hsplit : events =
      [] ++ ⟨.start (linkTag false), ⟨0, 18⟩⟩ :: (text ++ [⟨.stop .link, ⟨0, 18⟩⟩]) := rfl
  obtain ⟨inner, after, hrest, hinner, ⟨earlier, later, -, hall⟩, -, -, -, hcount, hreach⟩ :=
    link_parted {} hnested hsplit hopener
  exact ⟨hnested, hopener, rfl, inner, after, hrest, hinner, ⟨earlier, later, hall⟩, hcount, hreach⟩

end MarkdownPreview.Writer
