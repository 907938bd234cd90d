import MarkdownPreview.Proofs.Markdown.HeadingLines
import MarkdownPreview.Proofs.Writer.LinkText

/-! Bracket math inside other constructs. A formula begins with a backslash and ends with a bracket.
No delimiter before the content of emphasis, of a link or of a heading has the one, and no delimiter
behind it the other, except where a link ends. So a formula inside such a construct is inside its
content, and what it encloses of the decorations of the construct is the style of content that
begins with it, or the hidden tail of a link that ends with it. -/

namespace MarkdownPreview.Writer

open Text Syntax
open Markdown (Event Tag Forest HeadingText)

variable {source piece : List Char} {bytes content span s : Span} {pos first last : Nat}
  {kind : Decoration.Kind} {marks : List Decoration} {d : Decoration}

/-! ### Pieces beside a formula -/

theorem boundary_start_of_bracketed (h : Bracketed source s) : Boundary source s.start := by
  obtain ⟨before, body, after, hsource, -, rfl⟩ := h
  exact ⟨before, _, hsource, rfl⟩

/-- Text before the start of a formula that has no backslash ends before the formula. -/
theorem piece_le_start (h : Bracketed source s) (hpiece : StandsAt source pos piece)
    (hslash : '\\' ∉ piece) (hle : pos ≤ s.start) : pos + byteLength piece ≤ s.start := by
  obtain ⟨before, body, after, hsource, -, rfl⟩ := h
  have hopen : StandsAt source (byteLength before) ['\\'] := fun _ =>
    ⟨before, '[' :: (body ++ '\\' :: ']' :: after), by rw [hsource]; simp, rfl⟩
  have hone : byteLength ['\\'] = 1 := rfl
  apply Nat.le_of_not_lt
  intro hlt
  simp only at hlt
  exact hslash ((hpiece.isInfix hopen hle (by omega)).subset List.mem_cons_self)

/-- Text behind which a formula has ended, and which has no bracket, begins behind the formula. -/
theorem stop_le_piece (h : Bracketed source s) (hpiece : StandsAt source pos piece)
    (hbracket : ']' ∉ piece) (hle : s.stop ≤ pos + byteLength piece) : s.stop ≤ pos := by
  obtain ⟨before, body, after, hsource, -, rfl⟩ := h
  have hone : '\\'.utf8Size = 1 ∧ '['.utf8Size = 1 ∧ ']'.utf8Size = 1 := ⟨rfl, rfl, rfl⟩
  have hclose : StandsAt source (byteLength before + 3 + byteLength body) [']'] := by
    refine fun _ => ⟨before ++ '\\' :: '[' :: (body ++ ['\\']), after, by rw [hsource]; simp, ?_⟩
    simp only [byteLength_append, byteLength_cons, byteLength_nil, hone]
    omega
  have hsize : byteLength [']'] = 1 := rfl
  apply Nat.le_of_not_lt
  intro hlt
  simp only at hle hlt
  exact hbracket
    ((hpiece.isInfix hclose (by omega) (by omega)).subset List.mem_cons_self)

/-! ### Marks around a formula -/

/-- A mark that starts before a formula, or with it, is inside it only if it starts with it. -/
theorem start_eq_of_inside (h : Bracketed source s) (hd : d ∈ mark source ⟨first, last⟩ kind)
    (hin : Inside source s d) (hle : first ≤ s.start) : first = s.start := by
  have hstart : d.start = charOffset source first := (ends_of_mem_mark hd).1
  apply Nat.le_antisymm hle
  apply Nat.le_of_not_lt
  intro hlt
  have hbefore := charOffset_lt (boundary_start_of_bracketed h) hlt
  have hinside := hin.1
  omega

/-- A mark that stops behind a formula, or with it, is inside it only if it stops with it. -/
theorem stop_eq_of_inside (hlast : Boundary source last) (hd : d ∈ mark source ⟨first, last⟩ kind)
    (hin : Inside source s d) (hle : s.stop ≤ last) : last = s.stop := by
  have hend : d.stop = charOffset source last := (ends_of_mem_mark hd).2.1
  refine Nat.le_antisymm ?_ hle
  apply Nat.le_of_not_lt
  intro hlt
  have hbehind := charOffset_lt hlast hlt
  have hinside := hin.2
  omega

theorem not_inside_of_stop_le (h : Bracketed source s) (hd : d ∈ mark source ⟨first, last⟩ kind)
    (hle : last ≤ s.start) : ¬ Inside source s d := by
  intro hin
  have hlt : first < last := (mem_mark.1 hd).1
  have heq := start_eq_of_inside h hd hin (by omega)
  omega

theorem not_inside_of_le_start (hlast : Boundary source last)
    (hd : d ∈ mark source ⟨first, last⟩ kind) (hle : s.stop ≤ first) : ¬ Inside source s d := by
  intro hin
  have hlt : first < last := (mem_mark.1 hd).1
  have heq := stop_eq_of_inside hlast hd hin (by omega)
  omega

/-- A mark around a formula that is inside it covers just the formula. -/
theorem mark_of_inside (hd : d ∈ mark source bytes kind) (hin : Inside source s d)
    (hstart : bytes.start ≤ s.start) (hstop : s.stop ≤ bytes.stop) :
    d.kind = kind ∧ d.span = charSpan source s := by
  obtain ⟨hfirst, hlast, hkind⟩ := ends_of_mem_mark hd
  have hbefore := charOffset_mono source hstart
  have hbehind := charOffset_mono source hstop
  refine ⟨hkind, congrArg₂ Span.mk ?_ ?_⟩
  · exact Nat.le_antisymm (hfirst ▸ hbefore) hin.1
  · exact Nat.le_antisymm hin.2 (hlast ▸ hbehind)

/-- Of the marks of a construct with a formula in its content, a formula has nothing inside it but
the style of content that is all formula. -/
theorem surround_of_inside (h : Bracketed source s) (hend : Boundary source bytes.stop)
    (hstart : content.start ≤ s.start) (hstop : s.stop ≤ content.stop)
    (hd : d ∈ surround source bytes content kind) (hin : Inside source s d) :
    d.kind = kind ∧ d.span = charSpan source s := by
  unfold surround at hd
  rw [List.mem_append, List.mem_append] at hd
  rcases hd with (hd | hd) | hd
  · exact absurd hin (not_inside_of_stop_le h hd hstart)
  · exact mark_of_inside hd hin hstart hstop
  · exact absurd hin (not_inside_of_le_start hend hd hstop)

/-! ### Emphasis -/

variable {p : Char → Bool}

theorem opening_le_start (h : Bracketed source s) (hp : OneByte p) (hslash : p '\\' = false)
    (most : Nat) (hle : bytes.start ≤ s.start) :
    bytes.start + runLength p most (raw source bytes) ≤ s.start := by
  have hrun := take_runLength_isPrefix p most (raw source bytes)
  have hstands := (standsAt_raw source bytes).of_isPrefix
    (hrun.trans (List.takeWhile_prefix p))
  rw [← byteLength_take_runLength hp]
  refine piece_le_start h hstands (fun hmem => ?_) hle
  have hclass := List.mem_takeWhile_imp (hrun.subset hmem)
  rw [hslash] at hclass
  cases hclass

theorem stop_le_closing (h : Bracketed source s) (hp : OneByte p) (hbracket : p ']' = false)
    (most : Nat) (hle : s.stop ≤ bytes.stop) :
    s.stop ≤ bytes.stop - runLengthAtEnd p most (raw source bytes) := by
  refine stop_le_piece h (standsAt_closingRun hp most source bytes) (fun hmem => ?_) ?_
  · rw [closingRun, List.mem_reverse] at hmem
    have hclass := List.mem_takeWhile_imp ((take_runLength_isPrefix p most _).subset hmem)
    rw [hbracket] at hclass
    cases hclass
  · rw [byteLength_closingRun hp]
    omega

/-- A formula takes from emphasis around it only the style of content that is all formula. -/
theorem emphasis_of_inside (h : Bracketed source s) (hend : Boundary source bytes.stop)
    (hp : OneByte p) (hslash : p '\\' = false) (hbracket : p ']' = false)
    (hstart : bytes.start ≤ s.start) (hstop : s.stop ≤ bytes.stop) {most : Nat}
    (hmarks : emphasis source bytes p most kind = .ok marks) (hd : d ∈ marks)
    (hin : Inside source s d) : d.kind = kind ∧ d.span = charSpan source s := by
  rw [emphasis_eq] at hmarks
  obtain rfl := Except.ok.inj hmarks
  split at hd
  · exact mark_of_inside hd hin hstart hstop
  · exact surround_of_inside h hend (opening_le_start h hp hslash _ hstart)
      (stop_le_closing h hp hbracket _ hstop) hd hin

/-! ### Links -/

/-- A formula takes from a link around it only the style of a text that begins with the formula, or
the tail of a link that ends with it. -/
theorem finishLink_of_inside {f : LinkFrame} (h : Bracketed source s)
    (hend : Boundary source f.span.stop) (hstart : f.span.start ≤ s.start)
    (hstop : s.stop ≤ f.span.stop) (hmarks : finishLink source f = .ok marks) (hd : d ∈ marks)
    (hin : Inside source s d) :
    d.kind ≠ .hide ∧ d.start = charOffset source s.start ∨
      d.kind = .hide ∧ s.stop = f.span.stop := by
  have hkind : (if f.isImage then Decoration.Kind.image else .link) ≠ .hide := by
    cases f.isImage <;> decide
  have hcovers (hcovers : d.kind = (if f.isImage then .image else .link) ∧
      d.span = charSpan source s) : d.kind ≠ .hide ∧ d.start = charOffset source s.start :=
    ⟨hcovers.1 ▸ hkind, congrArg Span.start hcovers.2⟩
  rw [finishLink_eq] at hmarks
  obtain rfl := Except.ok.inj hmarks
  split at hd
  next hangle =>
    obtain ⟨-, hfirst, hlast⟩ := hangle
    have hopening := opening_le_start h (oneByte_beq (c := '<') rfl) (by decide) 1 hstart
    have hclosing := stop_le_closing h (oneByte_beq (c := '>') rfl) (by decide) 1 hstop
    rw [runLength_one hfirst] at hopening
    rw [runLengthAtEnd_one hlast] at hclosing
    exact .inl (hcovers (surround_of_inside h hend hopening hclosing hd hin))
  · split at hd
    next hopener =>
      have hstands :=
        (standsAt_raw source f.span).of_isPrefix (List.isPrefixOf_iff_prefix.1 hopener)
      have hslash : '\\' ∉ LinkFrame.opener f.isImage := by cases f.isImage <;> decide
      have htext := piece_le_start h hstands hslash hstart
      rw [byteLength_opener] at htext
      unfold surround at hd
      rw [List.mem_append, List.mem_append] at hd
      rcases hd with (hd | hd) | hd
      · exact absurd hin (not_inside_of_stop_le h hd htext)
      · obtain ⟨hfirst, -, hstyle⟩ := ends_of_mem_mark hd
        have heq := start_eq_of_inside h hd hin htext
        exact .inl ⟨hstyle ▸ hkind, by rw [hfirst, heq]⟩
      · exact .inr ⟨(ends_of_mem_mark hd).2.2, (stop_eq_of_inside hend hd hin hstop).symm⟩
    · exact .inl (hcovers (mark_of_inside hd hin hstart hstop))

/-! ### Headings -/

variable {level : Nat}

/-- A formula in a heading with number signs is in its content. -/
theorem atx_content_around (h : Bracketed source s) (hstart : bytes.start ≤ s.start)
    (hstop : s.stop ≤ bytes.stop) {a : AtxHeading} (ha : atxHeading? (raw source bytes) = some a) :
    bytes.start + byteLength (a.indent ++ a.marker) ≤ s.start ∧
      s.stop ≤ bytes.start + byteLength (a.indent ++ a.marker ++ a.content) := by
  have hne : raw source bytes ≠ [] := by
    intro hnil
    rw [hnil] at ha
    cases ha
  have hstands := standsAt_raw source bytes
  have hlength := stop_eq_of_raw_ne_nil hne
  rw [← atxHeading?_text ha, AtxHeading.text, List.append_assoc _ _ a.rest] at hstands hlength
  rw [byteLength_append] at hlength
  constructor
  · refine piece_le_start h hstands.left.left (fun hmem => ?_) hstart
    obtain hmem | hmem := List.mem_append.1 hmem
    · exact absurd (mem_indent_of_atxHeading? ha _ hmem) (by decide)
    · exact absurd (mem_marker_of_atxHeading? ha _ hmem) (by decide)
  · refine stop_le_piece h hstands.right (fun hmem => ?_) ?_
    · exact absurd (mem_closing_of_atxHeading? ha _ hmem) (by decide)
    · omega

theorem setext_content_start (h : Bracketed source s) (hstart : bytes.start ≤ s.start)
    {u : SetextHeading} (hu : setextHeading? (raw source bytes) = some u) :
    bytes.start + byteLength u.indent ≤ s.start := by
  have hstands := standsAt_raw source bytes
  rw [← setextHeading?_text hu, SetextHeading.text] at hstands
  refine piece_le_start h hstands.left.left.left.left.left (fun hmem => ?_) hstart
  exact absurd (mem_indent_of_setextHeading? hu _ hmem) (by decide)

/-- A formula in an underlined heading ends before the end of the underline. -/
theorem stop_lt_underline (h : Bracketed source s) (hstop : s.stop ≤ bytes.stop)
    (htext : HeadingText (raw source bytes)) (hlines : '\n' ∈ withoutLineEnding (raw source bytes))
    {u : SetextHeading} (hu : setextHeading? (raw source bytes) = some u) : s.stop <
      bytes.start + byteLength (u.indent ++ u.content ++ u.gap ++ u.lead ++ u.underline) := by
  obtain ⟨before, ch, after, hraw, hch, hafter⟩ := htext.underline hlines
  have hrest : ch ∉ u.rest := by
    intro hmem
    have hblank := mem_rest_of_setextHeading? hu ch hmem
    obtain rfl | rfl := hch <;> exact absurd hblank (by decide)
  obtain ⟨more, hmore⟩ := append_singleton_isPrefix ((setextHeading?_text hu).trans hraw) hrest
  have hstands := standsAt_raw source bytes
  have hlength := stop_eq_of_raw_ne_nil (hraw ▸ List.append_ne_nil_of_right_ne_nil before (by simp))
  rw [hraw] at hstands hlength
  rw [byteLength_append] at hlength
  have hbefore : s.stop ≤ bytes.start + byteLength before := by
    refine stop_le_piece h hstands.right (fun hmem => ?_) (by omega)
    obtain rfl | hmem := List.mem_cons.1 hmem
    · exact absurd hch (by decide)
    · exact absurd (hafter _ hmem) (by decide)
  have hpos := byteLength_pos (List.cons_ne_nil ch [])
  rw [← hmore, byteLength_append, byteLength_append]
  omega

/-- A piece of a construct that is marked ends at a character. -/
theorem boundary_of_marked {lead text rest : List Char}
    (hraw : lead ++ text ++ rest = raw source bytes)
    (hd : d ∈ mark source ⟨bytes.start + byteLength lead,
      bytes.start + byteLength lead + byteLength text⟩ kind) :
    Boundary source (bytes.start + byteLength lead + byteLength text) := by
  have hne : text ≠ [] := by
    rintro rfl
    exact Nat.lt_irrefl _ (mem_mark.1 hd).1
  have hstands := standsAt_raw source bytes
  rw [← hraw] at hstands
  exact hstands.left.right.boundary_stop hne

/-- The hidden closing number signs are behind a formula in the content. -/
theorem closing_not_inside {a : AtxHeading} (ha : atxHeading? (raw source bytes) = some a)
    (hbehind : s.stop ≤ bytes.start + byteLength (a.indent ++ a.marker ++ a.content))
    (hd : d ∈ mark source ⟨bytes.start + byteLength (a.indent ++ a.marker ++ a.content),
      bytes.start + byteLength (a.indent ++ a.marker ++ a.content) +
        byteLength (a.closing.getD [])⟩ kind) : ¬ Inside source s d :=
  not_inside_of_le_start (boundary_of_marked (atxHeading?_text ha) hd) hd hbehind

/-- The underline is hidden to its end, which no formula reaches. -/
theorem underline_not_inside (h : Bracketed source s) (hstop : s.stop ≤ bytes.stop)
    (htext : HeadingText (raw source bytes)) (hlines : '\n' ∈ withoutLineEnding (raw source bytes))
    {u : SetextHeading} (hu : setextHeading? (raw source bytes) = some u)
    (hd : d ∈ mark source ⟨bytes.start + byteLength (u.indent ++ u.content ++ u.gap ++ u.lead),
      bytes.start + byteLength (u.indent ++ u.content ++ u.gap ++ u.lead) +
        byteLength u.underline⟩ kind) : ¬ Inside source s d := by
  intro hin
  have hend := boundary_of_marked (setextHeading?_text hu) hd
  have hlt := stop_lt_underline h hstop htext hlines hu
  rw [byteLength_append _ u.underline, ← Nat.add_assoc] at hlt
  exact absurd (stop_eq_of_inside hend hd hin (Nat.le_of_lt hlt)) (Nat.ne_of_gt hlt)

/-- A formula takes from a heading around it only the style of content that begins with it. -/
theorem heading_of_inside (h : Bracketed source s) (htext : HeadingText (raw source bytes))
    (hstart : bytes.start ≤ s.start) (hstop : s.stop ≤ bytes.stop)
    (hd : d ∈ heading source bytes level) (hin : Inside source s d) :
    d.kind ≠ .hide ∧ d.start = charOffset source s.start := by
  have hstyle {first last : Nat} (hkind : d.kind ∈ headingStyles level)
      (hd : d ∈ mark source ⟨first, last⟩ d.kind) (hle : first ≤ s.start) :
      d.kind ≠ .hide ∧ d.start = charOffset source s.start := by
    refine ⟨(revealScope_of_mem_headingStyles hkind).2, ?_⟩
    rw [(ends_of_mem_mark hd).1, ← start_eq_of_inside h hd hin hle]
  simp only [heading] at hd
  split at hd
  next hlines =>
    split at hd
    · cases hd
    next u hu =>
      simp only [markPieces, List.flatMap_nil, List.nil_append, List.append_nil,
        List.mem_append, mem_flatMap_mark] at hd
      obtain ⟨-, hd⟩ | ⟨hkind, hd⟩ := hd
      · have hlines := List.contains_iff_mem.1 hlines
        exact absurd hin (underline_not_inside h hstop htext hlines hu hd)
      · exact hstyle hkind hd (setext_content_start h hstart hu)
  next hline =>
    split at hd
    · cases hd
    next a ha =>
      obtain ⟨hbefore, hbehind⟩ := atx_content_around h hstart hstop ha
      simp only [markPieces, List.flatMap_nil, List.nil_append, List.append_nil,
        List.mem_append, mem_flatMap_mark] at hd
      obtain (⟨-, hd⟩ | ⟨-, hd⟩) | ⟨hkind, hd⟩ := hd
      · rw [byteLength_append, ← Nat.add_assoc] at hbefore
        exact absurd hin (not_inside_of_stop_le h hd hbefore)
      · exact absurd hin (closing_not_inside ha hbehind hd)
      · exact hstyle hkind hd hbefore

/-! ### Open links -/

variable {fits : Span → Event → Prop} {outer : Span} {events inner : List Event} {tag : Tag}

/-- What is opened inside a construct is closed there, so that the same links are open behind. -/
theorem Walk.fixed_foldl_step (h : Forest fits outer events) (w : Walk) :
    (events.foldl Walk.step w).links.map LinkFrame.fixed = w.links.map LinkFrame.fixed := by
  induction h generalizing w with
  | nil => rfl
  | leaf hleaf _ _ ih => rw [List.foldl_cons, ih, links_leaf hleaf, fixed_observe]
  | construct _ _ _ ihinner ihrest =>
    rw [Markdown.wrap_append, List.foldl_cons, List.foldl_append, List.foldl_cons, ihrest,
      links_stop, List.map_drop, ihinner, links_start, List.map_append, fixed_observe]
    exact List.drop_left' (List.length_map _)

/-- When a link is closed, it is the innermost one that is open. -/
theorem Walk.exists_links_cons (h : Forest fits span inner) (w : Walk) (isImage : Bool) :
    ∃ f fs, ((⟨.start (linkTag isImage), span⟩ :: inner).foldl Walk.step w).links = f :: fs ∧
      f.span = span := by
  have hfixed := fixed_foldl_step h (w.step ⟨.start (linkTag isImage), span⟩)
  rw [links_start, linkFrame?_linkTag, List.map_append] at hfixed
  obtain ⟨f, fs, hlinks, hf, -⟩ := List.map_eq_cons_iff.1 hfixed
  exact ⟨f, fs, hlinks, congrArg Prod.fst hf⟩

/-! ### What a formula takes -/

/-- Emphasis and its kin. -/
def isEmphasis : Tag → Bool
  | .emphasis | .strong | .strikethrough => true
  | _ => false

/-- The construct styles its content. -/
def isStyled : Tag → Bool
  | .heading _ | .link | .image => true
  | tag => isEmphasis tag

/-- How a construct over a span can lose one of its decorations to a formula inside it. -/
inductive Undercut (source : List Char) (span s : Span) (d : Decoration) : Tag → Prop
  /-- The style of emphasis goes where the formula is all that is emphasised. -/
  | emphasis {tag : Tag} (htag : isEmphasis tag = true) (hstyle : d.kind ≠ .hide)
      (hspan : d.span = charSpan source s) : Undercut source span s d tag
  /-- The style of a heading can go where the heading begins with the formula. -/
  | heading {level : Nat} (hstyle : d.kind ≠ .hide)
      (hstart : d.start = charOffset source s.start) : Undercut source span s d (.heading level)
  /-- The style of a link can go where its text begins with the formula. -/
  | linkText {isImage : Bool} (hstyle : d.kind ≠ .hide)
      (hstart : d.start = charOffset source s.start) : Undercut source span s d (linkTag isImage)
  /-- The tail of a link is not hidden where the formula ends with the link. -/
  | linkTail {isImage : Bool} (hhide : d.kind = .hide) (hstop : s.stop = span.stop) :
      Undercut source span s d (linkTag isImage)

variable {options : Options}

theorem undercut_of_emphasis (htag : isEmphasis tag = true) (hstyle : kind ≠ .hide)
    (h : d.kind = kind ∧ d.span = charSpan source s) : Undercut source span s d tag :=
  .emphasis htag (h.1 ▸ hstyle) h.2

/-- What the start of a construct gives is lost to a formula inside the construct only as style of
the content. -/
theorem undercut_of_start (htag : isStyled tag = true) (h : Bracketed source s)
    (hend : Boundary source span.stop)
    (htext : ∀ level, tag = .heading level → HeadingText (raw source span))
    (hstart : span.start ≤ s.start) (hstop : s.stop ≤ span.stop) {w : Walk}
    (hmarks : emit source options w ⟨.start tag, span⟩ = .ok marks) (hd : d ∈ marks)
    (hin : Inside source s d) : Undercut source span s d tag := by
  cases tag with
  | heading level =>
    obtain rfl := Except.ok.inj hmarks
    obtain ⟨hstyle, hfirst⟩ := heading_of_inside h (htext level rfl) hstart hstop hd hin
    exact .heading hstyle hfirst
  | emphasis =>
    exact undercut_of_emphasis rfl (by decide) (emphasis_of_inside h hend oneByte_isEmphasisSign
      (by decide) (by decide) hstart hstop hmarks hd hin)
  | strong =>
    exact undercut_of_emphasis rfl (by decide) (emphasis_of_inside h hend oneByte_isEmphasisSign
      (by decide) (by decide) hstart hstop hmarks hd hin)
  | strikethrough =>
    exact undercut_of_emphasis rfl (by decide) (emphasis_of_inside h hend oneByte_isTilde
      (by decide) (by decide) hstart hstop hmarks hd hin)
  | link | image =>
    obtain rfl := Except.ok.inj hmarks
    cases hd
  | _ => cases htag

/-- What the end of a construct gives is lost to a formula inside the construct only where a link
begins or ends with the formula. -/
theorem undercut_of_stop (htag : isStyled tag = true) (h : Bracketed source s)
    (hend : Boundary source span.stop) (hinner : Forest fits span inner) {w : Walk}
    (hstart : span.start ≤ s.start) (hstop : s.stop ≤ span.stop)
    (hmarks : emit source options ((⟨.start tag, span⟩ :: inner).foldl Walk.step w)
      ⟨.stop tag, span⟩ = .ok marks) (hd : d ∈ marks) (hin : Inside source s d) :
    Undercut source span s d tag := by
  have hlink (isImage : Bool) (hmarks : emit source options
      ((⟨.start (linkTag isImage), span⟩ :: inner).foldl Walk.step w)
      ⟨.stop (linkTag isImage), span⟩ = .ok marks) :
      Undercut source span s d (linkTag isImage) := by
    obtain ⟨f, fs, hlinks, rfl⟩ := Walk.exists_links_cons hinner w isImage
    rw [emit_stop_link, hlinks] at hmarks
    obtain ⟨hstyle, hfirst⟩ | ⟨hhide, hlast⟩ :=
      finishLink_of_inside h hend hstart hstop hmarks hd hin
    · exact .linkText hstyle hfirst
    · exact .linkTail hhide hlast
  cases tag with
  | link => exact hlink false hmarks
  | image => exact hlink true hmarks
  | heading | emphasis | strong | strikethrough =>
    obtain rfl := Except.ok.inj hmarks
    cases hd
  | _ => cases htag

end MarkdownPreview.Writer
