import MarkdownPreview.Proofs.Writer.LinkText
import MarkdownPreview.Proofs.Writer.PlainMath

/-! What stands between delimiters of the same kind: emphasis, strong emphasis, strikethrough and
math between dollar signs. The runs of delimiters at the two ends of a span are counted apart from
each other, in a slice that may be nothing but delimiters. Still no character is covered twice or
left out, only delimiters are hidden, and all else has one style; math that has no room for its
delimiters is left as it stands. -/

namespace MarkdownPreview.Writer

open Text Syntax
open Markdown (Event)

variable {source piece : List Char} {bytes : Span} {kind : Decoration.Kind} {d : Decoration}

/-- Which characters delimit a construct, how many of them at most at one end, and the style of what
stands between. -/
structure DelimiterRule where
  isSign : Char → Bool
  most : Nat
  style : Decoration.Kind

/-- The rule of a construct that has the same delimiters at both ends. -/
def delimiterRule? (source : List Char) (e : Event) : Option DelimiterRule :=
  match e.kind with
  | .start .emphasis => some ⟨isEmphasisSign, 1, .italic⟩
  | .start .strong => some ⟨isEmphasisSign, 2, .bold⟩
  | .start .strikethrough => some ⟨isTilde, 2, .strikethrough⟩
  | .inlineMath => some ⟨isDollar, 1, .inlineMath⟩
  | .displayMath => some ⟨isDollar, 2, displayKind source e.span⟩
  | _ => none

/-- The marks part the characters of a span into a styled content and hidden delimiters around
it. -/
structure Delimits (source : List Char) (rule : DelimiterRule) (chars content : Span)
    (marks : List Decoration) : Prop where
  /-- Every character of the span is in just one mark, and no other character is in any. -/
  once : ∀ p, marks.countP (·.span.contains p) = if chars.contains p then 1 else 0
  kinds : ∀ d ∈ marks, d.kind = .hide ∨ d.kind = rule.style
  /-- The content is what has the style. -/
  styled : ∀ p, (∃ d ∈ marks, d.kind = rule.style ∧ d.span.contains p = true) ↔
    content.contains p = true
  /-- What is hidden is a delimiter. -/
  signs : ∀ d ∈ marks, d.kind = .hide → ∀ p, d.span.contains p = true →
    ∃ c, source[p]? = some c ∧ rule.isSign c = true
  ordered : content.start ≤ content.stop
  opening : chars.start ≤ content.start ∧ content.start ≤ chars.start + rule.most
  closing : content.stop ≤ chars.stop ∧ chars.stop ≤ content.stop + rule.most

/-! ### Pieces of the source -/

/-- A character that a mark over a piece covers is one of the piece. -/
theorem exists_mem_of_contains {pos : Nat} (h : StandsAt source pos piece)
    (hd : d ∈ mark source ⟨pos, pos + byteLength piece⟩ kind) {p : Nat}
    (hp : d.span.contains p = true) : ∃ c ∈ piece, source[p]? = some c := by
  obtain ⟨hlt, rfl⟩ := mem_mark.1 hd
  have hne : piece ≠ [] := by
    rintro rfl
    exact absurd hlt (Nat.lt_irrefl pos)
  have hstop := h.charOffset_stop hne
  obtain ⟨before, after, rfl, rfl⟩ := h hne
  simp only [Decoration.span, Span.contains_iff, hstop] at hp
  rw [List.append_assoc, charOffset_append] at hp
  obtain ⟨hfirst, hlast⟩ := hp
  have hindex : p - before.length < piece.length := by omega
  refine ⟨piece[p - before.length], List.getElem_mem hindex, ?_⟩
  rw [List.append_assoc, List.getElem?_append_right hfirst, List.getElem?_append_left hindex,
    List.getElem?_eq_getElem hindex]

/-- A piece has no more characters than bytes. -/
theorem charOffset_stop_le {pos : Nat} (h : StandsAt source pos piece) :
    charOffset source (pos + byteLength piece) ≤ charOffset source pos + byteLength piece := by
  by_cases hne : piece = []
  · rw [hne, byteLength_nil]
    exact Nat.le_refl _
  · rw [h.charOffset_stop hne]
    exact Nat.add_le_add_left (length_le_byteLength piece) _

/-- A slice between characters reaches from one end of its span to the other. -/
theorem stop_eq_of_aligned (h : Aligned source bytes) (hle : bytes.start ≤ bytes.stop) :
    bytes.stop = bytes.start + byteLength (raw source bytes) := by
  obtain ⟨text, htext⟩ := h.exists_byteSlice? hle
  obtain ⟨-, -, -, -, hstop⟩ := byteSlice?_eq_some_iff.1 htext
  rw [raw, htext]
  exact hstop

/-! ### Delimiter runs -/

theorem sign_of_mem_take_runLength {p : Char → Bool} {most : Nat} {text : List Char} {c : Char}
    (hc : c ∈ text.take (runLength p most text)) : p c = true :=
  List.mem_takeWhile_imp ((take_runLength_isPrefix p most text).subset hc)

theorem sign_of_mem_closingRun {p : Char → Bool} {most : Nat} {text : List Char} {c : Char}
    (hc : c ∈ closingRun p most text) : p c = true :=
  sign_of_mem_take_runLength (List.mem_reverse.1 hc)

/-- A text that is shorter than the runs at its two ends together is nothing but delimiters. -/
theorem signs_of_lt {p : Char → Bool} {m n : Nat} {text : List Char}
    (h : byteLength text < runLength p m text + runLengthAtEnd p n text) :
    (∀ c ∈ text, p c = true) ∧ text.length < runLength p m text + runLengthAtEnd p n text := by
  have hshort := Nat.lt_of_le_of_lt (length_le_byteLength text) h
  refine ⟨fun c hc => ?_, hshort⟩
  -- what the opening run leaves belongs to the closing run
  have hsplit := List.take_append_drop (runLength p m text) text
  rw [← hsplit, List.mem_append] at hc
  obtain hc | hc := hc
  · exact sign_of_mem_take_runLength hc
  · refine sign_of_mem_closingRun (?_ : c ∈ closingRun p n text)
    rw [closingRun, List.reverse_take, List.reverse_reverse]
    refine List.drop_subset_drop_left text ?_ hc
    rw [List.length_reverse]
    omega

/-! ### Constructs -/

theorem surround_self (source : List Char) (bytes : Span) (kind : Decoration.Kind) :
    surround source bytes bytes kind = mark source bytes kind := by
  simp [surround, mark, Span.isEmpty]

/-- A mark over delimiters hides nothing else. -/
theorem sign_of_contains {pos : Nat} {p : Char → Bool} (h : StandsAt source pos piece)
    (hsigns : ∀ c ∈ piece, p c = true) (hd : d ∈ mark source ⟨pos, pos + byteLength piece⟩ kind)
    {i : Nat} (hi : d.span.contains i = true) : ∃ c, source[i]? = some c ∧ p c = true := by
  obtain ⟨c, hc, hsource⟩ := exists_mem_of_contains h hd hi
  exact ⟨c, hsource, hsigns c hc⟩

/-- A span that begins and ends with delimiters is parted by them. -/
theorem surround_delimits {rule : DelimiterRule} {content : Span} {opening closing : List Char}
    (hstyle : rule.style ≠ .hide) (hordered : content.start ≤ content.stop)
    (hopening : StandsAt source bytes.start opening)
    (hclosing : StandsAt source content.stop closing)
    (hstart : content.start = bytes.start + byteLength opening)
    (hstop : bytes.stop = content.stop + byteLength closing)
    (hsigns : ∀ c ∈ opening ++ closing, rule.isSign c = true)
    (hfew : byteLength opening ≤ rule.most ∧ byteLength closing ≤ rule.most) :
    Delimits source rule (charSpan source bytes) (charSpan source content)
      (surround source bytes content rule.style) := by
  obtain ⟨hopensigns, hclosesigns⟩ := List.forall_mem_append.1 hsigns
  have hbefore : bytes.start ≤ content.start := hstart ▸ Nat.le_add_right _ _
  have hbehind : content.stop ≤ bytes.stop := hstop ▸ Nat.le_add_right _ _
  have hmarks {d : Decoration} : d ∈ surround source bytes content rule.style ↔
      (d ∈ mark source ⟨bytes.start, content.start⟩ .hide ∨
        d ∈ mark source content rule.style) ∨ d ∈ mark source ⟨content.stop, bytes.stop⟩ .hide := by
    rw [surround, List.mem_append, List.mem_append]
  have hkinds : ∀ d ∈ surround source bytes content rule.style,
      d.kind = .hide ∨ d.kind = rule.style := by
    intro d hd
    obtain (hd | hd) | hd := hmarks.1 hd
    · exact .inl (ends_of_mem_mark hd).2.2
    · exact .inr (ends_of_mem_mark hd).2.2
    · exact .inl (ends_of_mem_mark hd).2.2
  have hshown {d : Decoration} {s : Span} (hd : d ∈ mark source s .hide) :
      d.kind ≠ rule.style := (ends_of_mem_mark hd).2.2 ▸ hstyle.symm
  refine ⟨fun p => countP_surround hbefore hordered hbehind _ p, hkinds, fun p => ⟨?_, fun hp => ?_⟩,
    fun d hd hhide p hp => ?_, charOffset_mono source hordered,
    ⟨charOffset_mono source hbefore, ?_⟩, charOffset_mono source hbehind, ?_⟩
  · rintro ⟨d, hd, hkind, hp⟩
    obtain (hd | hd) | hd := hmarks.1 hd
    · exact absurd hkind (hshown hd)
    · obtain ⟨-, rfl⟩ := mem_mark.1 hd
      exact hp
    · exact absurd hkind (hshown hd)
  · have hlt : content.start < content.stop := by
      rw [contains_charSpan_iff] at hp
      apply Nat.lt_of_not_le
      intro hle
      have := charOffset_mono source hle
      omega
    exact ⟨_, hmarks.2 (.inl (.inr (mem_mark.2 ⟨hlt, rfl⟩))), rfl, hp⟩
  · obtain (hd | hd) | hd := hmarks.1 hd
    · exact sign_of_contains hopening hopensigns (hstart ▸ hd) hp
    · exact absurd ((ends_of_mem_mark hd).2.2.symm.trans hhide) hstyle
    · exact sign_of_contains hclosing hclosesigns (hstop ▸ hd) hp
  · have hlength := charOffset_stop_le hopening
    rw [← hstart] at hlength
    exact Nat.le_trans hlength (Nat.add_le_add_left hfew.1 _)
  · have hlength := charOffset_stop_le hclosing
    rw [← hstop] at hlength
    exact Nat.le_trans hlength (Nat.add_le_add_left hfew.2 _)

/-- A span with room for the runs of delimiters at its ends is parted by them. -/
theorem surround_runs_delimits {rule : DelimiterRule} (hsigns : OneByte rule.isSign)
    (hstyle : rule.style ≠ .hide) {m n : Nat} (hm : m ≤ rule.most) (hn : n ≤ rule.most)
    (hstop : bytes.stop = bytes.start + byteLength (raw source bytes))
    (hroom : runLength rule.isSign m (raw source bytes) +
      runLengthAtEnd rule.isSign n (raw source bytes) ≤ byteLength (raw source bytes)) :
    let content : Span := ⟨bytes.start + runLength rule.isSign m (raw source bytes),
      bytes.stop - runLengthAtEnd rule.isSign n (raw source bytes)⟩
    Delimits source rule (charSpan source bytes) (charSpan source content)
      (surround source bytes content rule.style) := by
  intro content
  have hopenlength := byteLength_take_runLength hsigns m (raw source bytes)
  have hcloselength := byteLength_closingRun hsigns n (raw source bytes)
  have hopenle : runLength rule.isSign m (raw source bytes) ≤ m := Nat.min_le_left _ _
  have hclosele : runLengthAtEnd rule.isSign n (raw source bytes) ≤ n := Nat.min_le_left _ _
  have hordered : content.start ≤ content.stop := by
    simp only [content]
    omega
  refine surround_delimits hstyle hordered
    ((standsAt_raw source bytes).of_isPrefix (List.take_prefix _ _))
    (standsAt_closingRun hsigns n source bytes) (by rw [hopenlength]) ?_
    (List.forall_mem_append.2 ⟨fun c => sign_of_mem_take_runLength, fun c => sign_of_mem_closingRun⟩)
    ⟨by omega, by omega⟩
  rw [hcloselength]
  simp only [content]
  omega

/-- A span that is all content is parted as well. -/
theorem mark_delimits {rule : DelimiterRule} (hstyle : rule.style ≠ .hide)
    (hle : bytes.start ≤ bytes.stop) :
    Delimits source rule (charSpan source bytes) (charSpan source bytes)
      (mark source bytes rule.style) := by
  rw [← surround_self]
  have hnothing (pos : Nat) : StandsAt source pos [] := fun h => absurd rfl h
  exact surround_delimits hstyle hle (hnothing _) (hnothing _) rfl rfl (List.forall_mem_nil _)
    ⟨Nat.zero_le _, Nat.zero_le _⟩

theorem emphasis_delimits (rule : DelimiterRule) (hsigns : OneByte rule.isSign)
    (hstyle : rule.style ≠ .hide) (ha : Aligned source bytes) (hle : bytes.start ≤ bytes.stop) :
    ∃ marks content, emphasis source bytes rule.isSign rule.most rule.style = .ok marks ∧
      Delimits source rule (charSpan source bytes) content marks := by
  rw [emphasis_eq]
  split
  · exact ⟨_, _, rfl, mark_delimits hstyle hle⟩
  next h =>
    have hroom := Nat.not_lt.1 (not_or.1 h).2
    exact ⟨_, _, rfl, surround_runs_delimits hsigns hstyle (Nat.le_refl _) (Nat.min_le_left _ _)
      (stop_eq_of_aligned ha hle) hroom⟩

/-- Math between dollar signs is parted by them, its symbols apart, or else it is a run of dollar
signs that is too short for them and gives nothing. -/
theorem dollarMath_delimits (options : Options) (rule : DelimiterRule)
    (hsigns : rule.isSign = isDollar) (hstyle : rule.style ≠ .hide ∧ rule.style ≠ .mathSymbol)
    (ha : Aligned source bytes) (hle : bytes.start ≤ bytes.stop) :
    ∃ marks, dollarMath source options bytes rule.most rule.style = .ok marks ∧
      ((∃ content, Delimits source rule (charSpan source bytes) content (plainOf marks)) ∨
        marks = [] ∧ ∃ n < 2 * rule.most, raw source bytes = List.replicate n '$') := by
  have hone : OneByte rule.isSign := hsigns ▸ oneByte_isDollar
  have hstop := stop_eq_of_aligned ha hle
  have hlength : bytes.length = byteLength (raw source bytes) := by
    rw [Span.length, hstop, Nat.add_sub_cancel_left]
  refine ⟨_, mathBetween_eq source options bytes _ _ rule.style, ?_⟩
  simp only [← hsigns]
  split
  next hroom =>
    have hroom := of_decide_eq_true hroom
    rw [hlength] at hroom
    rw [plainOf_append, plainOf_surround hstyle.2, plainOf_mathSymbols, List.append_nil]
    exact .inl ⟨_, surround_runs_delimits hone hstyle.1 (Nat.le_refl _) (Nat.le_refl _) hstop hroom⟩
  next hroom =>
    have hroom := mt decide_eq_true hroom
    rw [hlength, Nat.not_le] at hroom
    obtain ⟨hall, hshort⟩ := signs_of_lt hroom
    have hopenle : runLength rule.isSign rule.most (raw source bytes) ≤ rule.most :=
      Nat.min_le_left _ _
    have hclosele : runLengthAtEnd rule.isSign rule.most (raw source bytes) ≤ rule.most :=
      Nat.min_le_left _ _
    refine .inr ⟨rfl, (raw source bytes).length, by omega, List.eq_replicate_of_mem fun c hc => ?_⟩
    have hc := hall c hc
    rw [hsigns] at hc
    exact beq_iff_eq.1 hc

/-! ### Events -/

theorem displayKind_ne_hide (source : List Char) (bytes : Span) :
    displayKind source bytes ≠ .hide := by
  simp only [displayKind]
  split <;> decide

/-- An event of a construct with the same delimiters at both ends, over a span between characters,
gives marks that part the span, apart from the symbols of math. Only math gives nothing at all, where
it is a run of dollar signs that is too short for the delimiters at both ends. -/
theorem emit_delimits (options : Options) (w : Walk) {e : Event} {rule : DelimiterRule}
    (hrule : delimiterRule? source e = some rule) (ha : Aligned source e.span)
    (hle : e.span.start ≤ e.span.stop) :
    ∃ marks, emit source options w e = .ok marks ∧
      ((∃ content, Delimits source rule (charSpan source e.span) content (plainOf marks)) ∨
        (e.kind = .inlineMath ∨ e.kind = .displayMath) ∧ marks = [] ∧
          ∃ n < 2 * rule.most, raw source e.span = List.replicate n '$') := by
  have hemphasis (hinline : e.kind ≠ .inlineMath) (hdisplay : e.kind ≠ .displayMath)
      (hsigns : OneByte rule.isSign) (hstyle : rule.style ≠ .hide)
      (hemit : emit source options w e =
        emphasis source e.span rule.isSign rule.most rule.style) :
      ∃ marks content, emit source options w e = .ok marks ∧
        Delimits source rule (charSpan source e.span) content (plainOf marks) := by
    obtain ⟨marks, content, hmarks, h⟩ := emphasis_delimits rule hsigns hstyle ha hle
    rw [← hemit] at hmarks
    exact ⟨marks, content, hmarks, (plainOf_emit hinline hdisplay hmarks).symm ▸ h⟩
  obtain ⟨kind, span⟩ := e
  simp only [delimiterRule?] at hrule
  split at hrule
  case h_1 | h_2 =>
    obtain rfl := Option.some.inj hrule
    obtain ⟨marks, content, hmarks, h⟩ := hemphasis nofun nofun oneByte_isEmphasisSign nofun rfl
    exact ⟨marks, hmarks, .inl ⟨content, h⟩⟩
  case h_3 =>
    obtain rfl := Option.some.inj hrule
    obtain ⟨marks, content, hmarks, h⟩ := hemphasis nofun nofun oneByte_isTilde nofun rfl
    exact ⟨marks, hmarks, .inl ⟨content, h⟩⟩
  case h_4 =>
    obtain rfl := Option.some.inj hrule
    obtain ⟨marks, hmarks, h⟩ := dollarMath_delimits options ⟨isDollar, 1, .inlineMath⟩ rfl
      ⟨nofun, nofun⟩ ha hle
    exact ⟨marks, hmarks, h.imp_right fun h => ⟨.inl rfl, h⟩⟩
  case h_5 =>
    obtain rfl := Option.some.inj hrule
    obtain ⟨marks, hmarks, h⟩ := dollarMath_delimits options
      ⟨isDollar, 2, displayKind source span⟩ rfl
      ⟨displayKind_ne_hide _ _, displayKind_ne_mathSymbol _ _⟩ ha hle
    exact ⟨marks, hmarks, h.imp_right fun h => ⟨.inr rfl, h⟩⟩
  case h_6 => cases hrule

/-- Math on one line with two dollar signs before it and one behind it, and a letter of two
bytes. -/
theorem emit_delimits_uneven :
    let source := "$$é\\pi$".toList
    let e : Event := ⟨.displayMath, ⟨0, 8⟩⟩
    let rule : DelimiterRule := ⟨isDollar, 2, .inlineMath⟩
    delimiterRule? source e = some rule ∧ Aligned source e.span ∧ e.span.start ≤ e.span.stop ∧
    ∃ marks, emit source {} {} e = .ok marks ∧
      ((∃ content, Delimits source rule (charSpan source e.span) content (plainOf marks)) ∨
        (e.kind = .inlineMath ∨ e.kind = .displayMath) ∧ marks = [] ∧
          ∃ n < 2 * rule.most, raw source e.span = List.replicate n '$') := by
  intro source e rule
  have hrule : delimiterRule? source e = some rule := rfl
  have ha : Aligned source e.span := by decide
  exact ⟨hrule, ha, by decide, emit_delimits {} {} hrule ha (by decide)⟩

end MarkdownPreview.Writer
