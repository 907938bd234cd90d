import Mathlib.Data.List.Sort
import MarkdownPreview.Proofs.Syntax.BracketOrigin

/-! The rule by which bracket math is found. An opening delimiter would begin a span that ends at
the first closing delimiter with at least one character before it. Openers are taken from left to
right, and one outside the spans found so far opens its span unless an excluded byte is in the span
or a line of its body is blank. The scan searches for the next opener again and again, each time
from a later byte, and what it finds is what the rule says and nothing else. -/

namespace MarkdownPreview.Syntax

open Text

/-! ### The first closing delimiter -/

/-- The text begins with the body of bracket math and the delimiter that closes it, the first one
that leaves the body a character. -/
structure Closes (text body : List Char) : Prop where
  ne_nil : body ≠ []
  closed : body ++ ['\\', ']'] <+: text
  first : ∀ other, other ≠ [] → other ++ ['\\', ']'] <+: text → body <+: other

theorem isPrefix_of_untilClose? {text inner : List Char} (h : untilClose? text = some inner) :
    inner ++ ['\\', ']'] <+: text ∧
      ∀ other, other ++ ['\\', ']'] <+: text → inner <+: other := by
  fun_induction untilClose? text generalizing inner with
  | case1 => simp at h
  | case2 after =>
    obtain rfl := Option.some.inj h
    exact ⟨⟨after, rfl⟩, fun other _ => List.nil_prefix⟩
  | case3 c rest hne ih =>
    obtain ⟨inner, hinner, rfl⟩ := Option.map_eq_some_iff.1 h
    obtain ⟨hclosed, hfirst⟩ := ih hinner
    refine ⟨List.cons_prefix_cons.2 ⟨rfl, hclosed⟩, fun other hother => ?_⟩
    cases other with
    | nil =>
      obtain ⟨after, hafter⟩ := hother
      obtain ⟨rfl, rfl⟩ := List.cons.inj hafter
      exact absurd rfl (hne after rfl)
    | cons d other =>
      rw [List.cons_append, List.cons_prefix_cons] at hother
      obtain ⟨rfl, hother⟩ := hother
      exact List.cons_prefix_cons.2 ⟨rfl, hfirst other hother⟩

/-- Where a closing delimiter stands, one is found. -/
theorem exists_untilClose? {text inner : List Char} (h : inner ++ ['\\', ']'] <+: text) :
    ∃ found, untilClose? text = some found := by
  fun_induction untilClose? text generalizing inner with
  | case1 => simp at h
  | case2 after => exact ⟨[], rfl⟩
  | case3 c rest hne ih =>
    cases inner with
    | nil =>
      obtain ⟨after, hafter⟩ := h
      obtain ⟨rfl, rfl⟩ := List.cons.inj hafter
      exact absurd rfl (hne after rfl)
    | cons d inner =>
      obtain ⟨found, hfound⟩ := ih (List.cons_prefix_cons.1 h).2
      exact ⟨c :: found, by rw [hfound]; rfl⟩

theorem closes_of_mathBody? {text body : List Char} (h : mathBody? text = some body) :
    Closes text body := by
  cases text with
  | nil => simp [mathBody?] at h
  | cons c rest =>
    obtain ⟨inner, hinner, rfl⟩ := Option.map_eq_some_iff.1 h
    obtain ⟨hclosed, hfirst⟩ := isPrefix_of_untilClose? hinner
    refine ⟨List.cons_ne_nil c inner, List.cons_prefix_cons.2 ⟨rfl, hclosed⟩, fun other hne h => ?_⟩
    obtain ⟨d, other, rfl⟩ := List.exists_cons_of_ne_nil hne
    rw [List.cons_append, List.cons_prefix_cons] at h
    obtain ⟨rfl, hother⟩ := h
    exact List.cons_prefix_cons.2 ⟨rfl, hfirst other hother⟩

theorem exists_mathBody? {text body : List Char} (hne : body ≠ [])
    (h : body ++ ['\\', ']'] <+: text) : ∃ found, mathBody? text = some found := by
  obtain ⟨d, inner, rfl⟩ := List.exists_cons_of_ne_nil hne
  cases text with
  | nil => simp at h
  | cons c rest =>
    obtain ⟨found, hfound⟩ := exists_untilClose? (List.cons_prefix_cons.1 h).2
    exact ⟨c :: found, by rw [mathBody?, hfound]; rfl⟩

theorem mathBody?_eq_some_iff {text body : List Char} :
    mathBody? text = some body ↔ Closes text body := by
  constructor
  · exact closes_of_mathBody?
  · intro h
    obtain ⟨found, hfound⟩ := exists_mathBody? h.ne_nil h.closed
    have hclosed := closes_of_mathBody? hfound
    have hle := (hclosed.first body h.ne_nil h.closed).length_le
    rw [hfound, (h.first found hclosed.ne_nil hclosed.closed).eq_of_length_le hle]

theorem Closes.unique {text body other : List Char} (h : Closes text body)
    (h' : Closes text other) : body = other := by
  rw [← mathBody?_eq_some_iff] at h h'
  exact Option.some.inj (h.symm.trans h')

/-- A text that is closed further on is closed as a whole. -/
theorem exists_mathBody?_of_suffix {text rest body : List Char} (hrest : rest <:+ text)
    (h : Closes rest body) : ∃ found, mathBody? text = some found := by
  obtain ⟨before, rfl⟩ := hrest
  obtain ⟨after, rfl⟩ := h.closed
  have hne : before ++ body ≠ [] := by simp [h.ne_nil]
  exact exists_mathBody? hne ⟨after, by simp⟩

/-! ### Openers -/

/-- An opening delimiter stands at byte `pos` of the source, and the text behind it. -/
def OpensAt (source : List Char) (pos : Nat) (text : List Char) : Prop :=
  ∃ before, source = before ++ '\\' :: '[' :: text ∧ byteLength before = pos

theorem opensAt_iff {source text : List Char} {pos : Nat} :
    OpensAt source pos text ↔ dropBytes? source pos = some ('\\' :: '[' :: text) :=
  dropBytes?_eq_some_iff.symm

theorem OpensAt.unique {source text text' : List Char} {pos : Nat} (h : OpensAt source pos text)
    (h' : OpensAt source pos text') : text = text' := by
  rw [opensAt_iff] at h h'
  exact (List.cons.inj (List.cons.inj (Option.some.inj (h.symm.trans h'))).2).2

/-- From a character of the source on, an opener stands at that character or behind it. -/
theorem OpensAt.cases_cons {before rest text : List Char} {c : Char} {pos : Nat}
    (h : OpensAt (before ++ c :: rest) pos text) (hle : byteLength before ≤ pos) :
    (byteLength before = pos ∧ c = '\\' ∧ rest = '[' :: text) ∨
      byteLength before + c.utf8Size ≤ pos ∧ text <:+ rest := by
  obtain ⟨upto, hsplit, rfl⟩ := h
  obtain ⟨piece, rfl, hpiece⟩ | ⟨piece, rfl, hpiece⟩ := List.append_eq_append_iff.1 hsplit
  · cases piece with
    | nil =>
      obtain ⟨rfl, hrest⟩ := List.cons.inj hpiece
      exact .inl ⟨by rw [List.append_nil], rfl, hrest⟩
    | cons d piece =>
      obtain ⟨rfl, rfl⟩ := List.cons.inj hpiece
      refine .inr ⟨?_, piece ++ ['\\', '['], by simp⟩
      rw [byteLength_append, byteLength_cons]
      omega
  · obtain rfl : piece = [] := by
      rw [← byteLength_eq_zero_iff]
      rw [byteLength_append] at hle
      omega
    obtain ⟨rfl, hrest⟩ := List.cons.inj hpiece.symm
    exact .inl ⟨by rw [List.append_nil], rfl, hrest⟩

/-- The two characters of an opener do not belong to another one. -/
theorem OpensAt.add_two_le {source text text' : List Char} {pos pos' : Nat}
    (h : OpensAt source pos text) (h' : OpensAt source pos' text') (hlt : pos < pos') :
    pos + 2 ≤ pos' ∧ text' <:+ text := by
  obtain ⟨before, rfl, rfl⟩ := h
  have hslash : '\\'.utf8Size = 1 := rfl
  have hbracket : '['.utf8Size = 1 := rfl
  obtain ⟨heq, -⟩ | ⟨hle, -⟩ := h'.cases_cons (Nat.le_of_lt hlt)
  · omega
  · rw [List.append_cons] at h'
    have hsum : byteLength (before ++ ['\\']) = byteLength before + 1 := byteLength_append _ _
    obtain ⟨-, hne, -⟩ | ⟨hle', hsuffix⟩ := h'.cases_cons (by omega)
    · exact absurd hne (by decide)
    · exact ⟨by omega, hsuffix⟩

theorem OpensAt.lt_byteLength {source text : List Char} {pos : Nat} (h : OpensAt source pos text) :
    pos < byteLength source := by
  obtain ⟨before, rfl, rfl⟩ := h
  rw [byteLength_append, byteLength_cons]
  have := Char.utf8Size_pos '\\'
  omega

/-! ### The rule -/

/-- An opener begins the span, and it ends with the first closing delimiter that leaves a body. No
line of the body is blank, and no byte of the span, its opener included, is in an excluded range. -/
structure Qualifies (source : List Char) (excluded : List Span) (s : Span) : Prop where
  delimited : ∃ text body, OpensAt source s.start text ∧ Closes text body ∧
    s.stop = s.start + 4 + byteLength body ∧ ¬ HoldsBlankLine body
  free : ∀ x ∈ excluded, ∀ p, s.contains p = true → x.contains p = false

/-- The spans are those that the openers from byte `first` on begin, from left to right: an opener
begins a span just when that one qualifies and no span begun before holds the opener. -/
structure Greedy (source : List Char) (excluded : List Span) (first : Nat) (spans : List Span) :
    Prop where
  ordered : spans.Pairwise fun s t => s.start < t.start
  mem_iff : ∀ s, s ∈ spans ↔ first ≤ s.start ∧ Qualifies source excluded s ∧
    ∀ t ∈ spans, t.start < s.start → t.stop ≤ s.start

variable {source : List Char} {excluded ranges : List Span} {first : Nat} {spans : List Span}

/-- One opener qualifies for one span at most. -/
theorem Qualifies.eq_of_start {s t : Span} (hs : Qualifies source excluded s)
    (ht : Qualifies source excluded t) (h : s.start = t.start) : s = t := by
  obtain ⟨text, body, hopen, hcloses, hstop, -⟩ := hs.delimited
  obtain ⟨text', body', hopen', hcloses', hstop', -⟩ := ht.delimited
  obtain rfl := hopen.unique (h ▸ hopen')
  obtain rfl := hcloses.unique hcloses'
  exact Span.mk.injEq .. ▸ ⟨h, by rw [hstop, hstop', h]⟩

/-- The rule leaves no choice. -/
theorem Greedy.unique {other : List Span} (h : Greedy source excluded first spans)
    (h' : Greedy source excluded first other) : other = spans := by
  have hmem : ∀ n, ∀ s : Span, s.start = n → (s ∈ other ↔ s ∈ spans) := by
    intro n
    induction n using Nat.strong_induction_on with
    | h n ih =>
      intro s hs
      rw [h.mem_iff, h'.mem_iff]
      refine and_congr_right fun _ => and_congr_right fun _ => ?_
      refine forall_congr' fun t => ?_
      constructor
      · intro hclear ht hlt
        exact hclear ((ih t.start (hs ▸ hlt) t rfl).2 ht) hlt
      · intro hclear ht hlt
        exact hclear ((ih t.start (hs ▸ hlt) t rfl).1 ht) hlt
  have : Std.Irrefl fun s t : Span => s.start < t.start := ⟨fun s => Nat.lt_irrefl s.start⟩
  have : Std.Antisymm fun s t : Span => s.start < t.start :=
    ⟨fun s t hst hts => absurd hst (Nat.lt_asymm hts)⟩
  exact h'.ordered.eq_of_mem_iff h.ordered fun s => hmem s.start s rfl

theorem Greedy.nil (h : ∀ s, Qualifies source excluded s → s.start < first) :
    Greedy source excluded first [] := by
  refine ⟨.nil, fun s => ?_⟩
  constructor
  · intro hs
    exact absurd hs List.not_mem_nil
  · rintro ⟨hle, hs, -⟩
    exact absurd (h s hs) (Nat.not_lt.2 hle)

/-- Openers that begin no span may be passed over. -/
theorem Greedy.skip {later : Nat} (h : Greedy source excluded later spans) (hle : first ≤ later)
    (hgap : ∀ s, Qualifies source excluded s → first ≤ s.start → later ≤ s.start) :
    Greedy source excluded first spans := by
  refine ⟨h.ordered, fun s => (h.mem_iff s).trans ?_⟩
  constructor
  · rintro ⟨hs, hq, hclear⟩
    exact ⟨Nat.le_trans hle hs, hq, hclear⟩
  · rintro ⟨hs, hq, hclear⟩
    exact ⟨hgap s hq hs, hq, hclear⟩

/-- An opener that qualifies begins a span, and the openers inside that span begin none. -/
theorem Greedy.cons {s : Span} (h : Greedy source excluded s.stop spans)
    (hs : Qualifies source excluded s) : Greedy source excluded s.start (s :: spans) := by
  have hlt : s.start < s.stop := by
    obtain ⟨_, _, -, -, hstop, -⟩ := hs.delimited
    omega
  have hbehind : ∀ t ∈ spans, s.stop ≤ t.start := fun t ht => ((h.mem_iff t).1 ht).1
  have hordered : (s :: spans).Pairwise fun s t => s.start < t.start :=
    List.pairwise_cons.2 ⟨fun t ht => Nat.lt_of_lt_of_le hlt (hbehind t ht), h.ordered⟩
  refine ⟨hordered, fun u => ?_⟩
  rw [List.mem_cons, List.forall_mem_cons]
  constructor
  · rintro (rfl | hu)
    · refine ⟨Nat.le_refl _, hs, fun hself => absurd hself (Nat.lt_irrefl _), fun t ht hback => ?_⟩
      have := hbehind t ht
      omega
    · obtain ⟨hfrom, hq, hclear⟩ := (h.mem_iff u).1 hu
      exact ⟨by omega, hq, fun _ => hfrom, hclear⟩
  · rintro ⟨hfrom, hq, hself, hclear⟩
    obtain heq | hback := Nat.eq_or_lt_of_le hfrom
    · exact .inl (hq.eq_of_start hs heq.symm)
    · exact .inr ((h.mem_iff u).2 ⟨hself hback, hq, hclear⟩)

/-! ### One opener -/

/-- What is excluded overlaps no byte of a span that has one. -/
theorem overlap_foldl_add_iff {s : Span} (hlt : s.start < s.stop) :
    ExcludedSpans.overlap (ranges.foldl ExcludedSpans.add []) s = true ↔
      ∃ x ∈ ranges, ∃ p, s.contains p = true ∧ x.contains p = true := by
  simp only [ExcludedSpans.overlap, List.any_eq_true, ExcludedSpans.mem_foldl_add,
    List.not_mem_nil, false_or, Span.overlaps, Span.contains, Span.isEmpty, Bool.and_eq_true,
    decide_eq_true_eq, decide_eq_false_iff_not]
  constructor
  · rintro ⟨x, ⟨hx, hne⟩, hleft, hright⟩
    exact ⟨x, hx, max x.start s.start, by omega, by omega⟩
  · rintro ⟨x, hx, p, hp, hxp⟩
    exact ⟨x, ⟨hx, by omega⟩, by omega, by omega⟩

/-- No byte up to the end of the excluded ranges around an opener is outside them. -/
theorem exists_contains_of_endAt? {pos stop q : Nat}
    (h : ExcludedSpans.endAt? (ranges.foldl ExcludedSpans.add []) pos = some stop) (hle : pos ≤ q)
    (hlt : q < stop) : ∃ x ∈ ranges, x.contains q = true := by
  obtain ⟨x, hx, hpos, rfl⟩ := ExcludedSpans.exists_of_endAt? h
  obtain ⟨hx, -⟩ := (ExcludedSpans.mem_foldl_add.1 hx).resolve_left List.not_mem_nil
  rw [Span.contains_iff] at hpos
  exact ⟨x, hx, Span.contains_iff.2 ⟨by omega, hlt⟩⟩

theorem judgeOpener_of_qualifies {text body : List Char} {pos : Nat}
    (hopen : OpensAt source pos text) (hcloses : Closes text body)
    (hq : Qualifies source ranges ⟨pos, pos + 4 + byteLength body⟩) :
    judgeOpener (ranges.foldl ExcludedSpans.add []) pos body =
      (pos + 4 + byteLength body, some ⟨pos, pos + 4 + byteLength body⟩) := by
  have hself : (⟨pos, pos + 4 + byteLength body⟩ : Span).contains pos = true := by
    simp [Span.contains]
    omega
  have hend : ExcludedSpans.endAt? (ranges.foldl ExcludedSpans.add []) pos = none := by
    rw [Option.eq_none_iff_forall_ne_some]
    intro stop hstop
    have hlt : pos < stop := by
      obtain ⟨x, -, hpos, rfl⟩ := ExcludedSpans.exists_of_endAt? hstop
      exact of_decide_eq_true (Bool.and_eq_true_iff.1 hpos).2
    obtain ⟨x, hx, hpos⟩ := exists_contains_of_endAt? hstop (Nat.le_refl pos) hlt
    exact Bool.false_ne_true ((hq.free x hx pos hself).symm.trans hpos)
  have hoverlap : ExcludedSpans.overlap (ranges.foldl ExcludedSpans.add [])
      ⟨pos, pos + 4 + byteLength body⟩ = false := by
    rw [Bool.eq_false_iff, ne_eq, overlap_foldl_add_iff (by simp only; omega)]
    rintro ⟨x, hx, p, hp, hxp⟩
    exact Bool.false_ne_true ((hq.free x hx p hp).symm.trans hxp)
  have hblank : spansBlankLine body = false := by
    obtain ⟨text', body', hopen', hcloses', -, hblank⟩ := hq.delimited
    obtain rfl := hopen.unique hopen'
    obtain rfl := hcloses.unique hcloses'
    exact Bool.eq_false_iff.2 (mt spansBlankLine_iff.1 hblank)
  rw [judgeOpener, hend]
  simp only [hoverlap, hblank, Bool.or_self, Bool.false_eq_true, if_false]

/-- An opener that does not qualify sends the scan behind itself, and past nothing but excluded
bytes. -/
theorem judgeOpener_of_not_qualifies {text body : List Char} {pos : Nat}
    (hopen : OpensAt source pos text) (hcloses : Closes text body)
    (hq : ¬ Qualifies source ranges ⟨pos, pos + 4 + byteLength body⟩) :
    ∃ next, judgeOpener (ranges.foldl ExcludedSpans.add []) pos body = (next, none) ∧
      ∀ q, pos + 2 ≤ q → q < next → ∃ x ∈ ranges, x.contains q = true := by
  rw [judgeOpener]
  split
  next stop hstop =>
    refine ⟨_, rfl, fun q hle hlt => exists_contains_of_endAt? hstop (by omega) (by omega)⟩
  · split
    · exact ⟨_, rfl, fun q hle hlt => absurd hlt (Nat.not_lt.2 hle)⟩
    next hfree =>
      simp only [Bool.or_eq_true, not_or, Bool.not_eq_true] at hfree
      refine absurd ⟨⟨text, body, hopen, hcloses, rfl, ?_⟩, fun x hx p hp => ?_⟩ hq
      · rw [← spansBlankLine_iff, hfree.2]
        exact Bool.false_ne_true
      · by_contra hxp
        rw [Bool.not_eq_false] at hxp
        have hoverlap := (overlap_foldl_add_iff (by simp only; omega)).2 ⟨x, hx, p, hp, hxp⟩
        exact Bool.false_ne_true (hfree.1.symm.trans hoverlap)

/-! ### The rounds of the scan -/

/-- The first opener from byte `pos` on that some closing delimiter follows. -/
structure NextOpener (source : List Char) (pos start : Nat) (body : List Char) : Prop where
  le : pos ≤ start
  opens : ∃ text, OpensAt source start text ∧ Closes text body
  first : ∀ q text other, pos ≤ q → q < start → OpensAt source q text → ¬ Closes text other

/-- A search from byte `pos` for an opener, judged by `judgeOpener`, then a search from where that
sends it, and so on until there is none. The bytes at which the later searches begin are listed, and
the spans that are found. -/
inductive Rounds (source : List Char) (excluded : ExcludedSpans) :
    Nat → List Nat → List Span → Prop
  | done {pos : Nat} (hnone : ∀ q text body, pos ≤ q → OpensAt source q text → ¬ Closes text body) :
      Rounds source excluded pos [] []
  | round {pos start next : Nat} {body : List Char} {found : Option Span} {later : List Nat}
      {spans : List Span} (hopener : NextOpener source pos start body)
      (hjudge : judgeOpener excluded start body = (next, found))
      (hrest : Rounds source excluded next later spans) :
      Rounds source excluded pos (next :: later) (found.toList ++ spans)

theorem rounds_of_bracketMathFrom {excluded : ExcludedSpans} {length : Nat}
    {before text : List Char} {pos resume p : Nat}
    (h : bracketMathFrom excluded length pos resume text = .ok spans)
    (hs : source = before ++ text) (hpos : byteLength before = pos) (hp : p ≤ max resume pos)
    (hgap : ∀ q text body, p ≤ q → q < max resume pos → OpensAt source q text →
      ¬ Closes text body) : ∃ later, Rounds source excluded p later spans := by
  fun_induction bracketMathFrom excluded length pos resume text generalizing before spans p with
  | case1 pos resume rest hlt ih =>
    have hmax : max resume (pos + 1) = max resume pos := by omega
    exact ih h (hs.trans (List.append_cons _ _ _)) (by rw [byteLength_append, hpos]; rfl)
      (hmax ▸ hp) (hmax ▸ hgap)
  | case2 pos resume rest hlt hbody =>
    obtain rfl := Except.ok.inj h
    have hopen : OpensAt source pos rest := ⟨before, hs, hpos⟩
    refine ⟨[], .done fun q text body hle hq hcloses => ?_⟩
    have hrest : text <:+ rest := by
      obtain hback | rfl | hahead := Nat.lt_trichotomy q pos
      · exact absurd hcloses (hgap q text body hle (by omega) hq)
      · exact hopen.unique hq ▸ List.suffix_refl rest
      · exact (hopen.add_two_le hq hahead).2
    obtain ⟨found, hfound⟩ := exists_mathBody?_of_suffix hrest hcloses
    simp [hbody] at hfound
  | case3 => cases h
  | case4 pos resume rest hlt body hbody next found hjudge hover ih =>
    obtain ⟨spans, hrun, rfl⟩ := exists_of_map_eq_ok h
    have hnext : pos < next := (free_of_judgeOpener hjudge).1
    have hmax : max next (pos + 1) = next := Nat.max_eq_left hnext
    obtain ⟨later, hrounds⟩ := ih hrun (hs.trans (List.append_cons _ _ _))
      (by rw [byteLength_append, hpos]; rfl) (Nat.le_of_eq hmax.symm)
      (fun q text body hle hq => absurd hq (by omega))
    have hopener : NextOpener source p pos body := by
      refine ⟨by omega, ⟨rest, ⟨before, hs, hpos⟩, closes_of_mathBody? hbody⟩, ?_⟩
      exact fun q text other hle hq => hgap q text other hle (by omega)
    exact ⟨next :: later, .round hopener hjudge hrounds⟩
  | case5 pos resume c rest hne ih =>
    refine ih h (hs.trans (List.append_cons _ _ _)) (by rw [byteLength_append, hpos]; rfl)
      (by omega) fun q text body hle hq hopen => ?_
    obtain hback | hahead := Nat.lt_or_ge q (max resume pos)
    · exact hgap q text body hle hback hopen
    · have hsize : byteLength [c] = c.utf8Size := rfl
      obtain ⟨-, rfl, rfl⟩ | ⟨hlt, -⟩ := (hs ▸ hopen).cases_cons (by omega)
      · exact absurd rfl (hne text rfl)
      · omega
  | case6 pos resume =>
    obtain rfl := Except.ok.inj h
    rw [List.append_nil] at hs
    refine ⟨[], .done fun q text body hle hopen => ?_⟩
    have := hopen.lt_byteLength
    exact hgap q text body hle (by rw [hs] at this; omega) hopen

theorem rounds_of_bracketMath {excluded : ExcludedSpans}
    (h : bracketMath source excluded = .ok spans) : ∃ later, Rounds source excluded 0 later spans :=
  rounds_of_bracketMathFrom h (List.nil_append source).symm rfl (Nat.zero_le _)
    fun _ _ _ _ hlt => absurd hlt (Nat.not_lt_zero _)

/-- Every search begins further on, and none past the end of the source. -/
theorem Rounds.ascending {excluded : ExcludedSpans} {pos : Nat} {later : List Nat}
    (h : Rounds source excluded pos later spans)
    (hex : ∀ s ∈ excluded, s.stop ≤ byteLength source) :
    (pos :: later).Pairwise (· < ·) ∧ ∀ p ∈ later, p ≤ byteLength source := by
  induction h with
  | done => exact ⟨List.pairwise_singleton _ _, by simp⟩
  | @round pos start next body found later spans hopener hjudge hrest ih =>
    obtain ⟨hascending, hle⟩ := ih
    obtain ⟨text, ⟨before, hs, hpos⟩, hcloses⟩ := hopener.opens
    obtain ⟨after, rfl⟩ := hcloses.closed
    have hlt : pos < next := Nat.lt_of_le_of_lt hopener.le (free_of_judgeOpener hjudge).1
    rw [List.append_assoc] at hs
    have hfit : start + 4 + byteLength body ≤ byteLength source := opener_fits hs hpos
    have hnext : next ≤ byteLength source := by
      have hle := judgeOpener_fst_le hex hfit
      rwa [hjudge] at hle
    have hbehind : ∀ p ∈ next :: later, pos < p := by
      refine List.forall_mem_cons.2 ⟨hlt, fun p hp => ?_⟩
      exact Nat.lt_trans hlt (List.rel_of_pairwise_cons hascending hp)
    exact ⟨List.pairwise_cons.2 ⟨hbehind, hascending⟩, List.forall_mem_cons.2 ⟨hnext, hle⟩⟩

/-- What the rounds find is what the rule says. -/
theorem Rounds.greedy {pos : Nat} {later : List Nat}
    (h : Rounds source (ranges.foldl ExcludedSpans.add []) pos later spans) :
    Greedy source ranges pos spans := by
  induction h with
  | done hnone =>
    refine .nil fun s hs => ?_
    obtain ⟨text, body, hopen, hcloses, -⟩ := hs.delimited
    exact Nat.lt_of_not_le fun hle => hnone s.start text body hle hopen hcloses
  | @round pos start next body found later spans hopener hjudge hrest ih =>
    obtain ⟨text, hopen, hcloses⟩ := hopener.opens
    have hfirst : ∀ s, Qualifies source ranges s → pos ≤ s.start → start ≤ s.start := by
      intro s hs hle
      obtain ⟨text', body', hopen', hcloses', -⟩ := hs.delimited
      exact Nat.le_of_not_lt fun hlt => hopener.first _ text' body' hle hlt hopen' hcloses'
    by_cases hq : Qualifies source ranges ⟨start, start + 4 + byteLength body⟩
    · rw [judgeOpener_of_qualifies hopen hcloses hq] at hjudge
      obtain ⟨rfl, rfl⟩ := Prod.mk.inj hjudge
      exact (ih.cons hq).skip hopener.le hfirst
    · obtain ⟨next', hjudge', hexcluded⟩ := judgeOpener_of_not_qualifies hopen hcloses hq
      rw [hjudge'] at hjudge
      obtain ⟨rfl, rfl⟩ := Prod.mk.inj hjudge
      have hlt : start < next' := (free_of_judgeOpener hjudge').1
      refine ih.skip (by have := hopener.le; omega) fun s hs hle => Nat.le_of_not_lt fun hback => ?_
      obtain ⟨text', body', hopen', hcloses', hstop, -⟩ := hs.delimited
      obtain heq | hahead := Nat.eq_or_lt_of_le (hfirst s hs hle)
      · obtain rfl := hopen.unique (heq ▸ hopen')
        obtain rfl := hcloses.unique hcloses'
        exact hq (by rw [heq, ← hstop]; exact hs)
      · obtain ⟨x, hx, hxs⟩ := hexcluded _ (hopen.add_two_le hopen' hahead).1 hback
        have hself : s.contains s.start = true := by
          rw [Span.contains_iff]
          omega
        exact Bool.false_ne_true ((hs.free x hx _ hself).symm.trans hxs)

/-- The scan gets to its end in finitely many rounds, each further on in the source, and finds the
spans of the rule, which admits no others. -/
theorem bracketMath_greedy (hin : ∀ s ∈ ranges, Within source s) :
    ∃ later spans, bracketMath source (ranges.foldl ExcludedSpans.add []) = .ok spans ∧
      Rounds source (ranges.foldl ExcludedSpans.add []) 0 later spans ∧
      (0 :: later).Pairwise (· < ·) ∧ (∀ p ∈ later, p ≤ byteLength source) ∧
      ∀ other, Greedy source ranges 0 other ↔ other = spans := by
  have hex : ∀ s ∈ ranges.foldl ExcludedSpans.add [], s.stop ≤ byteLength source := by
    intro s hs
    obtain ⟨hs, -⟩ := (ExcludedSpans.mem_foldl_add.1 hs).resolve_left List.not_mem_nil
    exact (hin s hs).2
  obtain ⟨spans, hrun, -⟩ := bracketMath_found hex
  obtain ⟨later, hrounds⟩ := rounds_of_bracketMath hrun
  obtain ⟨hascending, hle⟩ := hrounds.ascending hex
  refine ⟨later, spans, hrun, hrounds, hascending, hle, fun other => ?_⟩
  constructor
  · exact hrounds.greedy.unique
  · rintro rfl
    exact hrounds.greedy

/-- Of two nested ranges the outer one decides where the scan goes on: the opener between their ends
is excluded, and the one behind both begins a span. -/
theorem bracketMath_greedy_of_nested_ranges :
    (∀ s ∈ [⟨0, 9⟩, ⟨0, 3⟩], Within r"\[ \[ab\[\[x\]".toList s) ∧
      ∃ later, Rounds r"\[ \[ab\[\[x\]".toList
        ([⟨0, 9⟩, ⟨0, 3⟩].foldl ExcludedSpans.add []) 0 later [⟨9, 14⟩] ∧
        ∀ other, Greedy r"\[ \[ab\[\[x\]".toList [⟨0, 9⟩, ⟨0, 3⟩] 0 other ↔ other = [⟨9, 14⟩] := by
  have hin : ∀ s ∈ [⟨0, 9⟩, ⟨0, 3⟩], Within r"\[ \[ab\[\[x\]".toList s := by decide
  obtain ⟨later, spans, hrun, hrounds, -, -, hgreedy⟩ := bracketMath_greedy hin
  have hspans : bracketMath r"\[ \[ab\[\[x\]".toList
      ([⟨0, 9⟩, ⟨0, 3⟩].foldl ExcludedSpans.add []) = .ok [⟨9, 14⟩] := by
    decide +kernel
  obtain rfl := Except.ok.inj (hrun.symm.trans hspans)
  exact ⟨hin, later, hrounds, hgreedy⟩

end MarkdownPreview.Syntax
