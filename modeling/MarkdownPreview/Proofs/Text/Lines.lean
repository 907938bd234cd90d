import MarkdownPreview.Text.Line

/-! Runs of lines as sets. From one position to the next the line number goes up by one behind a
line break, and else stays, so an interval of positions has positions on every line from that of its
first to that of its last. Two runs of lines then overlap just when their intervals have positions
on one line. Offsets past the end of a text stand for its end. The last part says where it matters
that the lines of a span are looked up before the span is cut there: past a line break at the end of
the text. -/

namespace MarkdownPreview.Text

/-! ### Line numbers -/

@[simp] theorem lineOf_zero (text : List Char) : lineOf text 0 = 0 := by cases text <;> rfl

/-- From any position on, lines are counted as in the text that begins there. -/
theorem lineOf_append_add (u v : List Char) (n : Nat) :
    lineOf (u ++ v) (u.length + n) = lineOf (u ++ v) u.length + lineOf v n := by
  induction u with
  | nil => simp
  | cons c u ih =>
    have hlength : (c :: u).length + n = u.length + n + 1 := by
      rw [List.length_cons]
      omega
    rw [List.cons_append, hlength, lineOf, List.length_cons, lineOf, ih, Nat.add_assoc]

theorem lineOf_eq_zero {piece : List Char} (after : List Char)
    (h : ∀ c ∈ piece, ∀ rest, endsLine c rest = false) {n : Nat} (hn : n ≤ piece.length) :
    lineOf (piece ++ after) n = 0 := by
  induction piece generalizing n with
  | nil =>
    obtain rfl : n = 0 := Nat.le_zero.1 hn
    exact lineOf_zero _
  | cons c piece ih =>
    obtain ⟨hc, hrest⟩ := List.forall_mem_cons.1 h
    cases n with
    | zero => exact lineOf_zero _
    | succ n =>
      rw [List.cons_append, lineOf, hc, if_neg Bool.false_ne_true, Nat.zero_add]
      exact ih hrest (Nat.le_of_succ_le_succ hn)

/-- A piece of text in which no line ends is on one line, up to and including the position behind
it. -/
theorem lineOf_eq_of_mem_piece {before piece : List Char} (after : List Char)
    (h : ∀ c ∈ piece, ∀ rest, endsLine c rest = false) {p : Nat} (hstart : before.length ≤ p)
    (hstop : p ≤ before.length + piece.length) :
    lineOf (before ++ (piece ++ after)) p = lineOf (before ++ (piece ++ after)) before.length := by
  obtain ⟨n, rfl⟩ := Nat.exists_eq_add_of_le hstart
  rw [lineOf_append_add, lineOf_eq_zero after h (by omega), Nat.add_zero]

/-- The character at the position completes a line break. -/
def BreaksAt (text : List Char) (n : Nat) : Prop :=
  text[n]? ∈ [some '\n', some '\x0b', some '\x0c', some '\u0085', some '\u2028', some '\u2029'] ∨
    text[n]? = some '\r' ∧ text[n + 1]? ≠ some '\n'

instance (text : List Char) (n : Nat) : Decidable (BreaksAt text n) :=
  inferInstanceAs (Decidable (_ ∨ _ ∧ _))

theorem breaksAt_zero_iff (c : Char) (cs : List Char) :
    BreaksAt (c :: cs) 0 ↔ endsLine c cs = true := by
  simp [BreaksAt, endsLine, List.head?_eq_getElem?, or_assoc]

theorem lineOf_succ (text : List Char) (n : Nat) :
    lineOf text (n + 1) = lineOf text n + if BreaksAt text n then 1 else 0 := by
  induction text generalizing n with
  | nil => simp [lineOf, BreaksAt]
  | cons c cs ih =>
    cases n with
    | zero =>
      simp only [lineOf, lineOf_zero, breaksAt_zero_iff]
      exact Nat.add_comm _ _
    | succ n =>
      rw [lineOf, ih, ← Nat.add_assoc]
      rfl

theorem lineOf_succ_le (text : List Char) (n : Nat) : lineOf text (n + 1) ≤ lineOf text n + 1 := by
  rw [lineOf_succ]
  split <;> omega

theorem lineOf_min_length (text : List Char) (n : Nat) :
    lineOf text (min n text.length) = lineOf text n := by
  induction text generalizing n with
  | nil => rfl
  | cons c cs ih =>
    cases n with
    | zero => rw [Nat.zero_min]
    | succ n => rw [List.length_cons, Nat.add_min_add_right, lineOf, ih, lineOf]

/-- No line between those of two positions is passed over. -/
theorem exists_lineOf_eq {text : List Char} {first last line : Nat} (hle : first ≤ last)
    (hfirst : lineOf text first ≤ line) (hlast : line ≤ lineOf text last) :
    ∃ p, first ≤ p ∧ p ≤ last ∧ lineOf text p = line := by
  induction hle with
  | refl => exact ⟨first, Nat.le_refl _, Nat.le_refl _, Nat.le_antisymm hfirst hlast⟩
  | @step last hle ih =>
    by_cases h : line ≤ lineOf text last
    · obtain ⟨p, hp, hpl, hline⟩ := ih h
      exact ⟨p, hp, Nat.le_succ_of_le hpl, hline⟩
    · have hline := Nat.le_trans (lineOf_succ_le text last) (Nat.not_le.1 h)
      exact ⟨last + 1, Nat.le_succ_of_le hle, Nat.le_refl _, Nat.le_antisymm hline hlast⟩

/-- The lines of the positions of a closed interval. -/
theorem exists_lineOf_eq_iff {text : List Char} {first last line : Nat} (hle : first ≤ last) :
    (∃ p, first ≤ p ∧ p ≤ last ∧ lineOf text p = line) ↔
      lineOf text first ≤ line ∧ line ≤ lineOf text last := by
  constructor
  · rintro ⟨p, hfirst, hlast, rfl⟩
    exact ⟨lineOf_mono text hfirst, lineOf_mono text hlast⟩
  · rintro ⟨hfirst, hlast⟩
    exact exists_lineOf_eq hle hfirst hlast

/-! ### Runs of lines -/

/-- The position is one of the span's, or the start of an empty span. -/
def Span.Occupies (s : Span) (p : Nat) : Prop :=
  s.contains p = true ∨ s.isEmpty = true ∧ p = s.start

theorem Span.occupies_iff {s : Span} {p : Nat} :
    s.Occupies p ↔ s.start ≤ p ∧ p < s.stop ∨ s.stop ≤ s.start ∧ p = s.start := by
  rw [Occupies, contains_iff, isEmpty, decide_eq_true_eq]

theorem Span.occupies_start (s : Span) : s.Occupies s.start := by
  rw [occupies_iff]
  omega

theorem Span.occupies_last {s : Span} (h : s.start < s.stop) : s.Occupies (s.stop - 1) := by
  rw [occupies_iff]
  omega

theorem Span.Occupies.bounds {s : Span} {p : Nat} (h : s.Occupies p) (hs : s.start < s.stop) :
    s.start ≤ p ∧ p ≤ s.stop - 1 := by
  rw [occupies_iff] at h
  omega

/-- The line is one of the run's. -/
def LineSpan.Holds (s : LineSpan) (line : Nat) : Prop := s.first ≤ line ∧ line ≤ s.last

theorem LineSpan.overlaps_iff {a b : LineSpan} (ha : a.first ≤ a.last) (hb : b.first ≤ b.last) :
    a.overlaps b = true ↔ ∃ line, a.Holds line ∧ b.Holds line := by
  simp only [overlaps, Holds, Bool.and_eq_true, decide_eq_true_eq]
  constructor
  · rintro ⟨hab, hba⟩
    exact ⟨max a.first b.first, by omega, by omega⟩
  · rintro ⟨line, hla, hlb⟩
    omega

/-- The lines of a span are those of the positions that it occupies. -/
theorem holds_lineSpan_iff {text : List Char} {start stop line : Nat} :
    (lineSpan text start stop).Holds line ↔
      ∃ p, (Span.mk start stop).Occupies p ∧ lineOf text p = line := by
  simp only [lineSpan, LineSpan.Holds, Span.occupies_iff]
  by_cases h : start < stop
  · have hmono := lineOf_mono text (m := start) (n := stop - 1) (by omega)
    rw [if_pos h, Nat.max_eq_left hmono, ← exists_lineOf_eq_iff (by omega)]
    refine exists_congr fun p => ?_
    rw [← and_assoc]
    exact and_congr_left fun _ => by omega
  · rw [if_neg h, Nat.max_self]
    constructor
    · intro hline
      exact ⟨start, .inr ⟨by omega, rfl⟩, by omega⟩
    · rintro ⟨p, hp, rfl⟩
      obtain rfl : p = start := by omega
      omega

/-- The lines of a closed interval are those of its positions. -/
theorem holds_closedLineSpan_iff {text : List Char} {start stop line : Nat} (h : start ≤ stop) :
    (closedLineSpan text start stop).Holds line ↔
      ∃ p, start ≤ p ∧ p ≤ stop ∧ lineOf text p = line := by
  rw [exists_lineOf_eq_iff h]
  simp only [closedLineSpan, LineSpan.Holds, Nat.max_eq_left (lineOf_mono text h)]

/-- A closed interval reaches a line of a span just when one of its positions and one that the span
occupies are on one line. -/
theorem closedLineSpan_overlaps_lineSpan {text : List Char} {first last start stop : Nat}
    (h : first ≤ last) :
    (closedLineSpan text first last).overlaps (lineSpan text start stop) = true ↔
      ∃ line, (∃ p, (Span.mk start stop).Occupies p ∧ lineOf text p = line) ∧
        ∃ q, first ≤ q ∧ q ≤ last ∧ lineOf text q = line := by
  rw [LineSpan.overlaps_iff (Nat.le_max_right _ _) (Nat.le_max_right _ _)]
  refine exists_congr fun line => ?_
  rw [holds_closedLineSpan_iff h, holds_lineSpan_iff]
  exact and_comm

/-! ### Spans that reach past the end -/

/-- A span that is cut at the end of a text occupies the positions it occupied before, cut as well.
Only the end itself is lost, to a span that starts ahead of it and reaches past it. -/
theorem Span.Occupies.cut {start stop p : Nat} (length : Nat)
    (h : (Span.mk start stop).Occupies p) :
    (Span.mk (min start length) (min stop length)).Occupies (min p length) ∨
      start < length ∧ length < stop ∧ length ≤ p := by
  rw [occupies_iff] at h ⊢
  dsimp only at h ⊢
  omega

/-- Every position that a span occupies after the cut is one that it occupied, cut like its ends. -/
theorem Span.Occupies.of_cut {start stop length p : Nat}
    (h : (Span.mk (min start length) (min stop length)).Occupies p) :
    ∃ q, (Span.mk start stop).Occupies q ∧ min q length = p := by
  obtain ⟨hstart, hstop⟩ | ⟨-, rfl⟩ := occupies_iff.1 h
  · dsimp only at hstart hstop
    have hinside : start ≤ p ∧ p < stop := by omega
    exact ⟨p, occupies_iff.2 (.inl hinside), by omega⟩
  · exact ⟨start, occupies_start _, rfl⟩

/-- A text that does not end in a line break ends on the line of its last character. -/
theorem lineOf_length_eq {text : List Char} (h : 0 < text.length)
    (hbreak : ¬ BreaksAt text (text.length - 1)) :
    lineOf text text.length = lineOf text (text.length - 1) := by
  have hsucc := lineOf_succ text (text.length - 1)
  rwa [if_neg hbreak, Nat.sub_add_cancel h] at hsucc

/-- The lines of a span are those of the positions that it occupies in the text, and also that of
the end if the span starts inside the text and reaches past a line break at the end of it. -/
theorem holds_lineSpan_cut_iff {text : List Char} {start stop line : Nat} :
    (lineSpan text start stop).Holds line ↔
      (∃ p, (Span.mk (min start text.length) (min stop text.length)).Occupies p ∧
        lineOf text p = line) ∨
      start < text.length ∧ text.length < stop ∧ BreaksAt text (text.length - 1) ∧
        lineOf text text.length = line := by
  rw [holds_lineSpan_iff]
  constructor
  · rintro ⟨p, hp, rfl⟩
    obtain hcut | ⟨hstart, hstop, hpast⟩ := hp.cut text.length
    · exact .inl ⟨_, hcut, lineOf_min_length text p⟩
    have hend : lineOf text text.length = lineOf text p := by
      rw [← lineOf_min_length text p, Nat.min_eq_right hpast]
    by_cases hbreak : BreaksAt text (text.length - 1)
    · exact .inr ⟨hstart, hstop, hbreak, hend⟩
    · refine .inl ⟨text.length - 1, Span.occupies_iff.2 (.inl ?_), ?_⟩
      · dsimp only
        omega
      · rw [← lineOf_length_eq (by omega) hbreak, hend]
  · rintro (⟨p, hp, rfl⟩ | ⟨hstart, hstop, -, hend⟩)
    · obtain ⟨q, hq, rfl⟩ := hp.of_cut
      exact ⟨q, hq, (lineOf_min_length text q).symm⟩
    · exact ⟨text.length, Span.occupies_iff.2 (.inl ⟨Nat.le_of_lt hstart, hstop⟩), hend⟩

theorem closedLineSpan_min_length (text : List Char) (start stop : Nat) :
    closedLineSpan text (min start text.length) (min stop text.length) =
      closedLineSpan text start stop := by
  simp only [closedLineSpan, lineOf_min_length]

/-- The line number goes up by one from a position to the next if the character between them
completes a line break, and else stays. The lines of a closed interval are those of its positions,
once the ends are cut at the end of the text. So are the lines of a span, but one that starts inside
the text and reaches past a line break at the end of it has the line behind that break too. -/
theorem lineSpan_lines (text : List Char) (start stop : Nat) (h : start ≤ stop) :
    (∀ line, (lineSpan text start stop).Holds line ↔
      (∃ p, (Span.mk (min start text.length) (min stop text.length)).Occupies p ∧
        lineOf text p = line) ∨
      start < text.length ∧ text.length < stop ∧ BreaksAt text (text.length - 1) ∧
        lineOf text text.length = line) ∧
    (∀ line, (closedLineSpan text start stop).Holds line ↔
      ∃ p, min start text.length ≤ p ∧ p ≤ min stop text.length ∧ lineOf text p = line) ∧
    ∀ n, lineOf text (n + 1) = lineOf text n + if BreaksAt text n then 1 else 0 := by
  refine ⟨fun line => holds_lineSpan_cut_iff, fun line => ?_, lineOf_succ text⟩
  rw [← closedLineSpan_min_length, holds_closedLineSpan_iff (by omega)]

/-- A carriage return with its line feed, and a line separator that only the closed interval goes
past. -/
theorem lineSpan_lines_separator :
    let text := "a\r\nb\u2028c".toList
    1 ≤ 5 ∧
    (∀ line, (lineSpan text 1 5).Holds line ↔
      ∃ p, (Span.mk 1 5).Occupies p ∧ lineOf text p = line) ∧
    (∀ line, (closedLineSpan text 1 5).Holds line ↔
      ∃ p, 1 ≤ p ∧ p ≤ 5 ∧ lineOf text p = line) ∧
    lineSpan text 1 5 = ⟨0, 1⟩ ∧ closedLineSpan text 1 5 = ⟨0, 2⟩ ∧
    lineOf text 2 = lineOf text 1 ∧ lineOf text 3 = lineOf text 2 + 1 := by
  intro text
  obtain ⟨hspan, hclosed, hstep⟩ := lineSpan_lines text 1 5 (by decide)
  refine ⟨by decide, fun line => (hspan line).trans (or_iff_left ?_), hclosed, by decide, by decide,
    (hstep 1).trans (by decide), (hstep 2).trans (by decide)⟩
  rintro ⟨-, hpast, -⟩
  exact absurd hpast (by decide)

/-- A span that reaches past the end of the text is cut just after the line break there, and has no
position on the line behind the break. -/
theorem lineSpan_past_last_break :
    let text := "a\n".toList
    0 ≤ 5 ∧ (lineSpan text 0 5).Holds 1 ∧
    ¬ ∃ p, (Span.mk (min 0 text.length) (min 5 text.length)).Occupies p ∧ lineOf text p = 1 := by
  intro text
  refine ⟨by decide, by unfold LineSpan.Holds; decide, ?_⟩
  rintro ⟨p, hp, hline⟩
  have hmono := lineOf_mono text (hp.bounds (by decide)).2
  rw [hline] at hmono
  exact absurd hmono (by decide)

end MarkdownPreview.Text
