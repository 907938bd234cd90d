import MarkdownPreview.Proofs.Syntax.QuoteMarkers

/-! One span of quote markers for each quoted line. A line is quoted when the first of its
characters that is no space and no tab is a marker, and its span is the longest run of markers from
there on. The lines are told apart in the text itself, so that each span is placed by the text
before it. -/

namespace MarkdownPreview.Syntax

open Text

variable {raw text before line after indent run behind longer : List Char} {c : Char} {s : Span}
  {pos : Nat} {lines later : List (List Char)}

/-! ### Lines of a text -/

/-- The line stands in the text between the other two: it starts the text or stands behind a line
feed, and goes on up to and including the next line feed, or to the end of the text. -/
structure IsLine (text before line after : List Char) : Prop where
  text : text = before ++ line ++ after
  ne_nil : line ≠ []
  start : before = [] ∨ before.getLast? = some '\n'
  oneLine : OneLine line
  stop : after = [] ∨ line.getLast? = some '\n'

theorem linesOf_append (h : before = [] ∨ before.getLast? = some '\n') (after : List Char) :
    linesOf (before ++ after) = linesOf before ++ linesOf after := by
  obtain rfl | h := h
  · rfl
  · obtain ⟨u, rfl⟩ := List.getLast?_eq_some_iff.1 h
    rw [List.append_assoc, List.singleton_append, linesOf_append_lineFeed]

theorem IsLine.linesOf_eq (h : IsLine text before line after) :
    linesOf text = linesOf before ++ line :: linesOf after := by
  have hline : linesOf (line ++ after) = line :: linesOf after := by
    obtain rfl | hstop := h.stop
    · rw [List.append_nil, linesOf_of_oneLine h.oneLine h.ne_nil]
      rfl
    · rw [linesOf_append (.inr hstop), linesOf_of_oneLine h.oneLine h.ne_nil,
        List.singleton_append]
  rw [h.text, List.append_assoc, linesOf_append h.start, hline]

theorem IsLine.cons (h : IsLine text before line after) (hc : before = [] → c = '\n') :
    IsLine (c :: text) (c :: before) line after where
  text := congrArg (c :: ·) h.text
  ne_nil := h.ne_nil
  start := by
    obtain rfl | hstart := h.start
    · exact .inr (congrArg some (hc rfl))
    · exact .inr (by rw [List.getLast?_cons, hstart]; rfl)
  oneLine := h.oneLine
  stop := h.stop

/-- A character that ends no line makes the first line longer. -/
theorem IsLine.cons_line (h : IsLine text [] line after) (hc : c ≠ '\n') :
    IsLine (c :: text) [] (c :: line) after where
  text := congrArg (c :: ·) h.text
  ne_nil := List.cons_ne_nil c line
  start := .inl rfl
  oneLine := by
    rw [OneLine, List.dropLast_cons_of_ne_nil h.ne_nil, List.mem_cons, not_or]
    exact ⟨hc.symm, h.oneLine⟩
  stop := h.stop.imp_right fun hstop => by rw [List.getLast?_cons, hstop]; rfl

theorem isLine_of_linesOf (h : linesOf text = lines ++ line :: later) :
    IsLine text lines.flatten line later.flatten := by
  fun_induction linesOf text generalizing lines line later with
  | case1 => simp at h
  | case2 rest ih =>
    cases lines with
    | nil =>
      obtain ⟨rfl, rfl⟩ := List.cons.inj h
      rw [flatten_linesOf]
      exact ⟨rfl, List.cons_ne_nil '\n' [], .inl rfl, List.not_mem_nil, .inr rfl⟩
    | cons first lines =>
      obtain ⟨rfl, hrest⟩ := List.cons.inj h
      exact (ih hrest).cons fun _ => rfl
  | case3 c rest hc hrest ih =>
    have hnil : rest = [] := by rw [← flatten_linesOf rest, hrest]; rfl
    obtain ⟨rfl, hline⟩ | ⟨_, -, hmore⟩ := List.append_eq_cons_iff.1 h.symm
    · obtain ⟨rfl, rfl⟩ := List.cons.inj hline
      rw [hnil]
      exact ⟨rfl, List.cons_ne_nil c [], .inl rfl, List.not_mem_nil, .inl rfl⟩
    · simp at hmore
  | case4 c rest hc first others hrest ih =>
    have hfirst : IsLine rest ([] : List (List Char)).flatten first others.flatten := ih hrest
    cases lines with
    | nil =>
      obtain ⟨rfl, rfl⟩ := List.cons.inj h
      exact hfirst.cons_line hc
    | cons _ lines =>
      obtain ⟨rfl, rfl⟩ := List.cons.inj h
      have hlater : IsLine rest (first :: lines).flatten line later.flatten := ih hrest
      exact hlater.cons fun hnil => absurd (List.append_eq_nil_iff.1 hnil).1 hfirst.ne_nil

/-! ### Runs -/

theorem QuoteMarks.head?_eq (h : QuoteMarks run) (hne : run ≠ []) : run.head? = some '>' := by
  cases h with
  | nil => exact absurd rfl hne
  | marker | spaced => rfl

/-- The pieces of a quoted line: its indentation, the longest run of quote markers, which is not
empty, and what is left. -/
structure QuoteCut (line indent run behind : List Char) : Prop where
  line : line = indent ++ run ++ behind
  indent : ∀ c ∈ indent, isSpaceOrTab c = true
  ne_nil : run ≠ []
  marks : QuoteMarks run
  longest : ∀ longer, QuoteMarks longer → longer <+: run ++ behind → longer.length ≤ run.length

/-- The first character of the line that is no space and no tab is a quote marker. -/
def Quoted (line : List Char) : Prop :=
  ∃ indent rest, line = indent ++ '>' :: rest ∧ ∀ c ∈ indent, isSpaceOrTab c = true

theorem quoted_iff : Quoted line ↔ (line.dropWhile isSpaceOrTab).head? = some '>' := by
  constructor
  · rintro ⟨indent, rest, rfl, hindent⟩
    rw [dropWhile_append_of_head? hindent (by rintro c ⟨⟩; rfl)]
    rfl
  · intro h
    obtain ⟨rest, hrest⟩ := List.head?_eq_some_iff.1 h
    refine ⟨line.takeWhile isSpaceOrTab, rest, ?_, fun c hc => List.mem_takeWhile_imp hc⟩
    rw [← hrest, List.takeWhile_append_dropWhile]

instance (line : List Char) : Decidable (Quoted line) := decidable_of_iff _ quoted_iff.symm

theorem QuoteCut.quoted (h : QuoteCut line indent run behind) : Quoted line := by
  obtain ⟨run, rfl⟩ := List.head?_eq_some_iff.1 (h.marks.head?_eq h.ne_nil)
  exact ⟨indent, run ++ behind, by rw [h.line, List.append_assoc]; rfl, h.indent⟩

theorem Quoted.exists_quoteCut (h : Quoted line) :
    ∃ indent run behind, QuoteCut line indent run behind := by
  obtain ⟨indent, rest, rfl, hindent⟩ := h
  obtain ⟨behind, hbehind⟩ := quoteRun_isPrefix ('>' :: rest)
  have hpos : 1 ≤ (quoteRun ('>' :: rest)).length :=
    (QuoteMarks.marker .nil).length_le (List.prefix_append ['>'] rest)
  refine ⟨indent, _, behind, ?_, hindent, List.ne_nil_of_length_pos hpos,
    quoteMarks_quoteRun ('>' :: rest), fun longer hlonger hstarts => ?_⟩
  · rw [List.append_assoc, hbehind]
  · rw [hbehind] at hstarts
    exact hlonger.length_le hstarts

theorem QuoteCut.quoteRun_eq (h : QuoteCut line indent run behind) :
    quoteRun (run ++ behind) = run := by
  have hlength := h.marks.length_le (List.prefix_append run behind)
  have hlongest := h.longest _ (quoteMarks_quoteRun _) (quoteRun_isPrefix _)
  exact (List.prefix_of_prefix_length_le (quoteRun_isPrefix _) (List.prefix_append run behind)
    hlongest).eq_of_length_le hlength

/-! ### The marker of a line -/

/-- The bytes of a piece of text behind the text before it. -/
def bytesOf (before piece : List Char) : Span := ⟨byteLength before, byteLength (before ++ piece)⟩

/-- The span is the run of markers of a line that stands behind the text before it. -/
def MarksLine (before line : List Char) (s : Span) : Prop :=
  ∃ indent run behind, QuoteCut line indent run behind ∧ s = bytesOf (before ++ indent) run

theorem QuoteCut.quoteMarker?_eq (h : QuoteCut line indent run behind) (pos : Nat) :
    quoteMarker? pos line =
      some ⟨pos + byteLength indent, pos + byteLength indent + byteLength run⟩ := by
  have hhead : ∀ c, (run ++ behind).head? = some c → isSpaceOrTab c = false := by
    intro c hc
    rw [List.head?_append, h.marks.head?_eq h.ne_nil] at hc
    exact Option.some.inj hc ▸ rfl
  rw [quoteMarker?, h.line, List.append_assoc, takeWhile_append_of_head? h.indent hhead,
    dropWhile_append_of_head? h.indent hhead, h.quoteRun_eq]
  exact if_neg h.ne_nil

theorem quoted_of_quoteMarker? (h : quoteMarker? pos line = some s) : Quoted line := by
  have hne : quoteRun (line.dropWhile isSpaceOrTab) ≠ [] := by
    intro hnil
    simp [quoteMarker?, hnil] at h
  obtain ⟨behind, hbehind⟩ := quoteRun_isPrefix (line.dropWhile isSpaceOrTab)
  rw [quoted_iff, ← hbehind, List.head?_append, (quoteMarks_quoteRun _).head?_eq hne,
    Option.some_or]

theorem quoteMarker?_eq_some_iff :
    quoteMarker? (byteLength before) line = some s ↔ MarksLine before line s := by
  simp only [MarksLine, bytesOf, byteLength_append]
  constructor
  · intro h
    obtain ⟨indent, run, behind, hcut⟩ := (quoted_of_quoteMarker? h).exists_quoteCut
    rw [hcut.quoteMarker?_eq] at h
    exact ⟨indent, run, behind, hcut, (Option.some.inj h).symm⟩
  · rintro ⟨indent, run, behind, hcut, rfl⟩
    exact hcut.quoteMarker?_eq _

theorem exists_marksLine_iff (before line : List Char) :
    (∃ s, MarksLine before line s) ↔ Quoted line := by
  constructor
  · rintro ⟨s, indent, run, behind, hcut, -⟩
    exact hcut.quoted
  · intro h
    obtain ⟨indent, run, behind, hcut⟩ := h.exists_quoteCut
    exact ⟨_, indent, run, behind, hcut, rfl⟩

theorem MarksLine.unique {t : Span} (hs : MarksLine before line s) (ht : MarksLine before line t) :
    s = t :=
  Option.some.inj ((quoteMarker?_eq_some_iff.2 hs).symm.trans (quoteMarker?_eq_some_iff.2 ht))

theorem MarksLine.within (h : MarksLine before line s) :
    s.start < s.stop ∧ (bytesOf before line).encloses s = true := by
  obtain ⟨indent, run, behind, hcut, rfl⟩ := h
  have hpos := byteLength_pos hcut.ne_nil
  simp only [Span.encloses_iff, bytesOf, hcut.line, byteLength_append]
  omega

/-! ### The markers of a text -/

theorem mem_quoteMarkersFrom_iff {all : List (List Char)} :
    s ∈ quoteMarkersFrom pos all ↔ ∃ lines line later, all = lines ++ line :: later ∧
      quoteMarker? (pos + byteLength lines.flatten) line = some s := by
  constructor
  · intro hs
    induction all generalizing pos with
    | nil => cases hs
    | cons line all ih =>
      obtain hs | hs := List.mem_append.1 hs
      · exact ⟨[], line, all, rfl, Option.mem_toList.1 hs⟩
      · obtain ⟨lines, line', later, rfl, hs⟩ := ih hs
        refine ⟨line :: lines, line', later, rfl, ?_⟩
        rwa [List.flatten_cons, byteLength_append, ← Nat.add_assoc]
  · rintro ⟨lines, line, later, rfl, hs⟩
    rw [quoteMarkersFrom_append]
    exact List.mem_append_right _ (List.mem_append_left _ (Option.mem_toList.2 hs))

theorem mem_quoteMarkers_iff :
    s ∈ quoteMarkers raw ↔ ∃ before line after, IsLine raw before line after ∧
      MarksLine before line s := by
  rw [quoteMarkers, mem_quoteMarkersFrom_iff]
  simp only [Nat.zero_add, quoteMarker?_eq_some_iff]
  constructor
  · rintro ⟨lines, line, later, hlines, hs⟩
    exact ⟨_, line, _, isLine_of_linesOf hlines, hs⟩
  · rintro ⟨before, line, after, hline, hs⟩
    refine ⟨linesOf before, line, linesOf after, hline.linesOf_eq, ?_⟩
    rwa [flatten_linesOf]

/-- The markers that stand in a line are its own. -/
theorem IsLine.marksLine_iff (h : IsLine raw before line after) :
    s ∈ quoteMarkers raw ∧ (bytesOf before line).encloses s = true ↔ MarksLine before line s := by
  constructor
  · rintro ⟨hs, hinside⟩
    obtain ⟨_, _, _, -, hmarks⟩ := mem_quoteMarkers_iff.1 hs
    have hpos := hmarks.within.1
    simp only [Span.encloses_iff, bytesOf, byteLength_append] at hinside
    rw [quoteMarkers, h.linesOf_eq, quoteMarkersFrom_append, quoteMarkersFrom, flatten_linesOf,
      Nat.zero_add] at hs
    obtain hs | hs := List.mem_append.1 hs
    · -- the markers of earlier lines end where the line begins
      have hearlier := (within_of_mem_quoteMarkersFrom hs).2
      rw [flatten_linesOf] at hearlier
      omega
    · obtain hs | hs := List.mem_append.1 hs
      · exact quoteMarker?_eq_some_iff.1 (Option.mem_toList.1 hs)
      · have hlater := (within_of_mem_quoteMarkersFrom hs).1
        omega
  · exact fun hs => ⟨mem_quoteMarkers_iff.2 ⟨before, line, after, h, hs⟩, hs.within.2⟩

theorem quoteMarkersFrom_pairwise (pos : Nat) (lines : List (List Char)) :
    (quoteMarkersFrom pos lines).Pairwise fun s t => s.stop ≤ t.start := by
  induction lines generalizing pos with
  | nil => exact .nil
  | cons line lines ih =>
    refine List.pairwise_append.2 ⟨?_, ih _, fun s hs t ht => ?_⟩
    · cases quoteMarker? pos line with
      | none => exact .nil
      | some s => exact List.pairwise_singleton _ s
    · have hline : s ∈ quoteMarkersFrom pos [line] := List.mem_append_left _ hs
      have hstop := (within_of_mem_quoteMarkersFrom hline).2
      rw [List.flatten_singleton] at hstop
      exact Nat.le_trans hstop (within_of_mem_quoteMarkersFrom ht).1

/-- The spans of quote markers in a text are not empty and follow one another without overlap. They
are the longest runs of markers of its lines, and a line has just one of them in it when it is
quoted, and none when it is not. -/
theorem quoteMarkers_lines (raw : List Char) :
    ((quoteMarkers raw).Pairwise fun s t => s.stop ≤ t.start) ∧
    (∀ s ∈ quoteMarkers raw, s.start < s.stop) ∧
    (∀ s, s ∈ quoteMarkers raw ↔
      ∃ before line after, IsLine raw before line after ∧ MarksLine before line s) ∧
    ∀ before line after, IsLine raw before line after →
      (Quoted line →
        ∃! s, s ∈ quoteMarkers raw ∧ (bytesOf before line).encloses s = true) ∧
      (¬ Quoted line → ∀ s ∈ quoteMarkers raw, (bytesOf before line).encloses s = false) := by
  refine ⟨quoteMarkersFrom_pairwise 0 _, fun s hs => ?_, fun s => mem_quoteMarkers_iff,
    fun before line after hline => ⟨fun hquoted => ?_, fun hnot s hs => ?_⟩⟩
  · obtain ⟨_, _, _, -, hmarks⟩ := mem_quoteMarkers_iff.1 hs
    exact hmarks.within.1
  · obtain ⟨s, hs⟩ := (exists_marksLine_iff before line).2 hquoted
    exact ⟨s, hline.marksLine_iff.2 hs, fun t ht => (hline.marksLine_iff.1 ht).unique hs⟩
  · rw [Bool.eq_false_iff]
    intro hinside
    exact hnot ((exists_marksLine_iff before line).1 ⟨s, hline.marksLine_iff.1 ⟨hs, hinside⟩⟩)

/-- A line of nested quotations, and behind it one that goes on without a marker. -/
theorem quoteMarkers_lines_nested :
    let raw := "> a\n \t>>\t> b\nlazy\n> c".toList
    let before := "> a\n".toList
    let nested := " \t>>\t> b\n".toList
    let lazy := "lazy\n".toList
    IsLine raw before nested (lazy ++ "> c".toList) ∧ Quoted nested ∧
      (∃! s, s ∈ quoteMarkers raw ∧ (bytesOf before nested).encloses s = true) ∧
      IsLine raw (before ++ nested) lazy "> c".toList ∧ ¬ Quoted lazy ∧
      ∀ s ∈ quoteMarkers raw, (bytesOf (before ++ nested) lazy).encloses s = false := by
  intro raw before nested lazy
  have hnested : IsLine raw before nested (lazy ++ "> c".toList) :=
    ⟨by decide, by decide, by decide, by decide, by decide⟩
  have hlazy : IsLine raw (before ++ nested) lazy "> c".toList :=
    ⟨by decide, by decide, by decide, by decide, by decide⟩
  obtain ⟨-, -, -, hlines⟩ := quoteMarkers_lines raw
  exact ⟨hnested, by decide, (hlines _ _ _ hnested).1 (by decide), hlazy, by decide,
    (hlines _ _ _ hlazy).2 (by decide)⟩

example : quoteMarkers "> a\n \t>>\t> b\nlazy\n> c".toList = [⟨0, 2⟩, ⟨6, 11⟩, ⟨18, 20⟩] := by
  decide

end MarkdownPreview.Syntax
