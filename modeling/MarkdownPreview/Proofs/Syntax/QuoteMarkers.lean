import MarkdownPreview.Proofs.Syntax.Pieces

/-! Which quote markers a slice has. Every line is looked at from its start, and a marker counts as
long as nothing but markers stands before it, with at most one space or tab after each. -/

namespace MarkdownPreview.Syntax

open Text

/-- Nothing but quote markers, each with one space or tab after it at most. -/
inductive QuoteMarks : List Char → Prop
  | nil : QuoteMarks []
  | marker {rest : List Char} (h : QuoteMarks rest) : QuoteMarks ('>' :: rest)
  | spaced {c : Char} {rest : List Char} (hc : isSpaceOrTab c = true) (h : QuoteMarks rest) :
      QuoteMarks ('>' :: c :: rest)

variable {text before rest longer : List Char}

/-! ### Runs -/

theorem quoteMarks_quoteRun (text : List Char) : QuoteMarks (quoteRun text) := by
  fun_induction quoteRun text with
  | case1 c rest hc ih => exact .spaced hc ih
  | case2 c rest _ ih => exact .marker ih
  | case3 => exact .marker .nil
  | case4 => exact .nil

/-- No run of markers at the head of a text is longer than the one found. -/
theorem QuoteMarks.length_le (h : QuoteMarks longer) (hstarts : longer <+: text) :
    longer.length ≤ (quoteRun text).length := by
  induction h generalizing text with
  | nil => exact Nat.zero_le _
  | @marker rest hrest ih =>
    obtain ⟨after, rfl⟩ := hstarts
    rw [List.cons_append]
    generalize htail : rest ++ after = tail
    have ih := ih ⟨after, htail⟩
    cases tail with
    | nil =>
      rw [(List.append_eq_nil_iff.1 htail).1]
      exact Nat.le_refl 1
    | cons c tail =>
      rw [quoteRun]
      split
      next hc =>
        -- the next character is a space, so that no marker follows
        cases hrest with
        | nil => simp
        | marker | spaced =>
          obtain ⟨rfl, -⟩ := List.cons.inj htail
          cases hc
      next => exact Nat.succ_le_succ ih
  | @spaced c rest hc _ ih =>
    obtain ⟨after, rfl⟩ := hstarts
    rw [List.cons_append, List.cons_append, quoteRun, if_pos hc]
    exact Nat.succ_le_succ (Nat.succ_le_succ (ih ⟨after, rfl⟩))

theorem QuoteMarks.append (h : QuoteMarks before) (hrest : QuoteMarks rest) :
    QuoteMarks (before ++ rest) := by
  induction h with
  | nil => exact hrest
  | marker _ ih => exact .marker ih
  | spaced hc _ ih => exact .spaced hc ih

theorem QuoteMarks.of_append_marker (h : QuoteMarks (before ++ '>' :: rest)) :
    QuoteMarks before := by
  generalize htext : before ++ '>' :: rest = text at h
  induction h generalizing before with
  | nil => simp at htext
  | marker _ ih =>
    cases before with
    | nil => exact .nil
    | cons d before =>
      obtain ⟨rfl, hrest⟩ := List.cons.inj htext
      exact .marker (ih hrest)
  | spaced hc _ ih =>
    cases before with
    | nil => exact .nil
    | cons d before =>
      obtain ⟨rfl, htail⟩ := List.cons.inj htext
      cases before with
      | nil =>
        -- the marker itself is no space
        obtain ⟨rfl, -⟩ := List.cons.inj htail
        cases hc
      | cons e before =>
        obtain ⟨rfl, hrest⟩ := List.cons.inj htail
        exact .spaced hc (ih hrest)

/-- The run goes over a marker exactly when only markers stand before it. -/
theorem length_lt_quoteRun_iff (before rest : List Char) :
    before.length < (quoteRun (before ++ '>' :: rest)).length ↔ QuoteMarks before := by
  have hmarker : before ++ ['>'] <+: before ++ '>' :: rest := ⟨rest, List.append_assoc _ _ _⟩
  constructor
  · intro h
    obtain ⟨after, hafter⟩ := List.prefix_of_prefix_length_le hmarker (quoteRun_isPrefix _)
      (by rwa [List.length_append])
    have hrun := quoteMarks_quoteRun (before ++ '>' :: rest)
    rw [← hafter, List.append_assoc] at hrun
    exact hrun.of_append_marker
  · intro h
    have hlength := (h.append (.marker .nil)).length_le hmarker
    rwa [List.length_append] at hlength

/-! ### Lines -/

theorem takeWhile_append_marker (before rest : List Char) :
    (before ++ '>' :: rest).takeWhile isSpaceOrTab = before.takeWhile isSpaceOrTab ∧
      (before ++ '>' :: rest).dropWhile isSpaceOrTab =
        before.dropWhile isSpaceOrTab ++ '>' :: rest := by
  induction before with
  | nil => exact ⟨rfl, rfl⟩
  | cons c before ih =>
    cases hc : isSpaceOrTab c <;> simp [hc, ih]

/-- The markers of a line reach to one of them when the indentation and the markers before it are
all that stands there. -/
theorem quoteMarker?_contains_iff (pos : Nat) (before rest : List Char) :
    (∃ s ∈ quoteMarker? pos (before ++ '>' :: rest),
        s.contains (pos + byteLength before) = true) ↔
      QuoteMarks (before.dropWhile isSpaceOrTab) := by
  obtain ⟨hindent, hmarkers⟩ := takeWhile_append_marker before rest
  have hlength : byteLength before = byteLength (before.takeWhile isSpaceOrTab) +
      byteLength (before.dropWhile isSpaceOrTab) := by
    rw [← byteLength_append, List.takeWhile_append_dropWhile]
  rw [← length_lt_quoteRun_iff _ rest]
  have hrun := quoteRun_isPrefix (before.dropWhile isSpaceOrTab ++ '>' :: rest)
  simp only [quoteMarker?, hindent, hmarkers]
  generalize before.dropWhile isSpaceOrTab = marks at *
  generalize quoteRun (marks ++ '>' :: rest) = run at *
  have hbytes : byteLength marks < byteLength run ↔ marks.length < run.length := by
    constructor
    · intro h
      by_contra hle
      have hprefix := List.prefix_of_prefix_length_le hrun (List.prefix_append marks _) (by omega)
      obtain ⟨after, rfl⟩ := hprefix
      rw [byteLength_append] at h
      omega
    · intro h
      obtain ⟨after, rfl⟩ := List.prefix_of_prefix_length_le (List.prefix_append marks _) hrun
        (by omega)
      have hne : after ≠ [] := by
        rintro rfl
        simp at h
      have hpos := byteLength_pos hne
      rw [byteLength_append]
      omega
  rw [← hbytes]
  split
  next hnil => simp [hnil]
  next => simp [Span.contains_iff]; omega

/-! ### Slices -/

/-- No line of the text ends before the text does. -/
def OneLine (text : List Char) : Prop := '\n' ∉ text.dropLast

instance (text : List Char) : Decidable (OneLine text) := inferInstanceAs (Decidable (¬ _))

theorem linesOf_of_oneLine {text : List Char} (h : OneLine text) (hne : text ≠ []) :
    linesOf text = [text] := by
  induction text with
  | nil => exact absurd rfl hne
  | cons c rest ih =>
    cases rest with
    | nil => simp [linesOf]
    | cons d rest =>
      rw [OneLine, List.dropLast_cons_of_ne_nil (List.cons_ne_nil d rest), List.mem_cons,
        not_or] at h
      rw [linesOf, if_neg (Ne.symm h.1), ih h.2 (List.cons_ne_nil d rest)]

theorem linesOf_append_lineFeed (u v : List Char) :
    linesOf (u ++ '\n' :: v) = linesOf (u ++ ['\n']) ++ linesOf v := by
  induction u with
  | nil => simp [linesOf]
  | cons c u ih =>
    by_cases hc : c = '\n'
    · simp [linesOf, hc, ih]
    · simp only [List.cons_append, linesOf, if_neg hc, ih]
      cases hlines : linesOf (u ++ ['\n']) with
      | nil =>
        have := flatten_linesOf (u ++ ['\n'])
        rw [hlines] at this
        simp at this
      | cons line lines => rfl

/-- A character that ends no line is on one line with those before it. -/
theorem exists_linesOf_append {u : List Char} {c : Char} (hu : '\n' ∉ u) (hc : c ≠ '\n')
    (rest : List Char) : ∃ after lines, linesOf (u ++ c :: rest) = (u ++ c :: after) :: lines := by
  induction u with
  | nil =>
    simp only [List.nil_append, linesOf, if_neg hc]
    split
    · exact ⟨[], [], rfl⟩
    next line lines _ => exact ⟨line, lines, rfl⟩
  | cons d u ih =>
    obtain ⟨hd, hu⟩ := not_or.1 (mt List.mem_cons.2 hu)
    obtain ⟨after, lines, hlines⟩ := ih hu
    exact ⟨after, lines, by simp [linesOf, Ne.symm hd, hlines]⟩

/-- What stands before a character on its line is the last line of what stands before it. -/
theorem exists_linesOf_lastLine {c : Char} (hc : c ≠ '\n') (before rest : List Char) :
    ∃ lines after later, linesOf (before ++ c :: rest) =
        lines ++ (lastLine before ++ c :: after) :: later ∧
      lines.flatten ++ lastLine before = before := by
  have hline : '\n' ∉ lastLine before := by
    intro h
    simpa using List.mem_takeWhile_imp (List.mem_reverse.1 h)
  obtain ⟨after, later, hlast⟩ := exists_linesOf_append hline hc rest
  by_cases hone : (lastLine before).length = before.length
  · have hwhole : lastLine before = before := (lastLine_suffix before).eq_of_length hone
    exact ⟨[], after, later, by rw [← hlast, hwhole]; rfl, hwhole⟩
  · have hsplit := eq_append_lastLine hone
    generalize before.take _ = lines at hsplit
    refine ⟨linesOf (lines ++ ['\n']), after, later, ?_, ?_⟩
    · rw [← hlast, ← linesOf_append_lineFeed, ← List.cons_append, ← List.append_assoc, ← hsplit]
    · rw [flatten_linesOf, List.append_assoc, List.singleton_append, ← hsplit]

theorem quoteMarkersFrom_append (pos : Nat) (lines later : List (List Char)) :
    quoteMarkersFrom pos (lines ++ later) = quoteMarkersFrom pos lines ++
      quoteMarkersFrom (pos + byteLength lines.flatten) later := by
  induction lines generalizing pos with
  | nil => rfl
  | cons line lines ih =>
    simp only [List.cons_append, quoteMarkersFrom, ih, List.flatten_cons, byteLength_append,
      Nat.add_assoc, List.append_assoc]

theorem within_of_mem_quoteMarkersFrom {lines : List (List Char)} {pos : Nat} {s : Span}
    (hs : s ∈ quoteMarkersFrom pos lines) :
    pos ≤ s.start ∧ s.stop ≤ pos + byteLength lines.flatten := by
  obtain ⟨before, run, after, hlines, rfl⟩ := quoteMarkersFrom_piece hs
  rw [hlines, byteLength_append, byteLength_append]
  dsimp only
  omega

/-- A quote marker of a slice is found exactly when on its line, behind the indentation, there are
only quote markers before it. -/
theorem quoteMarkers_contains_iff (before rest : List Char) :
    (∃ s ∈ quoteMarkers (before ++ '>' :: rest), s.contains (byteLength before) = true) ↔
      QuoteMarks ((lastLine before).dropWhile isSpaceOrTab) := by
  obtain ⟨lines, after, later, hlines, hbefore⟩ :=
    exists_linesOf_lastLine (by decide : '>' ≠ '\n') before rest
  have hlength : byteLength before = byteLength lines.flatten + byteLength (lastLine before) := by
    rw [← byteLength_append, hbefore]
  rw [← quoteMarker?_contains_iff (byteLength lines.flatten) _ after, ← hlength,
    quoteMarkers, hlines, quoteMarkersFrom_append, quoteMarkersFrom, Nat.zero_add]
  constructor
  · rintro ⟨s, hs, hcontains⟩
    refine ⟨s, ?_, hcontains⟩
    rw [Span.contains_iff] at hcontains
    obtain hs | hs := List.mem_append.1 hs
    · -- the markers of earlier lines end where the line begins
      have := within_of_mem_quoteMarkersFrom hs
      omega
    · obtain hs | hs := List.mem_append.1 hs
      · exact Option.mem_toList.1 hs
      · have := within_of_mem_quoteMarkersFrom hs
        rw [byteLength_append, byteLength_cons, show '>'.utf8Size = 1 from rfl] at this
        omega
  · rintro ⟨s, hs, hcontains⟩
    exact ⟨s, List.mem_append_right _ (List.mem_append_left _ (Option.mem_toList.2 hs)), hcontains⟩

end MarkdownPreview.Syntax
