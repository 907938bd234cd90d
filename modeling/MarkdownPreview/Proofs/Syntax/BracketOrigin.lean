import MarkdownPreview.Proofs.Syntax.BracketScan

/-! Where the spans of bracket math come from. Each was opened by a delimiter of the source that the
scan judged to open it, so that what the judgement asks for holds of every span: no excluded span is
in its way, and no line of its body is blank. -/

namespace MarkdownPreview.Syntax

open Text

/-! ### Blank lines -/

/-- A line of the text is blank: nothing but white space stands between two line feeds. -/
def HoldsBlankLine (text : List Char) : Prop :=
  ∃ before line after, text = before ++ '\n' :: (line ++ '\n' :: after) ∧
    isBlankText line = true

theorem segments_ne_nil (text : List Char) : segments text ≠ [] := by
  cases text with
  | nil => simp [segments]
  | cons c rest =>
    simp only [segments]
    split
    · simp
    · split <;> simp

/-- A line feed parts the text into what lies before it and what lies after it. -/
theorem segments_append (before after : List Char) :
    segments (before ++ '\n' :: after) = segments before ++ segments after := by
  induction before with
  | nil =>
    simp only [List.nil_append, segments]
    split
    next h => exact absurd h (segments_ne_nil after)
    next h => simp [h]
  | cons c rest ih =>
    simp only [List.cons_append, segments, ih]
    cases h : segments rest with
    | nil => exact absurd h (segments_ne_nil rest)
    | cons line lines =>
      simp only [List.cons_append]
      split <;> rfl

/-- The parts of a text have only characters of the text. -/
theorem mem_of_mem_segments {text line : List Char} (h : line ∈ segments text) {c : Char}
    (hc : c ∈ line) : c ∈ text := by
  induction text generalizing line with
  | nil => simp_all [segments]
  | cons d rest ih =>
    simp only [segments] at h
    split at h
    next hrest => exact absurd hrest (segments_ne_nil rest)
    next first lines hrest =>
      rw [hrest] at ih
      split at h
      · rcases List.mem_cons.1 h with rfl | h
        · simp at hc
        · exact List.mem_cons_of_mem d (ih h hc)
      · rcases List.mem_cons.1 h with rfl | h
        · rcases List.mem_cons.1 hc with rfl | hc
          · exact List.mem_cons_self
          · exact List.mem_cons_of_mem d (ih List.mem_cons_self hc)
        · exact List.mem_cons_of_mem d (ih (List.mem_cons_of_mem first h) hc)

/-- A blank line is found among the lines that are neither the first nor the last. -/
theorem spansBlankLine_of_holdsBlankLine {text : List Char} (h : HoldsBlankLine text) :
    spansBlankLine text = true := by
  obtain ⟨before, line, after, rfl, hblank⟩ := h
  obtain ⟨first, rest, hbefore⟩ := List.exists_cons_of_ne_nil (segments_ne_nil before)
  obtain ⟨inner, lines, hline⟩ := List.exists_cons_of_ne_nil (segments_ne_nil line)
  have hinner : isBlankText inner = true := by
    refine List.all_eq_true.2 fun c hc => List.all_eq_true.1 hblank c ?_
    exact mem_of_mem_segments (hline ▸ List.mem_cons_self) hc
  rw [spansBlankLine, segments_append, segments_append, hbefore, hline, List.cons_append,
    List.drop_one, List.tail_cons, ← List.append_assoc,
    List.dropLast_append_of_ne_nil (segments_ne_nil after)]
  refine List.any_eq_true.2 ⟨inner, ?_, hinner⟩
  simp

/-- The first of several lines ends at a line feed, and the others are those of what follows. -/
theorem exists_of_segments_eq_cons {text first : List Char} {lines : List (List Char)}
    (h : segments text = first :: lines) (hne : lines ≠ []) :
    ∃ after, text = first ++ '\n' :: after ∧ segments after = lines := by
  induction text generalizing first with
  | nil =>
    obtain ⟨-, rfl⟩ := List.cons.inj h
    exact absurd rfl hne
  | cons c rest ih =>
    simp only [segments] at h
    split at h
    next hrest => exact absurd hrest (segments_ne_nil rest)
    next line more hrest =>
      split at h
      next hc =>
        obtain ⟨rfl, rfl⟩ := List.cons.inj h
        exact ⟨rest, by rw [hc, List.nil_append], hrest⟩
      · obtain ⟨rfl, rfl⟩ := List.cons.inj h
        obtain ⟨after, hafter, hlines⟩ := ih hrest
        exact ⟨after, by rw [hafter, List.cons_append], hlines⟩

/-- A line that is not the last one ends at a line feed and, behind a line feed, begins at one. -/
theorem exists_of_mem_dropLast_segments {text line : List Char} {lines : List (List Char)}
    (h : segments text = lines) (hline : line ∈ lines.dropLast) :
    ∃ before after, '\n' :: text = before ++ '\n' :: (line ++ '\n' :: after) := by
  induction lines generalizing text with
  | nil => simp at hline
  | cons first rest ih =>
    by_cases hne : rest = []
    · simp [hne] at hline
    · obtain ⟨after, rfl, hafter⟩ := exists_of_segments_eq_cons h hne
      rw [List.dropLast_cons_of_ne_nil hne] at hline
      rcases List.mem_cons.1 hline with rfl | hline
      · exact ⟨[], after, rfl⟩
      · obtain ⟨before, rest, hrest⟩ := ih hafter hline
        exact ⟨'\n' :: first ++ before, rest, by rw [List.append_assoc, ← hrest]; rfl⟩

theorem holdsBlankLine_of_spansBlankLine {text : List Char} (h : spansBlankLine text = true) :
    HoldsBlankLine text := by
  obtain ⟨line, hline, hblank⟩ := List.any_eq_true.1 h
  obtain ⟨first, lines, hlines⟩ := List.exists_cons_of_ne_nil (segments_ne_nil text)
  rw [hlines, List.drop_one, List.tail_cons] at hline
  have hne : lines ≠ [] := by
    rintro rfl
    simp at hline
  obtain ⟨after, rfl, hafter⟩ := exists_of_segments_eq_cons hlines hne
  obtain ⟨before, rest, hrest⟩ := exists_of_mem_dropLast_segments hafter hline
  exact ⟨first ++ before, line, rest, by rw [List.append_assoc, ← hrest], hblank⟩

theorem spansBlankLine_iff {text : List Char} : spansBlankLine text = true ↔ HoldsBlankLine text :=
  ⟨holdsBlankLine_of_spansBlankLine, spansBlankLine_of_holdsBlankLine⟩

theorem HoldsBlankLine.of_infix {text whole : List Char} (h : HoldsBlankLine text)
    (hin : text <:+: whole) : HoldsBlankLine whole := by
  obtain ⟨before, line, after, rfl, hblank⟩ := h
  obtain ⟨u, v, rfl⟩ := hin
  exact ⟨u ++ before, line, after ++ v, by simp, hblank⟩

/-! ### Openers -/

/-- The span goes from an opening delimiter of the source to a closing one, and no line of the body
between them is blank. -/
def Unbroken (source : List Char) (s : Span) : Prop :=
  ∃ before body after, source = before ++ '\\' :: '[' :: (body ++ '\\' :: ']' :: after) ∧
    s = ⟨byteLength before, byteLength before + 4 + byteLength body⟩ ∧ ¬ HoldsBlankLine body

theorem bracketMathFrom_unbroken {source : List Char} {excluded : ExcludedSpans} {length : Nat}
    {before text : List Char} {pos resume : Nat} {spans : List Span}
    (h : bracketMathFrom excluded length pos resume text = .ok spans)
    (hs : source = before ++ text) (hpos : byteLength before = pos) :
    ∀ s ∈ spans, Unbroken source s := by
  fun_induction bracketMathFrom excluded length pos resume text generalizing before spans with
  | case1 pos resume rest hlt ih =>
    exact ih h (hs.trans (List.append_cons _ _ _)) (by rw [byteLength_append, hpos]; rfl)
  | case2 =>
    obtain rfl := Except.ok.inj h
    simp
  | case3 => cases h
  | case4 pos resume rest hlt body hbody resume' found hjudge hover ih =>
    obtain ⟨later, hlater, rfl⟩ := exists_of_map_eq_ok h
    have hrest := ih hlater (hs.trans (List.append_cons _ _ _))
      (by rw [byteLength_append, hpos]; rfl)
    refine List.forall_mem_append.2 ⟨fun s hfound => ?_, hrest⟩
    obtain rfl := Option.mem_toList.1 hfound
    obtain ⟨rfl, -, -, hblank⟩ := (free_of_judgeOpener hjudge).2 s rfl
    obtain ⟨-, after, rfl⟩ := eq_append_of_mathBody? hbody
    refine ⟨before, body, after, hs, by rw [hpos], fun hholds => ?_⟩
    simp [spansBlankLine_of_holdsBlankLine hholds] at hblank
  | case5 pos resume c rest _ ih =>
    exact ih h (hs.trans (List.append_cons _ _ _)) (by rw [byteLength_append, hpos]; rfl)
  | case6 =>
    obtain rfl := Except.ok.inj h
    simp

theorem bracketMath_unbroken {source : List Char} {excluded : ExcludedSpans} {spans : List Span}
    (h : bracketMath source excluded = .ok spans) : ∀ s ∈ spans, Unbroken source s :=
  bracketMathFrom_unbroken h (List.nil_append source).symm rfl

end MarkdownPreview.Syntax
