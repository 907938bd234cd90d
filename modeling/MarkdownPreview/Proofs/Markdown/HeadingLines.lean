import MarkdownPreview.Proofs.Markdown.InlineLines
import MarkdownPreview.Proofs.Text.Trimming

/-! What the reader takes for a heading. A line of inline text is read up to its line ending, so a
heading with number signs is all on one line; and a heading of more lines ends with its underline,
behind which there is only white space. -/

namespace MarkdownPreview.Markdown

open Text (Span isBlank isLineEnding withoutLineEnding trimEnd_append_of_mem trimEnd_isPrefix)

variable {source text : List Char} {ch : Char} {c here : Cursor}

/-! ### Headings -/

/-- The text could be that of a heading: it is on one line, or it ends with a line of equals signs
or hyphens. -/
inductive HeadingText : List Char → Prop
  | line {text : List Char} (h : OneLine text) : HeadingText text
  | underlined {before after : List Char} {ch : Char} (hch : ch = '=' ∨ ch = '-')
      (hafter : ∀ d ∈ after, isBlank d = true) : HeadingText (before ++ ch :: after)

/-- A heading of more than one line has an underline. -/
theorem HeadingText.underline (h : HeadingText text) (hlines : '\n' ∈ withoutLineEnding text) :
    ∃ before ch after, text = before ++ ch :: after ∧ (ch = '=' ∨ ch = '-') ∧
      ∀ d ∈ after, isBlank d = true := by
  cases h with
  | line h =>
    obtain ⟨body, ending, rfl, hbody, hending⟩ := h
    rw [withoutLineEnding, trimEnd_append_of_mem body hending] at hlines
    have hline : '\n' ∈ body := (trimEnd_isPrefix _ _).subset hlines
    exact absurd (hbody _ hline) (by decide)
  | underlined hch hafter => exact ⟨_, _, _, rfl, hch, hafter⟩

/-- The span is that of a text in the source which could be that of a heading. -/
def HeadingAt (source : List Char) (span : Span) : Prop :=
  ∃ before text after, source = before ++ text ++ after ∧ span.start = before.length ∧
    span.stop = before.length + text.length ∧ HeadingText text

theorem headingAt_of_passes {c' : Cursor} (hon : c.On source) (hpasses : c.Passes text c')
    (hne : text ≠ []) (h : HeadingText text) : HeadingAt source ⟨c.pos, c'.pos⟩ := by
  obtain ⟨hrest, hpos⟩ := hpasses
  have hlength : (source.take c.pos).length = c.pos := by
    have hdrop : source.drop c.pos ≠ [] := by
      rw [← hon, hrest]
      exact List.append_ne_nil_of_left_ne_nil hne _
    rw [ne_eq, List.drop_eq_nil_iff] at hdrop
    rw [List.length_take]
    omega
  refine ⟨source.take c.pos, text, c'.rest, ?_, hlength.symm, by rw [hlength, hpos], h⟩
  rw [List.append_assoc, ← hrest, hon, List.take_append_drop]

theorem isLineEnding_of_isInlineWhite (h : isInlineWhite ch = true) : isLineEnding ch = false := by
  rw [isLineEnding_eq_false_iff]
  rintro (rfl | rfl) <;> exact absurd h (by decide)

theorem isBlank_of_isInlineWhite (h : isInlineWhite ch = true) : isBlank ch = true := by
  simp only [isInlineWhite, Bool.or_eq_true, beq_iff_eq] at h
  obtain ((rfl | rfl) | rfl) | rfl := h <;> decide

theorem passes_takeWhile (p : Char → Bool) (c : Cursor) :
    c.Passes (c.rest.takeWhile p) (c.advance (c.rest.takeWhile p).length) :=
  ⟨(List.prefix_iff_eq_append.1 (List.takeWhile_prefix p)).symm, rfl⟩

theorem eq_of_mem_takeWhile_beq {d : Char} (h : d ∈ text.takeWhile (· == ch)) : d = ch :=
  beq_iff_eq.1 (List.mem_takeWhile_imp (p := (· == ch)) h)

/-- A blank line is white space to its end. -/
theorem blankLine?_eq_some {n : Nat} (h : blankLine? text = some n) :
    ∃ blanks, text = blanks ++ text.drop n ∧ blanks.length = n ∧
      ∀ ch ∈ blanks, isBlank ch = true := by
  obtain ⟨m, hm, rfl⟩ := Option.map_eq_some_iff.1 h
  obtain ⟨ending, htext, rfl, hending⟩ := lineEnd?_eq_some hm
  refine ⟨text.takeWhile isInlineWhite ++ ending, ?_, List.length_append, ?_⟩
  · rw [List.drop_drop] at htext
    rw [List.append_assoc, ← htext]
    exact (List.prefix_iff_eq_append.1 (List.takeWhile_prefix _)).symm
  · refine List.forall_mem_append.2 ⟨fun ch hch => ?_, fun ch hch => ?_⟩
    · exact isBlank_of_isInlineWhite (List.mem_takeWhile_imp hch)
    · exact Text.isBlank_of_isLineEnding (hending ch hch)

/-- An underline is a run of its sign, and white space. -/
theorem underline?_eq_some {level n : Nat} (h : underline? text = some (level, n)) :
    ∃ before ch after, text = (before ++ ch :: after) ++ text.drop n ∧
      (before ++ ch :: after).length = n ∧ (ch = '=' ∨ ch = '-') ∧
      ∀ d ∈ after, isBlank d = true := by
  unfold underline? at h
  split at h
  next ch rest =>
    split at h
    next hch =>
      obtain ⟨m, hm, hlevel⟩ := Option.map_eq_some_iff.1 h
      obtain ⟨blanks, htext, rfl, hblanks⟩ := blankLine?_eq_some hm
      obtain ⟨-, rfl⟩ := Prod.mk.inj hlevel
      have hrun : (ch :: rest).takeWhile (· == ch) =
          List.replicate (rest.takeWhile (· == ch)).length ch ++ [ch] := by
        rw [← List.replicate_succ', List.takeWhile_cons_of_pos (by simp), List.replicate_succ]
        exact congrArg _ (List.eq_replicate_of_mem fun d => eq_of_mem_takeWhile_beq)
      generalize List.replicate (rest.takeWhile (· == ch)).length ch = before at hrun
      have hpieces : before ++ ch :: blanks = (ch :: rest).takeWhile (· == ch) ++ blanks := by
        rw [hrun, List.append_assoc, List.singleton_append]
      refine ⟨before, ch, blanks, ?_, ?_, hch, hblanks⟩
      · rw [List.drop_drop] at htext
        rw [hpieces, List.append_assoc, ← htext]
        exact (List.prefix_iff_eq_append.1 (List.takeWhile_prefix _)).symm
      · rw [hpieces, List.length_append]
        rfl
    · cases h
  · cases h

/-- Lines that an underline follows are a heading. -/
theorem headingAt_of_underline {first : Cursor} {level n : Nat} (hon : first.On source)
    (hpasses : first.Passes text c) (h : underline? c.rest = some (level, n)) :
    HeadingAt source ⟨first.pos, c.pos + n⟩ := by
  obtain ⟨before, ch, after, htext, hlength, hch, hafter⟩ := underline?_eq_some h
  have hunderline : c.Passes (before ++ ch :: after) (.ofLine (c.pos + n) (c.rest.drop n)) :=
    ⟨htext, by rw [hlength]; rfl⟩
  refine headingAt_of_passes hon (hpasses.trans hunderline) ?_ ?_
  · simp
  · rw [← List.append_assoc]
    exact .underlined hch hafter

/-- The level of a heading is the number of its signs. -/
theorem atxLevel?_eq_some {level : Nat} (h : atxLevel? text = some level) :
    countRun '#' text = level ∧ level ≠ 0 := by
  unfold atxLevel? at h
  dsimp only at h
  split at h
  · cases h
  next hsigns =>
    have hlevel : countRun '#' text = level := by
      split at h
      · exact Option.some.inj h
      · split at h
        · exact Option.some.inj h
        · cases h
    exact ⟨hlevel, fun hzero => hsigns (.inl (hlevel.trans hzero))⟩

/-- What is on one line behind number signs is a heading with them. -/
theorem headingAt_of_signs {level : Nat} (hon : here.On source)
    (hlevel : atxLevel? here.rest = some level) (h : OneLine text)
    (hpasses : (here.advance level).Passes text c) : HeadingAt source ⟨here.pos, c.pos⟩ := by
  obtain ⟨hcount, hpos⟩ := atxLevel?_eq_some hlevel
  have hsigns : here.Passes (here.rest.takeWhile (· == '#')) (here.advance level) :=
    hcount ▸ passes_takeWhile _ here
  have hne : here.rest.takeWhile (· == '#') ≠ [] := by
    rw [← List.length_pos_iff]
    exact Nat.pos_of_ne_zero fun hzero => hpos (hcount.symm.trans hzero)
  have hclean : ∀ ch ∈ here.rest.takeWhile (· == '#'), isLineEnding ch = false := by
    intro ch hch
    rw [eq_of_mem_takeWhile_beq hch]
    rfl
  exact headingAt_of_passes hon (hsigns.trans hpasses) (List.append_ne_nil_of_left_ne_nil hne _)
    (.line (h.append hclean))

/-- The text of a heading is not longer than its line. -/
theorem headingTextLength_le (text : List Char) : headingTextLength text ≤ text.length := by
  have hdrop (p : Char → Bool) (text : List Char) :
      (text.reverse.dropWhile p).reverse.length ≤ text.length := by
    have hlength : text.reverse.length = text.length := List.length_reverse
    rw [List.length_reverse, ← hlength]
    exact (List.dropWhile_sublist p).length_le
  unfold headingTextLength
  extract_lets core before bare
  have hcore : core.length ≤ text.length := hdrop _ text
  split
  · exact Nat.zero_le _
  · split
    · exact Nat.le_trans (hdrop _ before) (Nat.le_trans (hdrop _ core) hcore)
    · exact hcore

end MarkdownPreview.Markdown
