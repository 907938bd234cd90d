import MarkdownPreview.Markdown.Block
import MarkdownPreview.Proofs.Markdown.Cursor
import MarkdownPreview.Proofs.Markdown.Forest
import MarkdownPreview.Text.Blank

/-! Lines of inline text. A line is read up to its line ending, or less far, and what is found on it
stands between its two ends. -/

namespace MarkdownPreview.Markdown

open Text (Span isLineEnding isAsciiPunctuation)

variable {text rest passed : List Char} {lo lo' hi hi' pos : Nat} {ch : Char}

/-! ### Line endings -/

theorem isLineEnding_eq_false_iff : isLineEnding ch = false ↔ ¬ (ch = '\n' ∨ ch = '\r') := by
  simp [isLineEnding]

theorem isLineEnding_of_isAsciiPunctuation (h : isAsciiPunctuation ch = true) :
    isLineEnding ch = false := by
  rw [isLineEnding_eq_false_iff]
  rintro (rfl | rfl) <;> exact absurd h (by decide)

theorem isLineEnding_of_mem_take_countRun {d : Char} (hch : isLineEnding ch = false)
    (h : d ∈ text.take (countRun ch text)) : isLineEnding d = false := mem_take_countRun h ▸ hch

/-- What counts as a line ending at the head of a text. -/
theorem lineEnd?_eq_some {n : Nat} (h : lineEnd? text = some n) :
    ∃ ending, text = ending ++ text.drop n ∧ ending.length = n ∧
      ∀ ch ∈ ending, isLineEnding ch = true := by
  unfold lineEnd? at h
  split at h
  · obtain rfl := Option.some.inj h
    exact ⟨[], rfl, rfl, List.forall_mem_nil _⟩
  · obtain rfl := Option.some.inj h
    exact ⟨['\n'], rfl, rfl, List.forall_mem_singleton.2 rfl⟩
  · obtain rfl := Option.some.inj h
    exact ⟨['\r', '\n'], rfl, rfl,
      List.forall_mem_cons.2 ⟨rfl, List.forall_mem_singleton.2 rfl⟩⟩
  · obtain rfl := Option.some.inj h
    exact ⟨['\r'], rfl, rfl, List.forall_mem_singleton.2 rfl⟩
  · cases h

theorem exists_lineEnd? (hch : ch = '\n' ∨ ch = '\r') (rest : List Char) :
    ∃ n, lineEnd? (ch :: rest) = some (n + 1) := by
  obtain rfl | rfl := hch
  · exact ⟨0, rfl⟩
  · cases rest with
    | nil => exact ⟨0, rfl⟩
    | cons d rest =>
      by_cases hd : d = '\n'
      · exact ⟨1, by rw [hd]; rfl⟩
      · exact ⟨0, by simp [lineEnd?, hd]⟩

/-- The length of the first line of a text, with its line ending. -/
def lineSize : List Char → Nat
  | [] => 0
  | ch :: rest => if isLineEnding ch then (lineEnd? (ch :: rest)).getD 0 else lineSize rest + 1

theorem lineSize_cons (hch : isLineEnding ch = false) (rest : List Char) :
    lineSize (ch :: rest) = lineSize rest + 1 := by
  rw [lineSize, hch, if_neg Bool.false_ne_true]

theorem lineSize_append (h : ∀ ch ∈ passed, isLineEnding ch = false) (rest : List Char) :
    lineSize (passed ++ rest) = passed.length + lineSize rest := by
  induction passed with
  | nil => exact (Nat.zero_add _).symm
  | cons ch passed ih =>
    obtain ⟨hch, hpassed⟩ := List.forall_mem_cons.1 h
    rw [List.cons_append, lineSize_cons hch, ih hpassed, List.length_cons]
    omega

theorem lineSize_of_lineEnd? {n : Nat} (h : lineEnd? text = some n) : lineSize text = n := by
  cases text with
  | nil => exact Option.some.inj h
  | cons ch rest =>
    by_cases hch : isLineEnding ch
    · rw [lineSize, if_pos hch, h, Option.getD_some]
    · -- a text with another character at its head has no line ending there
      rw [Bool.not_eq_true, isLineEnding_eq_false_iff, not_or] at hch
      simp [lineEnd?, hch.1, hch.2] at h

/-- The text is all on one line, perhaps with the line ending. -/
def OneLine (text : List Char) : Prop :=
  ∃ body ending, text = body ++ ending ∧ (∀ ch ∈ body, isLineEnding ch = false) ∧
    ∀ ch ∈ ending, isLineEnding ch = true

theorem OneLine.cons (h : OneLine text) (hch : isLineEnding ch = false) : OneLine (ch :: text) := by
  obtain ⟨body, ending, rfl, hbody, hending⟩ := h
  exact ⟨ch :: body, ending, rfl, List.forall_mem_cons.2 ⟨hch, hbody⟩, hending⟩

theorem OneLine.append {lead : List Char} (h : OneLine text)
    (hlead : ∀ ch ∈ lead, isLineEnding ch = false) : OneLine (lead ++ text) := by
  obtain ⟨body, ending, rfl, hbody, hending⟩ := h
  exact ⟨lead ++ body, ending, (List.append_assoc _ _ _).symm,
    List.forall_mem_append.2 ⟨hlead, hbody⟩, hending⟩

/-! ### Tokens -/

/-- All tokens lie between two positions. -/
def TokensIn (lo hi : Nat) (tokens : List Token) : Prop := ∀ t ∈ tokens, Between lo hi t.span

theorem TokensIn.nil : TokensIn lo hi [] := List.forall_mem_nil _

theorem TokensIn.mono {tokens : List Token} (h : TokensIn lo hi tokens) (hlo : lo' ≤ lo)
    (hhi : hi ≤ hi') : TokensIn lo' hi' tokens := fun t ht => (h t ht).mono hlo hhi

/-- The tokens found so far lie between two positions, and the text that has not ended begins
there. -/
structure LineState.FoundIn (lo hi : Nat) (s : LineState) : Prop where
  tokens : TokensIn lo hi s.tokens
  start : lo ≤ s.textStart
  stop : s.textStart ≤ hi

namespace LineState.FoundIn

variable {s : LineState}

theorem mono (h : s.FoundIn lo hi) (hhi : hi ≤ hi') : s.FoundIn lo hi' :=
  ⟨h.tokens.mono (Nat.le_refl lo) hhi, h.start, Nat.le_trans h.stop hhi⟩

theorem endText (h : s.FoundIn lo hi) {stop : Nat} (hstop : stop ≤ hi) :
    (s.endText stop).FoundIn lo hi := by
  unfold LineState.endText
  split
  next hlt =>
    exact ⟨List.forall_mem_cons.2 ⟨⟨h.start, hstop⟩, h.tokens⟩,
      Nat.le_trans h.start (Nat.le_of_lt hlt), hstop⟩
  · exact h

/-- The text starts again behind a token. -/
theorem push (h : s.FoundIn lo hi) (kind : TokenKind) {span : Span} (hlo : lo ≤ span.start)
    (hspan : span.start ≤ span.stop) (hhi : hi ≤ span.stop) (hstop : span.stop ≤ hi') :
    (s.push kind span).FoundIn lo hi' := by
  have hended := (h.mono (Nat.le_trans hhi hstop)).endText (Nat.le_trans hspan hstop)
  exact ⟨List.forall_mem_cons.2 ⟨⟨hlo, hstop⟩, hended.tokens⟩, Nat.le_trans hlo hspan, hstop⟩

end LineState.FoundIn

/-! ### Steps of a line -/

/-- The line has been read from a position on, and is at the head of a text there. It goes no
further than the first line does, as far if it ends with a line break, and if it is a cell, not
over the line ending. -/
structure Line.Reads (mode : LineMode) (lo pos : Nat) (text passed : List Char) (line : Line) :
    Prop where
  oneLine : OneLine passed
  within : passed.length ≤ lineSize text
  clean : mode = .cell → ∀ ch ∈ passed, isLineEnding ch = false
  whole : line.lineBreak.isSome = true → passed.length = lineSize text
  text : text = passed ++ line.rest
  stop : line.stop = pos + passed.length
  tokens : TokensIn lo line.stop line.tokens
  lineBreak : TokensIn lo line.stop line.lineBreak.toList

variable {mode : LineMode}

theorem Line.Reads.cons {line : Line} (h : line.Reads mode lo (pos + 1) rest passed)
    (hch : isLineEnding ch = false) : line.Reads mode lo pos (ch :: rest) (ch :: passed) where
  text := congrArg (ch :: ·) h.text
  stop := by
    rw [h.stop, List.length_cons]
    omega
  oneLine := h.oneLine.cons hch
  within := by
    rw [lineSize_cons hch]
    exact Nat.succ_le_succ h.within
  clean hmode := List.forall_mem_cons.2 ⟨hch, h.clean hmode⟩
  whole hbreak := by rw [lineSize_cons hch, List.length_cons, h.whole hbreak]
  tokens := h.tokens
  lineBreak := h.lineBreak

/-- What one character of a line, at the head of a text, leads to: the line goes on behind
characters that end no line, or it has been read. -/
def LineStep.Reads (mode : LineMode) (lo pos : Nat) (text : List Char) : LineStep → Prop
  | .go s skip => skip < text.length ∧ (∀ ch ∈ text.take (skip + 1), isLineEnding ch = false) ∧
    s.FoundIn lo (pos + 1 + skip)
  | .done line => ∃ passed, line.Reads mode lo pos text passed

variable {s : LineState}

theorem LineStep.Reads.go (hch : isLineEnding ch = false) {skip : Nat}
    (hskip : skip ≤ rest.length) (h : ∀ d ∈ rest.take skip, isLineEnding d = false)
    (hs : s.FoundIn lo (pos + 1 + skip)) : (LineStep.go s skip).Reads mode lo pos (ch :: rest) :=
  ⟨Nat.lt_succ_of_le hskip, List.forall_mem_cons.2 ⟨hch, h⟩, hs⟩

/-- A line that ends without a line break. -/
theorem endCell_reads (h : s.FoundIn lo pos) (before text : List Char) :
    (endCell s pos before text).Reads mode lo pos text [] where
  text := rfl
  stop := rfl
  oneLine := ⟨[], [], rfl, List.forall_mem_nil _, List.forall_mem_nil _⟩
  within := Nat.zero_le _
  clean _ := List.forall_mem_nil _
  whole hbreak := absurd hbreak Bool.false_ne_true
  tokens := (h.endText (Nat.sub_le _ _)).tokens
  lineBreak := .nil

/-- A line that ends with a line break, which begins on it. -/
theorem endLine_reads (h : s.FoundIn lo pos) {before ending : List Char}
    (hbefore : lo + before.length ≤ pos) (hend : lineEnd? (ending ++ rest) = some ending.length)
    (hending : ∀ ch ∈ ending, isLineEnding ch = true) :
    (endLine s pos ending.length before rest).Reads .text lo pos (ending ++ rest) ending := by
  have hsize := lineSize_of_lineEnd? hend
  have hwhites : (before.takeWhile isInlineWhite).length ≤ before.length :=
    (List.takeWhile_prefix _).length_le
  have hslashes := countRun_le '\\' before
  have hread (kind : TokenKind) {start : Nat} (hlo : lo ≤ start) (hstart : start ≤ pos) :
      Line.Reads .text lo pos (ending ++ rest) ending ⟨(s.endText start).tokens,
        some ⟨kind, ⟨start, pos + ending.length⟩⟩, pos + ending.length, rest, s.braces, s.pipes,
        s.afterPipe⟩ :=
    ⟨⟨[], ending, rfl, List.forall_mem_nil _, hending⟩, Nat.le_of_eq hsize.symm, nofun,
      fun _ => hsize.symm, rfl, rfl,
      (h.endText hstart).tokens.mono (Nat.le_refl lo) (Nat.le_add_right _ _),
      List.forall_mem_singleton.2 ⟨hlo, Nat.le_refl _⟩⟩
  unfold endLine
  dsimp only
  split
  · exact hread .hardBreak (by omega) (Nat.sub_le _ _)
  · split
    · exact hread .hardBreak (by omega) (Nat.sub_le _ _)
    · exact hread .softBreak (by omega) (Nat.sub_le _ _)

theorem stepBackslash_reads (mode : LineMode) (h : s.FoundIn lo pos) (rest : List Char) :
    (stepBackslash mode s pos rest).Reads mode lo pos ('\\' :: rest) := by
  have hended : (s.endText pos).FoundIn lo pos := h.endText (Nat.le_refl pos)
  have hlo : lo ≤ pos := Nat.le_trans h.start h.stop
  have hrestart : LineState.FoundIn lo (pos + 1) { s.endText pos with textStart := pos + 1 } :=
    ⟨(hended.mono (Nat.le_succ pos)).tokens, Nat.le_succ_of_le hlo, Nat.le_refl _⟩
  fun_cases stepBackslash mode s pos rest with
  | case1 | case2 =>
    exact .go rfl (Nat.zero_le _) (List.forall_mem_nil _) (h.mono (Nat.le_succ pos))
  | case3 =>
    refine .go rfl (countRun_le _ _) (fun _ => isLineEnding_of_mem_take_countRun rfl) ?_
    exact hrestart.push _ (Nat.le_succ_of_le hlo) (Nat.le_add_right _ _) (Nat.le_add_right _ _)
      (Nat.le_refl _)
  | case4 d after _ _ _ hpipe =>
    obtain ⟨-, rfl, hpipe⟩ := hpipe
    obtain ⟨after, rfl⟩ := List.head?_eq_some_iff.1 hpipe
    refine .go rfl (by simp) ?_ (hrestart.mono (Nat.le_add_right _ _))
    exact List.forall_mem_cons.2 ⟨rfl, List.forall_mem_singleton.2 rfl⟩
  | case5 d after hpunctuation =>
    rw [Bool.not_eq_true', Bool.not_eq_false] at hpunctuation
    exact .go rfl (by simp) (List.forall_mem_singleton.2
      (isLineEnding_of_isAsciiPunctuation hpunctuation)) (hrestart.mono (Nat.le_add_right _ _))

theorem stepDelimiters_reads (mode : LineMode) (h : s.FoundIn lo pos)
    (hch : isLineEnding ch = false) (before rest : List Char) :
    (stepDelimiters mode s pos ch before rest).Reads mode lo pos (ch :: rest) := by
  have hlo : lo ≤ pos := Nat.le_trans h.start h.stop
  have hgo {s : LineState} (hs : s.FoundIn lo (pos + (1 + countRun ch rest))) :
      (LineStep.go s (1 + countRun ch rest - 1)).Reads mode lo pos (ch :: rest) := by
    rw [Nat.add_sub_cancel_left]
    refine .go hch (countRun_le _ _) (fun _ => isLineEnding_of_mem_take_countRun hch) ?_
    rwa [Nat.add_assoc]
  fun_cases stepDelimiters mode s pos ch before rest with
  | case1 => exact hgo (h.push _ hlo (Nat.le_add_right _ _) (Nat.le_add_right _ _) (Nat.le_refl _))
  | case2 => exact hgo (h.mono (Nat.le_add_right _ _))

theorem stepLine_reads (d : Dialect) (mode : LineMode) (h : s.FoundIn lo pos) {before : List Char}
    (hbefore : lo + before.length ≤ pos) (ch : Char) (rest : List Char) :
    (stepLine d mode s pos before ch rest).Reads mode lo pos (ch :: rest) := by
  have hlo : lo ≤ pos := Nat.le_trans h.start h.stop
  have hgo {s : LineState} (hch : ¬ (ch = '\n' ∨ ch = '\r')) (hs : s.FoundIn lo (pos + 1)) :
      (LineStep.go s 0).Reads mode lo pos (ch :: rest) :=
    .go (isLineEnding_eq_false_iff.2 hch) (Nat.zero_le _) (List.forall_mem_nil _) hs
  have hpush {s : LineState} (h : s.FoundIn lo pos) (kind : TokenKind) :
      (s.push kind ⟨pos, pos + 1⟩).FoundIn lo (pos + 1) :=
    h.push kind hlo (Nat.le_succ pos) (Nat.le_succ pos) (Nat.le_refl _)
  have hnext : s.FoundIn lo (pos + 1) := h.mono (Nat.le_succ pos)
  fun_cases stepLine d mode s pos before ch rest with
  | case1 => exact ⟨[], endCell_reads h before _⟩
  | case2 hch width =>
    obtain ⟨n, hn⟩ := exists_lineEnd? hch rest
    obtain ⟨ending, htext, hlength, hending⟩ := lineEnd?_eq_some hn
    have hwidth : width = ending.length := by
      rw [hlength]
      simp only [width, hn, Option.getD_some]
    have hrest : rest.drop (width - 1) = (ch :: rest).drop (n + 1) := by
      rw [hwidth, hlength]
      rfl
    have hline := endLine_reads h hbefore (by rw [← htext, hn, hlength]) hending
    rw [← htext, ← hwidth, ← hrest] at hline
    exact ⟨ending, hline⟩
  | case3 _ _ hslash => exact hslash ▸ stepBackslash_reads mode h rest
  | case4 _ hch => exact stepDelimiters_reads mode h (isLineEnding_eq_false_iff.2 hch) ..
  | case5 _ hch =>
    refine hgo hch (hpush ?_ _)
    exact ⟨h.tokens, h.start, h.stop⟩
  | case6 _ hch | case7 _ hch | case14 hch =>
    exact hgo hch ⟨hnext.tokens, hnext.start, hnext.stop⟩
  | case8 _ hch _ _ _ _ _ _ count =>
    have hcount : count - 1 = countRun '`' rest := Nat.add_sub_cancel_left _ _
    refine .go (isLineEnding_eq_false_iff.2 hch) (hcount ▸ countRun_le _ _) ?_ ?_
    · rw [hcount]
      exact fun _ => isLineEnding_of_mem_take_countRun rfl
    · rw [hcount, Nat.add_assoc]
      exact h.push _ hlo (Nat.le_add_right _ _) (Nat.le_add_right _ _) (Nat.le_refl _)
  | case9 _ hch | case11 _ hch | case12 _ hch => exact hgo hch (hpush h _)
  | case10 _ hch _ _ _ _ _ _ _ hbracket =>
    obtain ⟨after, rfl⟩ := List.head?_eq_some_iff.1 hbracket.2
    refine .go (isLineEnding_eq_false_iff.2 hch) (by simp) (List.forall_mem_singleton.2 rfl) ?_
    exact h.push .imageOpen hlo (Nat.le_add_right _ _) (Nat.le_add_right _ _) (Nat.le_refl _)
  | case13 => exact ⟨[], endCell_reads h before _⟩
  | case15 _ hch => exact hgo hch hnext

/-! ### Lines -/

/-- What is read of a line is on one line, and is cut off the text. -/
theorem readLineFrom_reads (d : Dialect) (mode : LineMode) {skip : Nat} {before text : List Char}
    (h : s.FoundIn lo (pos + skip)) (hbefore : lo + before.length ≤ pos)
    (hskip : skip ≤ text.length) (hclean : ∀ ch ∈ text.take skip, isLineEnding ch = false) :
    ∃ passed, (readLineFrom d mode s skip pos before text).Reads mode lo pos text passed := by
  induction text generalizing s skip pos before with
  | nil =>
    obtain rfl := Nat.le_zero.1 hskip
    exact ⟨[], endCell_reads h before []⟩
  | cons ch rest ih =>
    have hnext {s : LineState} {skip : Nat} (hskip : skip < (ch :: rest).length)
        (hclean : ∀ d ∈ (ch :: rest).take (skip + 1), isLineEnding d = false)
        (h : s.FoundIn lo (pos + 1 + skip)) : ∃ passed,
        (readLineFrom d mode s skip (pos + 1) (ch :: before) rest).Reads mode lo pos (ch :: rest)
          passed := by
      obtain ⟨hch, hclean⟩ := List.forall_mem_cons.1 hclean
      have hlead : lo + (ch :: before).length ≤ pos + 1 := Nat.succ_le_succ hbefore
      obtain ⟨passed, hread⟩ := ih h hlead (Nat.le_of_lt_succ hskip) hclean
      exact ⟨ch :: passed, hread.cons hch⟩
    cases skip with
    | succ skip => exact hnext hskip hclean (by rwa [Nat.add_right_comm])
    | zero =>
      have hstep : (stepLine d mode s pos before ch rest).Reads mode lo pos (ch :: rest) :=
        stepLine_reads d mode h hbefore ch rest
      rw [readLineFrom]
      cases hs : stepLine d mode s pos before ch rest with
      | done line =>
        rw [hs] at hstep
        exact hstep
      | go s skip =>
        rw [hs] at hstep
        exact hnext hstep.1 hstep.2.1 hstep.2.2

/-- A line of inline text is passed over, with its tokens between its ends. -/
theorem readLine_reads (d : Dialect) (mode : LineMode) (braces : Braces) (pos : Nat)
    (text : List Char) :
    ∃ passed, (readLine d mode braces pos text).Reads mode pos pos text passed :=
  readLineFrom_reads d mode ⟨.nil, Nat.le_refl pos, Nat.le_refl pos⟩ (Nat.le_refl pos)
    (Nat.zero_le _) (List.forall_mem_nil _)

theorem Line.Reads.passes {line : Line} {here : Cursor}
    (h : line.Reads mode lo here.pos here.rest passed) :
    here.Passes passed (.ofLine line.stop line.rest) := ⟨h.text, h.stop⟩

end MarkdownPreview.Markdown
