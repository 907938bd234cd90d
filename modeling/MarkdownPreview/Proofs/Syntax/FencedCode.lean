import MarkdownPreview.Proofs.Syntax.Pieces
import MarkdownPreview.Proofs.Text.Trimming

/-! The lines of a fenced code block. The pieces before the body make up the first line, and the
body is everything after it up to a closing run. A closing line of its own is found as such; so
whatever counts as its run, the lines before it are in the body. What is cut off a slice as fence,
language, rest of the line, body and closing fence is said in full at the end: between these pieces
there are only spaces, tabs and quote markers. -/

namespace MarkdownPreview.Syntax

open Text

variable {body closing : List Char}

/-! ### Closing lines -/

theorem withoutLineEnding_append (hne : closing ≠ [])
    (hclosing : ∀ c ∈ closing, isLineEnding c = false) :
    withoutLineEnding (body ++ closing) = body ++ closing := by
  refine trimEnd_eq_self fun c hc => hclosing c ?_
  rw [List.getLast?_append, List.getLast?_eq_some_getLast hne] at hc
  exact Option.some.inj hc ▸ List.getLast_mem hne

theorem lastLine_append (hclosing : ∀ c ∈ closing, isLineEnding c = false)
    (hbody : body = [] ∨ body.getLast? = some '\n') : lastLine (body ++ closing) = closing := by
  have hline : ∀ c ∈ closing.reverse, (c != '\n') = true := by
    intro c hc
    have := hclosing c (List.mem_reverse.1 hc)
    simp only [isLineEnding, Bool.or_eq_false_iff] at this
    simp [bne, this.1]
  have hbefore : ∀ c, body.reverse.head? = some c → (c != '\n') = false := by
    intro c hc
    rw [List.head?_reverse] at hc
    obtain rfl | hbody := hbody
    · cases hc
    · rw [hbody] at hc
      obtain rfl := Option.some.inj hc
      rfl
  rw [lastLine, List.reverse_append, takeWhile_append_of_head? hline hbefore, List.reverse_reverse]

/-- The lines before a closing line are in the body. -/
theorem isPrefix_fencedBody (c : Char) (n : Nat) (hne : closing ≠ [])
    (hclosing : ∀ c ∈ closing, isLineEnding c = false)
    (hbody : body = [] ∨ body.getLast? = some '\n') :
    body <+: (fencedBody c n (body ++ closing)).body := by
  simp only [fencedBody, withoutLineEnding_append hne hclosing, lastLine_append hclosing hbody]
  split
  · simp
  · exact List.prefix_append _ _

/-- Without a closing run all lines are in the body. -/
theorem fencedBody_of_close_eq_none {c : Char} {n : Nat} {text : List Char}
    (h : (fencedBody c n text).close = none) : (fencedBody c n text).body = text := by
  simp only [fencedBody] at h ⊢
  split at h
  · simp at h
  next hc => rw [if_neg hc]

/-! ### Opening lines -/

theorem ne_lineFeed_of_isFenceChar {c : Char} (h : isFenceChar c = true) : c ≠ '\n' := by
  rintro rfl
  exact absurd h (by decide)

/-- The pieces before the body. -/
def FencedCode.opening (f : FencedCode) : List Char :=
  f.lead ++ f.fence ++ f.gap ++ f.language.getD [] ++ f.openRest

theorem FencedCode.text_eq_opening_append (f : FencedCode) :
    f.text = f.opening ++ (f.body ++ f.closeLead ++ f.close.getD [] ++ f.rest) := by
  simp [text, opening]

/-- A slice that starts with a fence is cut after its first line. -/
theorem fencedCode?_of_fence {c : Char} {rest : List Char} (hc : isFenceChar c = true)
    (hlen : 3 ≤ ((c :: rest).takeWhile (· == c)).length) :
    ∃ f n, fencedCode? (c :: rest) = some f ∧
      f.opening = (c :: rest).takeWhile (· != '\n') ++ ((c :: rest).dropWhile (· != '\n')).take 1 ∧
      f.body = (fencedBody c n (((c :: rest).dropWhile (· != '\n')).drop 1)).body ∧
      f.close = (fencedBody c n (((c :: rest).dropWhile (· != '\n')).drop 1)).close := by
  have hrun : ∀ d ∈ (c :: rest).takeWhile (· == c), (d != '\n') = true := by
    intro d hd
    obtain rfl : d = c := by simpa using List.all_eq_true.1 List.all_takeWhile d hd
    simpa using ne_lineFeed_of_isFenceChar hc
  have hafter : ((c :: rest).dropWhile (· == c)).dropWhile (· != '\n') =
      (c :: rest).dropWhile (· != '\n') := by
    rw [← List.dropWhile_append_of_pos hrun, List.takeWhile_append_dropWhile]
  have hlead : (c :: rest).takeWhile (! isFenceChar ·) = [] := by simp [hc]
  have hfence : (c :: rest).dropWhile (! isFenceChar ·) = c :: rest := by simp [hc]
  have hcut : ∃ f n, fencedCode? (c :: rest) = some f ∧
      f.body ++ f.closeLead ++ f.close.getD [] ++ f.rest =
        ((c :: rest).dropWhile (· != '\n')).drop 1 ∧
      f.body = (fencedBody c n (((c :: rest).dropWhile (· != '\n')).drop 1)).body ∧
      f.close = (fencedBody c n (((c :: rest).dropWhile (· != '\n')).drop 1)).close := by
    simp only [fencedCode?, hlead, hfence, if_neg (Nat.not_lt.2 hlen), hafter]
    split
    · exact ⟨_, _, rfl, fencedBody_text _ _ _, rfl, rfl⟩
    · exact ⟨_, _, rfl, fencedBody_text _ _ _, rfl, rfl⟩
  obtain ⟨f, n, hf, hlines, hbody, hclose⟩ := hcut
  refine ⟨f, n, hf, ?_, hbody, hclose⟩
  -- the body with what follows it is all that stands behind the first line
  have htext := fencedCode?_text hf
  rw [f.text_eq_opening_append, hlines] at htext
  refine List.append_cancel_right (htext.trans ?_)
  rw [List.append_assoc, List.take_append_drop, List.takeWhile_append_dropWhile]

/-! ### Pieces -/

variable {raw : List Char} {f : FencedCode}

/-- Trimming leaves the lines before a text that it does not use up. -/
theorem withoutLineEnding_append_of_ne_nil (u : List Char) {v : List Char}
    (h : withoutLineEnding v ≠ []) : withoutLineEnding (u ++ v) = u ++ withoutLineEnding v := by
  rw [withoutLineEnding, trimEnd, ne_eq, List.reverse_eq_nil_iff] at h
  rw [withoutLineEnding, withoutLineEnding, trimEnd, trimEnd, List.reverse_append,
    List.dropWhile_append, if_neg (by simpa using h), List.reverse_append, List.reverse_reverse]

/-- A line that closes a fence: a run of its character, as long as the fence or longer, with
indentation and quote markers before it and white space after it. -/
structure ClosesFence (fenceChar : Char) (fenceLength : Nat) (line lead run rest : List Char) :
    Prop where
  line : line = lead ++ run ++ rest
  length : fenceLength ≤ run.length
  lead : ∀ c ∈ lead, isLinePrefix c = true
  run : ∀ c ∈ run, c = fenceChar
  rest : ∀ c ∈ rest, isBlank c = true

variable {c : Char} {n : Nat} {text line lead run rest : List Char}

theorem isLinePrefix_of_isFenceChar (h : isFenceChar c = true) : isLinePrefix c = false := by
  simp only [isFenceChar, Bool.or_eq_true, beq_iff_eq] at h
  obtain rfl | rfl := h <;> rfl

theorem isBlank_of_isFenceChar (h : isFenceChar c = true) : isBlank c = false := by
  simp only [isFenceChar, Bool.or_eq_true, beq_iff_eq] at h
  obtain rfl | rfl := h <;> decide

/-- The pieces of a closing line are found from its start. -/
theorem ClosesFence.takeWhile_eq (h : ClosesFence c n line lead run rest)
    (hc : isFenceChar c = true) (hn : 0 < n) : line.takeWhile isLinePrefix = lead ∧
      (line.dropWhile isLinePrefix).takeWhile (· == c) = run := by
  obtain ⟨rfl, hlength, hlead, hrun, hrest⟩ := h
  cases run with
  | nil => simp at hlength; omega
  | cons d run =>
    obtain rfl := hrun d List.mem_cons_self
    have hfence := isLinePrefix_of_isFenceChar hc
    have hrun : ∀ e ∈ d :: run, (e == d) = true := fun e he => by simpa using hrun e he
    have hfirst : ∀ e, (d :: run ++ rest).head? = some e → isLinePrefix e = false := by
      rintro e ⟨⟩
      exact hfence
    have hrest : ∀ e, rest.head? = some e → (e == d) = false := by
      intro e he
      rw [beq_eq_false_iff_ne]
      rintro rfl
      have := hrest e (List.mem_of_mem_head? he)
      rw [isBlank_of_isFenceChar hc] at this
      cases this
    rw [List.append_assoc, takeWhile_append_of_head? hlead hfirst,
      dropWhile_append_of_head? hlead hfirst, takeWhile_append_of_head? hrun hrest]
    exact ⟨rfl, rfl⟩

theorem closesFence_takeWhile
    (h : n ≤ ((line.dropWhile isLinePrefix).takeWhile (· == c)).length ∧
      isBlankText (line.drop ((line.takeWhile isLinePrefix).length +
        ((line.dropWhile isLinePrefix).takeWhile (· == c)).length))) :
    ClosesFence c n line (line.takeWhile isLinePrefix)
      ((line.dropWhile isLinePrefix).takeWhile (· == c))
      (line.drop ((line.takeWhile isLinePrefix).length +
        ((line.dropWhile isLinePrefix).takeWhile (· == c)).length)) where
  line := by
    rw [← List.length_append]
    exact (List.prefix_iff_eq_append.1
      (takeWhile_append_isPrefix _ (List.takeWhile_prefix _))).symm
  length := h.1
  lead _ := List.mem_takeWhile_imp
  run d hd := by simpa using List.mem_takeWhile_imp hd
  rest d hd := List.all_eq_true.1 h.2 d hd

/-- The lines close exactly when the last one with text closes the fence. -/
theorem fencedBody_close_eq_none_iff (hc : isFenceChar c = true) (hn : 0 < n) :
    (fencedBody c n text).close = none ↔
      ∀ lead run rest, ¬ ClosesFence c n (lastLine (withoutLineEnding text)) lead run rest := by
  constructor
  · intro hnone lead run rest h
    obtain ⟨hlead, hrun⟩ := h.takeWhile_eq hc hn
    simp only [fencedBody, hlead, hrun] at hnone
    rw [if_pos] at hnone
    · cases hnone
    · refine ⟨h.length, List.all_eq_true.2 ?_⟩
      rw [h.line, ← List.length_append, List.drop_left]
      exact h.rest
  · intro h
    simp only [fencedBody]
    rw [if_neg fun hcut => h _ _ _ (closesFence_takeWhile hcut)]

/-- The closing line is cut off whole from the body, up to the white space at its end. -/
theorem fencedBody_of_close_eq_some (h : (fencedBody c n text).close = some run) :
    withoutLineEnding text = (fencedBody c n text).body ++ lastLine (withoutLineEnding text) ∧
      ∃ rest, ClosesFence c n (lastLine (withoutLineEnding text)) (fencedBody c n text).closeLead
        run rest := by
  simp only [fencedBody] at h ⊢
  split at h
  next hrun =>
    obtain rfl := Option.some.inj h
    obtain ⟨before, hbefore⟩ := lastLine_suffix (withoutLineEnding text)
    have hbody := hbefore ▸ withoutLineEnding_isPrefix text
    have hlen : (withoutLineEnding text).length - (lastLine (withoutLineEnding text)).length =
        before.length := by
      have := congrArg List.length hbefore
      rw [List.length_append] at this
      omega
    rw [if_pos hrun, hlen, ← List.prefix_iff_eq_take.1 ((List.prefix_append before _).trans hbody)]
    exact ⟨hbefore.symm, _, closesFence_takeWhile hrun⟩
  · cases h

theorem fencedBody_pieces_of_close_eq_none (h : (fencedBody c n text).close = none) :
    (fencedBody c n text).closeLead = [] ∧ (fencedBody c n text).rest = [] := by
  have htext := fencedBody_text c n text
  rw [fencedBody_of_close_eq_none h, h, Option.getD_none, List.append_nil,
    List.append_assoc] at htext
  exact List.append_eq_nil_iff.1 (List.append_right_eq_self.1 htext)

theorem mem_rest_fencedBody : ∀ d ∈ (fencedBody c n text).rest, isBlank d = true := by
  cases hclose : (fencedBody c n text).close with
  | none => simp [(fencedBody_pieces_of_close_eq_none hclose).2]
  | some run =>
    obtain ⟨hbody, rest, hline⟩ := fencedBody_of_close_eq_some hclose
    have hending : withoutLineEnding text ++ (text.reverse.takeWhile isLineEnding).reverse = text :=
      trimEnd_append isLineEnding text
    have htext := (fencedBody_text c n text).trans hending.symm
    rw [hclose, Option.getD_some, hbody, hline.line] at htext
    simp only [List.append_assoc, List.append_cancel_left_eq] at htext
    intro d hd
    rw [htext] at hd
    obtain hd | hd := List.mem_append.1 hd
    · exact hline.rest d hd
    · exact isBlank_of_isLineEnding (List.mem_takeWhile_imp (List.mem_reverse.1 hd))

/-- What stands behind the opening line. -/
def FencedCode.lines (f : FencedCode) : List Char :=
  f.body ++ f.closeLead ++ f.close.getD [] ++ f.rest

/-- The first run of backticks or tildes opens a block. Behind it a language is told apart from the
rest of its line. -/
structure FencedCode.Opens (fenceChar : Char) (f : FencedCode) : Prop where
  lead : ∀ d ∈ f.lead, isFenceChar d = false
  fence : isFenceChar fenceChar = true ∧ 3 ≤ f.fence.length ∧ ∀ d ∈ f.fence, d = fenceChar
  longest : (f.gap ++ f.language.getD [] ++ f.openRest).head? ≠ some fenceChar
  gap : ∀ d ∈ f.gap, isSpaceOrTab d = true
  language : ∀ word, f.language = some word → word ≠ [] ∧ (∀ d ∈ word, isBlank d = false) ∧
    ∀ d, f.openRest.head? = some d → isBlank d = true
  noLanguage : f.language = none → f.gap = [] ∧
    ∀ d, (f.openRest.dropWhile isSpaceOrTab).head? = some d → isBlank d = true
  openRest : (∃ line, '\n' ∉ line ∧ f.openRest = line ++ ['\n']) ∨
    '\n' ∉ f.openRest ∧ f.lines = []

/-- The last line that is not empty, below the opening one, closes the block when it can. -/
structure FencedCode.Closes (fenceChar : Char) (f : FencedCode) : Prop where
  closed : ∀ run, f.close = some run → withoutLineEnding f.text =
      f.opening ++ f.body ++ lastLine (withoutLineEnding f.text) ∧
    ∃ rest, ClosesFence fenceChar f.fence.length (lastLine (withoutLineEnding f.text)) f.closeLead
      run rest
  unclosed : f.close = none → f.closeLead = [] ∧ f.rest = [] ∧ ∀ lead run rest,
    ¬ ClosesFence fenceChar f.fence.length (lastLine (withoutLineEnding f.body)) lead run rest
  rest : ∀ d ∈ f.rest, isBlank d = true

/-- A line is found as the last one behind an opening line, too. -/
theorem FencedCode.closes_of_fencedBody {fenceChar : Char} (ho : f.Opens fenceChar)
    {lines : List Char} (hbody : f.body = (fencedBody fenceChar f.fence.length lines).body)
    (hlead : f.closeLead = (fencedBody fenceChar f.fence.length lines).closeLead)
    (hclose : f.close = (fencedBody fenceChar f.fence.length lines).close)
    (hrest : f.rest = (fencedBody fenceChar f.fence.length lines).rest) : f.Closes fenceChar := by
  have hlines : f.lines = lines := by
    rw [FencedCode.lines, hbody, hlead, hclose, hrest, fencedBody_text]
  have hfence : 0 < f.fence.length := by have := ho.fence.2.1; omega
  refine ⟨fun run hrun => ?_, fun hnone => ?_, fun d hd => mem_rest_fencedBody d (hrest ▸ hd)⟩
  · obtain ⟨hcut, rest, hline⟩ := fencedBody_of_close_eq_some (hclose ▸ hrun)
    rw [← hbody] at hcut
    rw [← hlead] at hline
    have hne : withoutLineEnding lines ≠ [] := by
      intro hnil
      have hlength := hline.length
      have := congrArg List.length hline.line
      simp only [hnil, lastLine, List.reverse_nil, List.takeWhile_nil, List.length_nil,
        List.length_append] at this
      omega
    obtain ⟨line, -, hopen⟩ | ⟨-, hnil⟩ := ho.openRest
    · have hlast : lastLine (withoutLineEnding f.text) = lastLine (withoutLineEnding lines) := by
        rw [f.text_eq_opening_append, show f.body ++ _ ++ _ ++ _ = lines from hlines,
          withoutLineEnding_append_of_ne_nil _ hne, FencedCode.opening, hopen,
          ← List.append_assoc, List.append_assoc _ ['\n'], List.singleton_append,
          lastLine_append_of_lineFeed]
      rw [hlast]
      refine ⟨?_, rest, hline⟩
      rw [f.text_eq_opening_append, show f.body ++ _ ++ _ ++ _ = lines from hlines,
        withoutLineEnding_append_of_ne_nil _ hne, List.append_assoc, ← hcut]
    · exact absurd (by rw [← hlines, hnil]; rfl) hne
  · rw [hclose] at hnone
    obtain ⟨hnoLead, hnoRest⟩ := fencedBody_pieces_of_close_eq_none hnone
    refine ⟨hlead.trans hnoLead, hrest.trans hnoRest, ?_⟩
    rw [hbody, fencedBody_of_close_eq_none hnone]
    exact (fencedBody_close_eq_none_iff ho.fence.1 hfence).1 hnone

theorem head?_of_isPrefix {d : Char} (hline : line <+: text) (h : line.head? = some d) :
    text.head? = some d := by
  obtain ⟨after, rfl⟩ := hline
  rw [List.head?_append, h, Option.some_or]

theorem of_takeWhile_not_eq_nil {p : Char → Bool} {d : Char} (h : text.takeWhile (! p ·) = [])
    (hd : text.head? = some d) : p d = true := by
  cases text with
  | nil => cases hd
  | cons e text =>
    obtain rfl := Option.some.inj hd
    by_contra hp
    simp [hp] at h

/-- What stands between the first word of a line and the line's end starts with white space. -/
theorem word_pieces (line : List Char) {word : List Char}
    (hword : (line.dropWhile isSpaceOrTab).takeWhile (! isBlank ·) = word) :
    line.takeWhile isSpaceOrTab ++ word ++
        line.drop ((line.takeWhile isSpaceOrTab).length + word.length) = line ∧
      ∀ d, (line.drop ((line.takeWhile isSpaceOrTab).length + word.length)).head? = some d →
        isBlank d = true := by
  subst hword
  have hpieces : line.takeWhile isSpaceOrTab ++
      ((line.dropWhile isSpaceOrTab).takeWhile (! isBlank ·) ++
        (line.dropWhile isSpaceOrTab).dropWhile (! isBlank ·)) = line := by
    rw [List.takeWhile_append_dropWhile, List.takeWhile_append_dropWhile]
  rw [← List.append_assoc] at hpieces
  have hafter := congrArg (List.drop ((line.takeWhile isSpaceOrTab).length +
    ((line.dropWhile isSpaceOrTab).takeWhile (! isBlank ·)).length)) hpieces
  rw [← List.length_append, List.drop_left] at hafter
  rw [← List.length_append, ← hafter]
  exact ⟨hpieces, fun d hd => by simpa using head?_dropWhile_ne _ _ hd⟩

theorem not_isFenceChar_of_mem_lead (raw : List Char) :
    ∀ d ∈ raw.takeWhile (! isFenceChar ·), isFenceChar d = false := by
  intro d hd
  simpa using List.mem_takeWhile_imp hd

/-- The first run of backticks or tildes is one of a single character, and as long as can be. -/
theorem fence_pieces {after : List Char} (h : raw.dropWhile (! isFenceChar ·) = c :: after) :
    isFenceChar c = true ∧ (∀ d ∈ (c :: after).takeWhile (· == c), d = c) ∧
      ((c :: after).dropWhile (· == c)).head? ≠ some c := by
  refine ⟨?_, fun d hd => ?_, fun hhead => ?_⟩
  · simpa using head?_dropWhile_ne (! isFenceChar ·) raw (by rw [h]; rfl)
  · simpa using List.mem_takeWhile_imp hd
  · simpa using head?_dropWhile_ne (· == c) _ hhead

/-- A first line ends with a line feed, or nothing stands behind it. -/
theorem firstLine_pieces (text : List Char) :
    '\n' ∉ text.takeWhile (· != '\n') ∧
      text.takeWhile (· != '\n') ++ (text.dropWhile (· != '\n')).take 1 <+: text ∧
      ((text.dropWhile (· != '\n')).take 1 = ['\n'] ∨
        (text.dropWhile (· != '\n')).take 1 = [] ∧ (text.dropWhile (· != '\n')).drop 1 = []) := by
  refine ⟨fun hmem => ?_, takeWhile_append_isPrefix _ (List.take_prefix _ _), ?_⟩
  · simpa using List.mem_takeWhile_imp hmem
  · cases hd : text.dropWhile (· != '\n') with
    | nil => exact .inr ⟨rfl, rfl⟩
    | cons d lines =>
      have hne := head?_dropWhile_ne (· != '\n') text (by rw [hd]; rfl)
      obtain rfl : d = '\n' := by simpa using hne
      exact .inl rfl

/-- Behind the indentation of a line without a word there is white space or nothing. -/
theorem isBlank_of_no_word {info ending : List Char} {d : Char}
    (hword : (info.dropWhile isSpaceOrTab).takeWhile (! isBlank ·) = [])
    (hending : ∀ e ∈ ending, e = '\n')
    (hd : ((info ++ ending).dropWhile isSpaceOrTab).head? = some d) : isBlank d = true := by
  rw [List.dropWhile_append] at hd
  split at hd
  · have hmem := List.dropWhile_subset _ (List.mem_of_mem_head? hd)
    rw [hending d hmem]
    decide
  next hne =>
    refine of_takeWhile_not_eq_nil hword ?_
    cases hinfo : info.dropWhile isSpaceOrTab with
    | nil => simp [hinfo] at hne
    | cons e rest => rwa [hinfo] at hd

theorem opens_of_fencedCode? (h : fencedCode? raw = some f) : ∃ c, f.Opens c ∧ f.Closes c := by
  simp only [fencedCode?] at h
  split at h
  · cases h
  next c afterLead hcut =>
    split at h
    · cases h
    next hlong =>
      have hlead := not_isFenceChar_of_mem_lead raw
      obtain ⟨hc, hfence, hlongest⟩ := fence_pieces hcut
      generalize raw.takeWhile (! isFenceChar ·) = lead at *
      generalize (c :: afterLead).takeWhile (· == c) = fence at *
      generalize (c :: afterLead).dropWhile (· == c) = afterFence at *
      obtain ⟨hinfo, hline, hending⟩ := firstLine_pieces afterFence
      generalize afterFence.takeWhile (· != '\n') = info at *
      generalize (afterFence.dropWhile (· != '\n')).take 1 = ending at *
      generalize (afterFence.dropWhile (· != '\n')).drop 1 = lines at *
      have hlines := fencedBody_text c fence.length lines
      have hopenRest (rest : List Char) (hrest : '\n' ∉ rest) :
          (∃ line, '\n' ∉ line ∧ rest ++ ending = line ++ ['\n']) ∨
            '\n' ∉ rest ++ ending ∧ lines = [] := by
        obtain rfl | ⟨rfl, hnil⟩ := hending
        · exact .inl ⟨rest, hrest, rfl⟩
        · exact .inr ⟨by rwa [List.append_nil], hnil⟩
      have hlineFeed : ∀ e ∈ ending, e = '\n' := by
        obtain rfl | ⟨rfl, -⟩ := hending <;> simp
      have hstart (d : Char) (hd : (info ++ ending).head? = some d) : d ≠ c := by
        rintro rfl
        exact hlongest (head?_of_isPrefix hline hd)
      generalize hcut : (info.dropWhile isSpaceOrTab).takeWhile (! isBlank ·) = word at h
      obtain ⟨hpieces, hafter⟩ := word_pieces info hcut
      refine ⟨c, ?_⟩
      split at h
      next hword =>
        obtain rfl := Option.some.inj h
        refine (fun ho => ⟨ho, FencedCode.closes_of_fencedBody ho rfl rfl rfl rfl⟩)
          { lead := hlead, fence := ⟨hc, Nat.not_lt.1 hlong, hfence⟩,
            longest := fun hhead => hstart c hhead rfl, gap := List.forall_mem_nil _,
            language := ?_,
            noLanguage := fun _ => ⟨rfl, fun d => isBlank_of_no_word (hcut.trans hword) hlineFeed⟩,
            openRest := (hopenRest info hinfo).imp_right (.imp_right hlines.trans) }
        rintro _ ⟨⟩
      next hword =>
        obtain rfl := Option.some.inj h
        refine (fun ho => ⟨ho, FencedCode.closes_of_fencedBody ho rfl rfl rfl rfl⟩)
          { lead := hlead, fence := ⟨hc, Nat.not_lt.1 hlong, hfence⟩, longest := ?_,
            gap := fun d hd => List.mem_takeWhile_imp hd, language := ?_, noLanguage := ?_,
            openRest := ?_ }
        · simp only [Option.getD_some]
          rw [← List.append_assoc, hpieces]
          exact fun hhead => hstart c hhead rfl
        · rintro _ ⟨⟩
          refine ⟨hword, fun d hd => ?_, fun d hd => ?_⟩
          · rw [← hcut] at hd
            simpa using List.mem_takeWhile_imp hd
          · rw [List.head?_append, Option.or_eq_some_iff] at hd
            refine hd.elim (hafter d) fun hd => ?_
            rw [hlineFeed d (List.mem_of_mem_head? hd.2)]
            decide
        · rintro ⟨⟩
        · exact (hopenRest _ fun hd => hinfo (List.mem_of_mem_drop hd)).imp_right
            (.imp_right hlines.trans)

/-- What closes a block begins with a backtick or tilde. -/
theorem exists_cons_of_close (hf : fencedCode? raw = some f) (hclose : f.close = some run) :
    ∃ c tail, run = c :: tail ∧ isFenceChar c = true := by
  obtain ⟨c, hopens, hcloses⟩ := opens_of_fencedCode? hf
  obtain ⟨hfence, hlong, -⟩ := hopens.fence
  obtain ⟨-, rest, hline⟩ := hcloses.closed run hclose
  cases run with
  | nil => exact absurd (Nat.le_trans hlong hline.length) (by decide)
  | cons d tail => exact ⟨d, tail, rfl, hline.run d List.mem_cons_self ▸ hfence⟩

theorem fencedCode?_eq_none_iff (raw : List Char) :
    fencedCode? raw = none ↔ (∀ c ∈ raw, isFenceChar c = false) ∨
      ∃ lead c run after, raw = lead ++ run ++ after ∧ (∀ d ∈ lead, isFenceChar d = false) ∧
        isFenceChar c = true ∧ run ≠ [] ∧ (∀ d ∈ run, d = c) ∧ after.head? ≠ some c ∧
        run.length < 3 := by
  constructor
  · intro h
    have hsplit := List.takeWhile_append_dropWhile (p := (! isFenceChar ·)) (l := raw)
    have hlead := not_isFenceChar_of_mem_lead raw
    simp only [fencedCode?] at h
    split at h
    next hnil =>
      rw [hnil, List.append_nil] at hsplit
      exact .inl (hsplit ▸ hlead)
    next c afterLead hafter =>
      obtain ⟨hc, hfence, hlongest⟩ := fence_pieces hafter
      split at h
      next hshort =>
        refine .inr ⟨_, c, (c :: afterLead).takeWhile (· == c), (c :: afterLead).dropWhile (· == c),
          ?_, hlead, hc, by simp, hfence, hlongest, hshort⟩
        rw [List.append_assoc, List.takeWhile_append_dropWhile, ← hafter, hsplit]
      · split at h <;> cases h
  · rintro (h | ⟨lead, c, run, after, rfl, hlead, hc, hne, hrun, hafter, hshort⟩)
    · have hnil : raw.dropWhile (! isFenceChar ·) = [] := by simpa using h
      simp [fencedCode?, hnil]
    · obtain ⟨d, run, rfl⟩ := List.exists_cons_of_ne_nil hne
      obtain rfl := hrun d List.mem_cons_self
      have hleadChars : ∀ e ∈ lead, (! isFenceChar e) = true := fun e he => by simp [hlead e he]
      have hrunChars : ∀ e ∈ d :: run, (e == d) = true := fun e he => by simpa using hrun e he
      have hcut :
          (lead ++ (d :: run) ++ after).dropWhile (! isFenceChar ·) = d :: run ++ after := by
        rw [List.append_assoc]
        refine dropWhile_append_of_head? hleadChars ?_
        rintro e ⟨⟩
        simp [hc]
      have hnone : ∀ e, after.head? = some e → (e == d) = false := fun e he =>
        beq_eq_false_iff_ne.2 fun hed => hafter (hed ▸ he)
      have hfence := takeWhile_append_of_head? hrunChars hnone
      rw [List.cons_append] at hcut hfence
      rw [fencedCode?, hcut]
      simp only [hfence, if_pos hshort]

/-- A slice is no code block only without a fence, and a block is cut in order into its fence, its
language, the rest of its first line, its body and its closing run, with nothing lost between. -/
theorem fencedCode?_cut (raw : List Char) :
    (fencedCode? raw = none ↔ (∀ c ∈ raw, isFenceChar c = false) ∨
      ∃ lead c run after, raw = lead ++ run ++ after ∧ (∀ d ∈ lead, isFenceChar d = false) ∧
        isFenceChar c = true ∧ run ≠ [] ∧ (∀ d ∈ run, d = c) ∧ after.head? ≠ some c ∧
        run.length < 3) ∧
    ∀ f, fencedCode? raw = some f → f.text = raw ∧ ∃ c, f.Opens c ∧ f.Closes c :=
  ⟨fencedCode?_eq_none_iff raw, fun _ hf => ⟨fencedCode?_text hf, opens_of_fencedCode? hf⟩⟩

/-- A longer run behind a quote marker closes the block; the shorter one before it is code. -/
theorem fencedCode?_cut_quoted :
    let raw := "> ~~~~\t rust title\n> ~~~\n> ~~~~~ \r\n".toList
    let f : FencedCode := ⟨"> ".toList, "~~~~".toList, "\t ".toList, some "rust".toList,
      " title\n".toList, "> ~~~\n".toList, "> ".toList, some "~~~~~".toList, " \r\n".toList⟩
    fencedCode? raw = some f ∧ f.text = raw ∧ ∃ c, f.Opens c ∧ f.Closes c :=
  ⟨by decide, (fencedCode?_cut _).2 _ (by decide)⟩

end MarkdownPreview.Syntax
