import MarkdownPreview.Proofs.Text.Trimming
import MarkdownPreview.Toml.Print
import MarkdownPreview.Toml.Text

/-! TOML strings read back. The form of a string is chosen so that its text can be told from its
ends: where escapes are written every text can be, a literal string holds neither its own quote nor
what needs an escape, and on several lines no run of quotes in the text is long enough to end it. -/

namespace MarkdownPreview.Toml

/-! ### Characters -/

theorem isPlain_of_not_needsEscape {c : Char} (h : needsEscape c = false) (hline : c ≠ '\n') :
    isPlain c = true := by
  simp only [needsEscape, isPlain, Bool.and_eq_false_iff, bne_eq_false_iff_eq, Bool.or_eq_false_iff,
    decide_eq_false_iff_not, beq_eq_false_iff_ne, Bool.or_eq_true, beq_iff_eq, Bool.and_eq_true,
    decide_eq_true_eq, bne_iff_ne] at *
  rcases h with (h | h) | ⟨hlow, hdelete⟩
  · exact .inl h
  · exact absurd h hline
  · exact .inr ⟨by omega, hdelete⟩

/-- A plain character does not end a line. -/
theorem newLine?_of_isPlain {c : Char} (h : isPlain c = true) (rest : List Char) :
    newLine? (c :: rest) = none := by
  rw [newLine?.eq_def]
  split
  next heq =>
    obtain ⟨rfl, -⟩ := List.cons.inj heq
    exact absurd h (by decide)
  next heq =>
    obtain ⟨rfl, -⟩ := List.cons.inj heq
    exact absurd h (by decide)
  · rfl

theorem hexValue?_hexDigit : ∀ n < 16, Json.hexValue? (hexDigit n) = some n := by decide

/-- The escape by which a character stands behind a backslash. -/
structure Escapes (escaped : List Char) (c : Char) : Prop where
  reads : ∀ rest, escape? (escaped ++ rest) = some (c, rest)
  /-- A backslash before white space would join lines. -/
  joinsNoLines : ∀ rest, newLine? (skipSpace (escaped ++ rest)) = none

theorem escapes_letter {letter c : Char} (h : ∀ rest, escape? (letter :: rest) = some (c, rest))
    (hspace : isSpace letter = false) (hline : ∀ rest, newLine? (letter :: rest) = none) :
    Escapes [letter] c := by
  refine ⟨h, fun rest => ?_⟩
  rw [List.singleton_append, skipSpace, List.dropWhile_cons_of_neg (by simp [hspace])]
  exact hline rest

theorem escapes_code {c : Char} (h : c.toNat < 0x20 ∨ c.toNat = 0x7f) :
    Escapes ['u', '0', '0', hexDigit (c.toNat / 16), hexDigit (c.toNat % 16)] c := by
  refine ⟨fun rest => ?_, fun rest => rfl⟩
  have hhigh := hexValue?_hexDigit (c.toNat / 16) (by omega)
  have hlow := hexValue?_hexDigit (c.toNat % 16) (by omega)
  have hvalue : 16 * (16 * (16 * (16 * 0 + 0) + 0) + c.toNat / 16) + c.toNat % 16 = c.toNat := by
    omega
  have hnumber : hexNumber? 4 0
      (['0', '0', hexDigit (c.toNat / 16), hexDigit (c.toNat % 16)] ++ rest) =
        some (c.toNat, rest) := by
    have hzero : Json.hexValue? '0' = some 0 := rfl
    simp only [hexNumber?, List.cons_append, List.nil_append, hzero, hhigh, hlow, Option.bind_some,
      hvalue]
  change (hexNumber? 4 0
    (['0', '0', hexDigit (c.toNat / 16), hexDigit (c.toNat % 16)] ++ rest)).bind
      (fun p => if p.1.isValidChar then some (Char.ofNat p.1, p.2) else none) = _
  rw [hnumber]
  simp only [Option.bind_some]
  rw [if_pos (by exact c.valid), Char.ofNat_toNat]

/-- The characters that have a sign of their own for after a backslash. -/
theorem exists_escape_letter {lines : Bool} {c : Char}
    (h : c = '\\' ∨ c = '\x08' ∨ c = '\t' ∨ c = '\x0c' ∨ c = '\r' ∨ c = '\n' ∧ lines = false) :
    ∃ letter, escape lines c = ['\\', letter] ∧ Escapes [letter] c := by
  rcases h with rfl | rfl | rfl | rfl | rfl | ⟨rfl, rfl⟩ <;>
    exact ⟨_, rfl, escapes_letter (fun _ => rfl) rfl fun _ => rfl⟩

/-- How a character is written, if it is no quote: behind a backslash, or as it is. -/
theorem escape_cases (lines : Bool) (c : Char) :
    (∃ escaped, escape lines c = '\\' :: escaped ∧ Escapes escaped c) ∨
      (escape lines c = [c] ∧ c ≠ '\\' ∧ isPlain c = true) ∨
      (lines = true ∧ c = '\n' ∧ escape lines c = ['\n']) := by
  by_cases hletter : c = '\\' ∨ c = '\x08' ∨ c = '\t' ∨ c = '\x0c' ∨ c = '\r' ∨
      c = '\n' ∧ lines = false
  · obtain ⟨letter, hescape, hreads⟩ := exists_escape_letter hletter
    exact .inl ⟨[letter], hescape, hreads⟩
  simp only [not_or, not_and, Bool.not_eq_false] at hletter
  obtain ⟨hbackslash, hb, ht, hf, hr, hline⟩ := hletter
  by_cases hfeed : c = '\n'
  · exact .inr (.inr ⟨hline hfeed, hfeed, by rw [hfeed, hline hfeed]; rfl⟩)
  by_cases hcode : c.toNat < 0x20 ∨ c.toNat = 0x7f
  · refine .inl ⟨_, ?_, escapes_code hcode⟩
    rw [escape, if_neg hbackslash, if_neg hb, if_neg ht, if_neg hfeed, if_neg hf, if_neg hr,
      if_pos hcode]
  · refine .inr (.inl ⟨?_, hbackslash, ?_⟩)
    · rw [escape, if_neg hbackslash, if_neg hb, if_neg ht, if_neg hfeed, if_neg hf, if_neg hr,
        if_neg hcode]
    · simp only [isPlain, Bool.or_eq_true, Bool.and_eq_true, decide_eq_true_eq, bne_iff_ne]
      omega

/-! ### Runs of quotes -/

theorem quoteRun_replicate_append {q : Char} {rest : List Char} (h : rest.head? ≠ some q)
    (n : Nat) : quoteRun q (List.replicate n q ++ rest) = n := by
  have hrest : ∀ c, rest.head? = some c → (c == q) = false := fun c hc =>
    beq_eq_false_iff_ne.2 fun heq => h (heq ▸ hc)
  have hall : ∀ c ∈ List.replicate n q, (c == q) = true := fun c hc =>
    beq_iff_eq.2 (List.eq_of_mem_replicate hc)
  rw [quoteRun, Text.takeWhile_append_of_head? hall hrest, List.length_replicate]

/-- A text is its first run of quotes and something that does not start with one. -/
theorem exists_eq_quoteRun (q : Char) (text : List Char) :
    ∃ rest, text = List.replicate (quoteRun q text) q ++ rest ∧ rest.head? ≠ some q := by
  induction text with
  | nil => exact ⟨[], rfl, by simp⟩
  | cons c text ih =>
    by_cases hc : c = q
    · obtain ⟨rest, htext, hrest⟩ := ih
      have hrun : quoteRun q (c :: text) = quoteRun q text + 1 := by simp [quoteRun, hc]
      refine ⟨rest, ?_, hrest⟩
      rw [hrun, List.replicate_succ, List.cons_append, ← htext, hc]
    · have hrun : quoteRun q (c :: text) = 0 := by simp [quoteRun, hc]
      exact ⟨c :: text, by rw [hrun]; rfl, by simpa using hc⟩

/-- Before the end of a string, at most two quotes in a row belong to its text. If they are all that
is left, they are read together with the end; otherwise there is no end yet. -/
theorem closing?_append {q : Char} (text : List Char) {rest : List Char}
    (hrest : rest.head? ≠ some q) (hshort : quoteRun q text ≤ 2) :
    closing? q (text ++ q :: q :: q :: rest) =
      if text.all (· == q) then some (some (text, rest)) else none := by
  obtain ⟨after, htext, hafter⟩ := exists_eq_quoteRun q text
  generalize quoteRun q text = n at htext hshort
  subst htext
  cases after with
  | nil =>
    have heq : List.replicate n q ++ [] ++ q :: q :: q :: rest =
        List.replicate (n + 3) q ++ rest := by
      rw [List.append_nil, ← List.replicate_append_replicate, List.append_assoc]
      rfl
    have hall : (List.replicate n q ++ []).all (· == q) = true := by simp
    rw [heq, if_pos hall, closing?, quoteRun_replicate_append hrest]
    simp only [Nat.not_lt.2 (Nat.le_add_left 3 n), if_false, if_pos (show n + 3 ≤ 5 by omega)]
    rw [Nat.add_sub_cancel, List.append_nil, List.drop_left' (List.length_replicate ..)]
  | cons c after =>
    have hnot : ¬ (List.replicate n q ++ c :: after).all (· == q) = true := fun h =>
      hafter (congrArg some (beq_iff_eq.1 (List.all_eq_true.1 h c (by simp))))
    have hfirst : (c :: after ++ q :: q :: q :: rest).head? ≠ some q := hafter
    rw [List.append_assoc, if_neg hnot, closing?, quoteRun_replicate_append hfirst]
    simp only [if_pos (show n < 3 by omega)]

theorem quoteRun_add_le_longestRunFrom (q : Char) (run : Nat) (text : List Char) :
    run + quoteRun q text ≤ longestRunFrom q run text := by
  induction text generalizing run with
  | nil => exact Nat.le_refl run
  | cons c text ih =>
    by_cases hc : c = q
    · have hrun : quoteRun q (c :: text) = quoteRun q text + 1 := by simp [quoteRun, hc]
      have := ih (run + 1)
      rw [longestRunFrom, if_pos hc, hrun]
      omega
    · have hrun : quoteRun q (c :: text) = 0 := by simp [quoteRun, hc]
      rw [longestRunFrom, if_neg hc, hrun]
      exact Nat.le_max_left _ _

theorem longestRunFrom_mono (q : Char) {m n : Nat} (h : m ≤ n) (text : List Char) :
    longestRunFrom q m text ≤ longestRunFrom q n text := by
  induction text generalizing m n with
  | nil => exact h
  | cons c text ih =>
    by_cases hc : c = q
    · rw [longestRunFrom, longestRunFrom, if_pos hc, if_pos hc]
      exact ih (Nat.succ_le_succ h)
    · rw [longestRunFrom, longestRunFrom, if_neg hc, if_neg hc]
      omega

/-- No run in the rest of a text is longer than the longest one in the text. -/
theorem longestRun_cons_le (q c : Char) (text : List Char) :
    longestRun q text ≤ longestRun q (c :: text) := by
  by_cases hc : c = q
  · rw [longestRun, longestRun, longestRunFrom, if_pos hc]
    exact longestRunFrom_mono q (Nat.zero_le 1) text
  · rw [longestRun, longestRun, longestRunFrom, if_neg hc]
    exact Nat.le_max_right _ _

/-! ### Texts with escapes -/

section Escaped

variable (lines : Bool) {allowed quotes : Nat}

/-- No more quotes in a row stand without a backslash than are allowed. -/
theorem quoteRun_escapeFrom (text : List Char) (h : quotes ≤ allowed) :
    quotes + quoteRun '"' (escapeFrom lines allowed quotes text) ≤ allowed := by
  induction text generalizing quotes with
  | nil => exact h
  | cons c text ih =>
    rw [escapeFrom]
    split
    next hc =>
      split
      next hlt =>
        have hle : quotes + 1 ≤ allowed := hlt
        have := ih hle
        simp only [quoteRun, List.takeWhile_cons, beq_self_eq_true, if_true,
          List.length_cons] at this ⊢
        omega
      · exact h
    next hc =>
      obtain ⟨escaped, hescape, -⟩ | ⟨hescape, -, -⟩ | ⟨-, rfl, hescape⟩ := escape_cases lines c
      · rw [hescape]
        exact h
      · rw [hescape]
        simpa [quoteRun, hc] using h
      · rw [hescape]
        exact h

variable {lines}

/-- Where nothing but quotes is written, they are the text. -/
theorem eq_of_escapeFrom {text : List Char}
    (h : ∀ c ∈ escapeFrom lines allowed quotes text, c = '"') :
    escapeFrom lines allowed quotes text = text := by
  induction text generalizing quotes with
  | nil => rfl
  | cons c text ih =>
    rw [escapeFrom] at h ⊢
    split at h
    next hc =>
      split at h
      next hlt =>
        rw [if_pos hc, if_pos hlt, ih (List.forall_mem_cons.1 h).2, hc]
      · exact absurd (h '\\' List.mem_cons_self) (by decide)
    next hc =>
      obtain ⟨escaped, hescape, -⟩ | ⟨hescape, -, -⟩ | ⟨-, rfl, hescape⟩ := escape_cases lines c
      · exact absurd (h '\\' (by simp [hescape])) (by decide)
      · exact absurd (h c (by simp [hescape])) hc
      · exact absurd (h '\n' (by simp [hescape])) (by decide)

theorem length_le_escapeFrom (lines : Bool) (allowed quotes : Nat) (text : List Char) :
    text.length ≤ (escapeFrom lines allowed quotes text).length := by
  induction text generalizing quotes with
  | nil => exact Nat.le_refl 0
  | cons c text ih =>
    rw [escapeFrom]
    split
    · split
      · have : text.length ≤ (escapeFrom lines allowed (quotes + 1) text).length := ih _
        simp only [List.length_cons]
        omega
      · have : text.length ≤ (escapeFrom lines allowed 0 text).length := ih 0
        simp only [List.length_cons]
        omega
    next hc =>
      have : text.length ≤ (escapeFrom lines allowed 0 text).length := ih 0
      have hone : 1 ≤ (escape lines c).length := by
        obtain ⟨escaped, hescape, -⟩ | ⟨hescape, -, -⟩ | ⟨-, -, hescape⟩ := escape_cases lines c <;>
          simp [hescape]
      simp only [List.length_append, List.length_cons]
      omega

end Escaped

theorem escapes_quote : Escapes ['"'] '"' := escapes_letter (fun _ => rfl) rfl fun _ => rfl

/-! ### Strings on one line -/

theorem basicBody?_plain {c : Char} (hquote : c ≠ '"') (hbackslash : c ≠ '\\')
    (hplain : isPlain c = true) (fuel : Nat) (rest : List Char) :
    basicBody? (fuel + 1) (c :: rest) = Json.prepend c (basicBody? fuel rest) := by
  rw [basicBody?, if_neg hquote, if_neg hbackslash, if_pos hplain]

theorem basicBody?_escaped {escaped : List Char} {c : Char} (h : Escapes escaped c) (fuel : Nat)
    (rest : List Char) :
    basicBody? (fuel + 1) ('\\' :: escaped ++ rest) = Json.prepend c (basicBody? fuel rest) := by
  rw [List.cons_append, basicBody?, if_neg (by decide), if_pos rfl, h.reads, Option.bind_some]

/-- With every quote behind a backslash, a text ends at the first quote that stands alone. -/
theorem basicBody?_escapeFrom (text rest : List Char) {fuel : Nat} (hfuel : text.length < fuel) :
    basicBody? fuel (escapeFrom false 0 0 text ++ '"' :: rest) = some (text, rest) := by
  induction text generalizing fuel with
  | nil =>
    obtain ⟨fuel, rfl⟩ := Nat.exists_eq_add_of_lt hfuel
    rfl
  | cons c text ih =>
    obtain ⟨fuel, rfl⟩ := Nat.exists_eq_add_of_lt hfuel
    have hlength : text.length < (c :: text).length + fuel := by
      simp only [List.length_cons]
      omega
    have hrest := ih hlength
    rw [escapeFrom]
    split
    next hc =>
      subst hc
      exact (basicBody?_escaped escapes_quote _ _).trans (congrArg (Json.prepend '"') hrest)
    next hc =>
      obtain ⟨escaped, hescape, hreads⟩ | ⟨hescape, hbackslash, hplain⟩ | ⟨hlines, -, -⟩ :=
        escape_cases false c
      · rw [hescape, List.append_assoc, basicBody?_escaped hreads, hrest]
        rfl
      · rw [hescape, List.append_assoc, List.singleton_append,
          basicBody?_plain hc hbackslash hplain, hrest]
        rfl
      · cases hlines

theorem literalBody?_append {text : List Char} (rest : List Char)
    (h : ∀ c ∈ text, c ≠ '\'' ∧ isPlain c = true) :
    literalBody? (text ++ '\'' :: rest) = some (text, rest) := by
  induction text with
  | nil => rfl
  | cons c text ih =>
    obtain ⟨⟨hquote, hplain⟩, htext⟩ := List.forall_mem_cons.1 h
    rw [List.cons_append, literalBody?, if_neg hquote, if_pos hplain, ih htext]
    rfl

/-! ### Strings on several lines -/

theorem basicLines?_closing {text : List Char} {r : Option (List Char × List Char)}
    (h : closing? '"' text = some r) (fuel : Nat) : basicLines? (fuel + 1) text = r := by
  simp only [basicLines?, h]

theorem basicLines?_plain {c : Char} (hbackslash : c ≠ '\\') (hplain : isPlain c = true)
    {rest : List Char} (hopen : closing? '"' (c :: rest) = none) (fuel : Nat) :
    basicLines? (fuel + 1) (c :: rest) = Json.prepend c (basicLines? fuel rest) := by
  simp only [basicLines?, hopen, newLine?_of_isPlain hplain, if_neg hbackslash, if_pos hplain]

theorem basicLines?_escaped {escaped : List Char} {c : Char} (h : Escapes escaped c) (fuel : Nat)
    (rest : List Char) : basicLines? (fuel + 1) ('\\' :: (escaped ++ rest)) =
      Json.prepend c (basicLines? fuel rest) := by
  have hopen : closing? '"' ('\\' :: (escaped ++ rest)) = none := rfl
  have hline : newLine? ('\\' :: (escaped ++ rest)) = none := rfl
  simp only [basicLines?, hopen, hline, if_pos, h.joinsNoLines, h.reads, Option.bind_some]

/-- With two quotes in a row at most, a text ends at the last three quotes of a run. -/
theorem basicLines?_escapeFrom (text : List Char) {rest : List Char} (hrest : rest.head? ≠ some '"')
    {quotes : Nat} (hquotes : quotes ≤ 2) {fuel : Nat} (hfuel : text.length < fuel) :
    basicLines? fuel (escapeFrom true 2 quotes text ++ '"' :: '"' :: '"' :: rest) =
      some (text, rest) := by
  induction text generalizing quotes fuel with
  | nil =>
    obtain ⟨fuel, rfl⟩ := Nat.exists_eq_add_of_lt hfuel
    exact basicLines?_closing (closing?_append [] hrest (Nat.zero_le 2)) _
  | cons c text ih =>
    obtain ⟨fuel, rfl⟩ := Nat.exists_eq_add_of_lt hfuel
    have hshort : quoteRun '"' (escapeFrom true 2 quotes (c :: text)) ≤ 2 := by
      have := quoteRun_escapeFrom true (c :: text) hquotes
      omega
    have hclose := closing?_append _ hrest hshort
    by_cases hall : (escapeFrom true 2 quotes (c :: text)).all (· == '"') = true
    · have hquotes := eq_of_escapeFrom fun d hd => beq_iff_eq.1 (List.all_eq_true.1 hall d hd)
      rw [if_pos hall, hquotes] at hclose
      rw [hquotes]
      exact basicLines?_closing hclose _
    rw [if_neg hall] at hclose
    have hlength : text.length < (c :: text).length + fuel := by
      simp only [List.length_cons]
      omega
    have hnext {quotes : Nat} (hquotes : quotes ≤ 2) := ih hquotes hlength
    rw [escapeFrom] at hclose ⊢
    split
    next hc =>
      subst hc
      split
      next hlt =>
        rw [if_pos rfl, if_pos hlt] at hclose
        exact (basicLines?_plain (by decide) rfl hclose _).trans
          (congrArg (Json.prepend '"') (hnext hlt))
      · exact (basicLines?_escaped escapes_quote _ _).trans
          (congrArg (Json.prepend '"') (hnext (Nat.zero_le 2)))
    next hc =>
      rw [if_neg hc] at hclose
      rw [List.append_assoc] at hclose ⊢
      obtain ⟨escaped, hescape, hreads⟩ | ⟨hescape, hbackslash, hplain⟩ | ⟨-, rfl, hescape⟩ :=
        escape_cases true c
      · rw [hescape]
        exact (basicLines?_escaped hreads _ _).trans
          (congrArg (Json.prepend c) (hnext (Nat.zero_le 2)))
      · rw [hescape] at hclose ⊢
        exact (basicLines?_plain hbackslash hplain hclose _).trans
          (congrArg (Json.prepend c) (hnext (Nat.zero_le 2)))
      · rw [hescape]
        exact congrArg (Json.prepend '\n') (hnext (Nat.zero_le 2))

/-- In a literal string on several lines nothing is an escape, so no run of its quotes in the text
may be long enough to end it. -/
theorem literalLines?_append {text rest : List Char} (hrest : rest.head? ≠ some '\'')
    (hcodes : ∀ c ∈ text, needsEscape c = false) (hruns : longestRun '\'' text ≤ 2) {fuel : Nat}
    (hfuel : text.length < fuel) :
    literalLines? fuel (text ++ '\'' :: '\'' :: '\'' :: rest) = some (text, rest) := by
  induction text generalizing fuel with
  | nil =>
    obtain ⟨fuel, rfl⟩ := Nat.exists_eq_add_of_lt hfuel
    have hclose := closing?_append [] hrest (Nat.zero_le 2)
    simp only [List.nil_append] at hclose ⊢
    simp only [literalLines?, hclose]
    rfl
  | cons c text ih =>
    obtain ⟨fuel, rfl⟩ := Nat.exists_eq_add_of_lt hfuel
    have hshort : quoteRun '\'' (c :: text) ≤ 2 := by
      have := quoteRun_add_le_longestRunFrom '\'' 0 (c :: text)
      rw [← longestRun] at this
      omega
    have hclose := closing?_append _ hrest hshort
    by_cases hall : (c :: text).all (· == '\'') = true
    · rw [if_pos hall] at hclose
      simp only [literalLines?, hclose]
    rw [if_neg hall] at hclose
    obtain ⟨hc, htext⟩ := List.forall_mem_cons.1 hcodes
    have hlength : text.length < (c :: text).length + fuel := by
      simp only [List.length_cons]
      omega
    have hnext := ih htext (Nat.le_trans (longestRun_cons_le _ c text) hruns) hlength
    simp only [literalLines?, hclose]
    by_cases hline : c = '\n'
    · subst hline
      exact congrArg (Json.prepend '\n') hnext
    · have hplain := isPlain_of_not_needsEscape hc hline
      rw [List.cons_append, newLine?_of_isPlain hplain]
      simp only [if_pos hplain, hnext]
      rfl

/-! ### All forms -/

theorem not_needsEscape {text : List Char} (h : text.any needsEscape = false) :
    ∀ c ∈ text, needsEscape c = false := by
  intro c hc
  rw [List.any_eq_false] at h
  exact Bool.eq_false_iff.2 (h c hc)

/-- What a literal form rules out. -/
theorem StringForm.of_cases (text : List Char) :
    of text = basic ∨ of text = basicLines ∨
      (of text = literal ∧ text.any needsEscape = false ∧ longestRun '\'' text = 0 ∧
        text.contains '\n' = false) ∨
      (of text = literalLines ∧ text.any needsEscape = false ∧ longestRun '\'' text ≤ 2) := by
  simp only [of]
  split
  · exact .inl rfl
  split
  next h =>
    simp only [Bool.and_eq_true, Bool.not_eq_true', decide_eq_true_eq] at h
    exact .inr (.inr (.inl ⟨rfl, h.1.1, h.1.2, h.2⟩))
  split
  · exact .inr (.inl rfl)
  split
  next h =>
    simp only [Bool.and_eq_true, Bool.not_eq_true', decide_eq_true_eq] at h
    exact .inr (.inr (.inr ⟨rfl, h.1, h.2⟩))
  split
  · exact .inr (.inl rfl)
  · exact .inl rfl

theorem ne_of_longestRun_eq_zero {q : Char} {text : List Char} (h : longestRun q text = 0) :
    ∀ c ∈ text, c ≠ q := by
  induction text with
  | nil => simp
  | cons c text ih =>
    have hfirst := quoteRun_add_le_longestRunFrom q 0 (c :: text)
    have hrest := longestRun_cons_le q c text
    rw [← longestRun, h] at hfirst
    refine List.forall_mem_cons.2 ⟨fun hc => ?_, ih (by omega)⟩
    simp [quoteRun, hc] at hfirst

/-- A line feed put before a text that has any is passed over again, and in a text that has none
nothing is. -/
theorem skipFirstLineEnd_append {text body : List Char}
    (h : text.contains '\n' = false → newLine? body = none) :
    skipFirstLineEnd ((if text.contains '\n' then ['\n'] else []) ++ body) = body := by
  split
  · rfl
  next hline => rw [List.nil_append, skipFirstLineEnd, h (by simpa using hline)]; rfl

theorem newLine?_escapeFrom {text : List Char} (h : text.contains '\n' = false) (rest : List Char) :
    newLine? (escapeFrom true 2 0 text ++ '"' :: rest) = none := by
  cases text with
  | nil => rfl
  | cons c text =>
    rw [escapeFrom]
    split
    · rfl
    next hc =>
      obtain ⟨escaped, hescape, -⟩ | ⟨hescape, -, hplain⟩ | ⟨-, rfl, -⟩ := escape_cases true c
      · rw [hescape]
        rfl
      · rw [hescape]
        exact newLine?_of_isPlain hplain _
      · simp at h

section Forms

variable (text : List Char) {rest : List Char}

/-- What is written after the opening of a string of several lines, before its text. -/
def firstLineEnd : List Char := if text.contains '\n' then ['\n'] else []

theorem string?_basic (hrest : rest.head? ≠ some '"') :
    string? ('"' :: (escapeFrom false 0 0 text ++ '"' :: rest)) = some (text, rest) := by
  -- the string is empty, or a quote of the text stands behind a backslash
  have hopen : ∀ more, escapeFrom false 0 0 text ++ '"' :: rest ≠ '"' :: '"' :: more := by
    intro more heq
    have hrun := quoteRun_escapeFrom false text (Nat.le_refl 0)
    cases hbody : escapeFrom false 0 0 text with
    | nil =>
      rw [hbody] at heq
      obtain ⟨-, rfl⟩ := List.cons.inj heq
      exact hrest rfl
    | cons c body =>
      rw [hbody] at heq hrun
      obtain ⟨rfl, -⟩ := List.cons.inj heq
      simp [quoteRun] at hrun
  rw [string?]
  · refine basicBody?_escapeFrom text rest ?_
    have := length_le_escapeFrom false 0 0 text
    simp only [List.length_append, List.length_cons]
    omega
  · exact hopen

theorem string?_literal (hrest : rest.head? ≠ some '\'')
    (htext : ∀ c ∈ text, c ≠ '\'' ∧ isPlain c = true) :
    string? ('\'' :: (text ++ '\'' :: rest)) = some (text, rest) := by
  have hopen : ∀ more, text ++ '\'' :: rest ≠ '\'' :: '\'' :: more := by
    intro more heq
    cases text with
    | nil =>
      obtain ⟨-, rfl⟩ := List.cons.inj heq
      exact hrest rfl
    | cons c text =>
      obtain ⟨rfl, -⟩ := List.cons.inj heq
      exact (htext _ List.mem_cons_self).1 rfl
  rw [string?]
  · exact literalBody?_append rest htext
  · exact hopen

theorem string?_basicLines (hrest : rest.head? ≠ some '"') :
    string? ('"' :: '"' :: '"' :: (firstLineEnd text ++
      (escapeFrom true 2 0 text ++ '"' :: '"' :: '"' :: rest))) = some (text, rest) := by
  rw [string?, firstLineEnd, skipFirstLineEnd_append fun h => newLine?_escapeFrom h _]
  refine basicLines?_escapeFrom text hrest (Nat.zero_le 2) ?_
  have := length_le_escapeFrom true 2 0 text
  simp only [List.length_append, List.length_cons]
  omega

theorem string?_literalLines (hrest : rest.head? ≠ some '\'')
    (hcodes : ∀ c ∈ text, needsEscape c = false) (hruns : longestRun '\'' text ≤ 2) :
    string? ('\'' :: '\'' :: '\'' :: (firstLineEnd text ++
      (text ++ '\'' :: '\'' :: '\'' :: rest))) = some (text, rest) := by
  have hfirst (h : text.contains '\n' = false) :
      newLine? (text ++ '\'' :: '\'' :: '\'' :: rest) = none := by
    cases text with
    | nil => rfl
    | cons c text =>
      refine newLine?_of_isPlain (isPlain_of_not_needsEscape (hcodes c List.mem_cons_self) ?_) _
      rintro rfl
      simp at h
  rw [string?, firstLineEnd, skipFirstLineEnd_append hfirst]
  refine literalLines?_append hrest hcodes hruns ?_
  simp only [List.length_append, List.length_cons]
  omega

end Forms

/-- A text is read back from the string that it is written as, whatever form that takes, unless a
quote stands right behind it. -/
theorem string?_quote (text : List Char) {rest : List Char} (hquote : rest.head? ≠ some '"')
    (hapostrophe : rest.head? ≠ some '\'') : string? (quote text ++ rest) = some (text, rest) := by
  obtain hform | hform | ⟨hform, hcodes, hquotes, hline⟩ | ⟨hform, hcodes, hruns⟩ :=
    StringForm.of_cases text
  · have heq : quote text ++ rest = '"' :: (escapeFrom false 0 0 text ++ '"' :: rest) := by
      simp [quote, hform, StringForm.delimiter, StringForm.quotesAllowed?, StringForm.holdsLines]
    rw [heq, string?_basic text hquote]
  · have heq : quote text ++ rest = '"' :: '"' :: '"' :: (firstLineEnd text ++
        (escapeFrom true 2 0 text ++ '"' :: '"' :: '"' :: rest)) := by
      simp [quote, hform, StringForm.delimiter, StringForm.quotesAllowed?, StringForm.holdsLines,
        firstLineEnd]
    rw [heq, string?_basicLines text hquote]
  · have heq : quote text ++ rest = '\'' :: (text ++ '\'' :: rest) := by
      simp [quote, hform, StringForm.delimiter, StringForm.quotesAllowed?, StringForm.holdsLines]
    have htext : ∀ c ∈ text, c ≠ '\'' ∧ isPlain c = true := by
      refine fun c hc => ⟨ne_of_longestRun_eq_zero hquotes c hc, ?_⟩
      refine isPlain_of_not_needsEscape (not_needsEscape hcodes c hc) ?_
      rintro rfl
      simp [hc] at hline
    rw [heq, string?_literal text hapostrophe htext]
  · have heq : quote text ++ rest = '\'' :: '\'' :: '\'' :: (firstLineEnd text ++
        (text ++ '\'' :: '\'' :: '\'' :: rest)) := by
      simp [quote, hform, StringForm.delimiter, StringForm.quotesAllowed?, StringForm.holdsLines,
        firstLineEnd]
    rw [heq, string?_literalLines text hapostrophe (not_needsEscape hcodes) hruns]

end MarkdownPreview.Toml
