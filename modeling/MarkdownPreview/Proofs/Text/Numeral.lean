import MarkdownPreview.Text.Numeral

/-! Numerals read back. The numeral of a number consists of digits, of which the first is a zero
only for zero itself. What is read as a number is one digit or more and nothing else, with or
without a sign where one is allowed, and its value is that of the digits; so the numeral of a number
is read as the number. -/

namespace MarkdownPreview.Text

variable {text : List Char} {n : Nat} {c : Char}

/-! ### The numeral of a number -/

theorem decimal_ne_nil (n : Nat) : decimal n ≠ [] := Nat.toDigits_ne_nil

theorem isDigit_of_mem_decimal {n : Nat} {c : Char} (h : c ∈ decimal n) : c.isDigit = true :=
  Nat.isDigit_of_mem_toDigits (by decide) (by decide) h

/-- Only the numeral of zero begins with a zero. -/
theorem head?_decimal_ne_zero {n : Nat} (h : 0 < n) : (decimal n).head? ≠ some '0' := by
  induction n using Nat.strongRecOn with
  | ind n ih =>
    by_cases hlt : n < 10
    · have hdigit : ∀ d < 10, 0 < d → Nat.digitChar d ≠ '0' := by decide
      rw [decimal, Nat.toDigits_of_lt_base hlt]
      simpa using hdigit n hlt h
    · have hfirst := List.head?_eq_some_head (decimal_ne_nil (n / 10))
      have htens := ih (n / 10) (by omega) (by omega)
      rw [hfirst] at htens
      rw [decimal, Nat.toDigits_of_base_le (by decide) (Nat.not_lt.1 hlt), ← decimal,
        List.head?_append, hfirst]
      exact htens

/-! ### What is read as a number -/

theorem isDigit_iff : c.isDigit = true ↔ '0' ≤ c ∧ c ≤ '9' := by
  simp only [Char.isDigit, Bool.and_eq_true, decide_eq_true_eq]
  rfl

theorem decimalFrom?_eq_some_iff {acc : Nat} : decimalFrom? acc text = some n ↔
    (∀ c ∈ text, c.isDigit = true) ∧ Nat.ofDigitChars 10 text acc = n := by
  induction text generalizing acc with
  | nil => simp [decimalFrom?]
  | cons c rest ih =>
    rw [decimalFrom?, digitValue?, List.forall_mem_cons, Nat.ofDigitChars_cons]
    by_cases hc : '0' ≤ c ∧ c ≤ '9'
    · rw [if_pos hc, isDigit_iff, and_iff_right hc]
      exact ih
    · rw [if_neg hc, isDigit_iff]
      simp [hc]

theorem decimal?_eq_some_iff : decimal? text = some n ↔
    text ≠ [] ∧ (∀ c ∈ text, c.isDigit = true) ∧ Nat.ofDigitChars 10 text 0 = n := by
  cases text with
  | nil => simp [decimal?]
  | cons c rest => rw [decimal?, decimalFrom?_eq_some_iff, and_iff_right (List.cons_ne_nil c rest)]

theorem decimal?_decimal (n : Nat) : decimal? (decimal n) = some n :=
  decimal?_eq_some_iff.2
    ⟨decimal_ne_nil n, fun _ => isDigit_of_mem_decimal, Nat.ofDigitChars_ten_toDigits⟩

/-! ### Numbers of 64 bits -/

theorem le_maxWord_iff : n ≤ maxWord ↔ n < UInt64.size := Nat.le_sub_one_iff_lt (by decide)

/-- The text is a numeral of the number: one ASCII digit or more, with a single plus sign before
them or not, of a value that fits in 64 bits. Zeros may lead the digits. -/
def IsWord (text : List Char) (n : Nat) : Prop :=
  ∃ sign digits, text = sign ++ digits ∧ (sign = [] ∨ sign = ['+']) ∧ digits ≠ [] ∧
    (∀ c ∈ digits, c.isDigit = true) ∧ Nat.ofDigitChars 10 digits 0 = n ∧ n < UInt64.size

theorem isWord_decimal (h : n < UInt64.size) : IsWord (decimal n) n :=
  ⟨[], decimal n, rfl, .inl rfl, decimal_ne_nil n, fun _ => isDigit_of_mem_decimal,
    Nat.ofDigitChars_ten_toDigits, h⟩

theorem word?_plus (rest : List Char) :
    word? ('+' :: rest) = (decimal? rest).filter (· ≤ maxWord) := rfl

theorem word?_of_head?_ne (h : text.head? ≠ some '+') :
    word? text = (decimal? text).filter (· ≤ maxWord) := by
  cases text with
  | nil => rfl
  | cons c rest =>
    have hc : c ≠ '+' := fun hc => h (congrArg some hc)
    simp [word?, hc]

theorem filter_decimal?_eq_some_iff : (decimal? text).filter (· ≤ maxWord) = some n ↔
    text ≠ [] ∧ (∀ c ∈ text, c.isDigit = true) ∧ Nat.ofDigitChars 10 text 0 = n ∧
      n < UInt64.size := by
  rw [Option.filter_eq_some_iff, decimal?_eq_some_iff, decide_eq_true_eq, le_maxWord_iff,
    and_assoc, and_assoc]

theorem word?_eq_some_iff : word? text = some n ↔ IsWord text n := by
  constructor
  · intro h
    by_cases hplus : text.head? = some '+'
    · obtain ⟨rest, rfl⟩ := List.head?_eq_some_iff.1 hplus
      rw [word?_plus, filter_decimal?_eq_some_iff] at h
      exact ⟨['+'], rest, rfl, .inr rfl, h⟩
    · rw [word?_of_head?_ne hplus, filter_decimal?_eq_some_iff] at h
      exact ⟨[], text, rfl, .inl rfl, h⟩
  · rintro ⟨sign, digits, rfl, rfl | rfl, h⟩
    · -- no digit is a sign
      have hplus : digits.head? ≠ some '+' := fun hplus =>
        absurd (h.2.1 '+' (List.mem_of_mem_head? hplus)) (by decide)
      rw [List.nil_append, word?_of_head?_ne hplus, filter_decimal?_eq_some_iff]
      exact h
    · rw [List.singleton_append, word?_plus, filter_decimal?_eq_some_iff]
      exact h

theorem signs_of_word? (h : word? text = some n) : ∀ c ∈ text, c = '+' ∨ '0' ≤ c ∧ c ≤ '9' := by
  obtain ⟨sign, digits, rfl, hsign, -, hdigits, -⟩ := word?_eq_some_iff.1 h
  refine List.forall_mem_append.2 ⟨fun c hc => ?_, fun c hc => .inr (isDigit_iff.1 (hdigits c hc))⟩
  obtain rfl | rfl := hsign
  · cases hc
  · exact .inl (List.mem_singleton.1 hc)

end MarkdownPreview.Text
