import MarkdownPreview.Json.Basic
import MarkdownPreview.Json.Read

/-! Strings read back. An escape stands for one character and is read as that character, whatever
follows it, so a quoted text is read as the text, whatever it holds. -/

namespace MarkdownPreview.Json

theorem afterText?_append (word rest : List Char) : afterText? word (word ++ rest) = some rest := by
  induction word with
  | nil => rfl
  | cons c cs ih => simpa [afterText?] using ih

theorem hexValue?_hexDigit : ∀ n < 16, hexValue? (hexDigit n) = some n := by decide

/-- The four digits by which a control character is escaped. -/
theorem hexUnit?_hexDigit (n : Nat) (h : n < 0x20) :
    hexUnit? '0' '0' (hexDigit (n / 16)) (hexDigit (n % 16)) = some n := by
  have high := hexValue?_hexDigit (n / 16) (by omega)
  have low := hexValue?_hexDigit (n % 16) (by omega)
  simp only [hexUnit?, high, low]
  simp [hexValue?]
  omega

theorem stringBody?_escape (c : Char) (rest : List Char) :
    stringBody? (escape c ++ rest) = prepend c (stringBody? rest) := by
  unfold escape
  split
  · subst_vars; rfl
  split
  · subst_vars; rfl
  split
  · subst_vars; rfl
  split
  · subst_vars; rfl
  split
  · subst_vars; rfl
  split
  · subst_vars; rfl
  split
  · subst_vars; rfl
  split
  · next h =>
    have unit := hexUnit?_hexDigit c.toNat h
    have notLow : isLowSurrogate c.toNat = false := by simp [isLowSurrogate]; omega
    have notHigh : isHighSurrogate c.toNat = false := by simp [isHighSurrogate]; omega
    simp [stringBody?, unit, notLow, notHigh]
  · next notBackslash _ _ _ _ _ plain =>
    simp only [List.cons_append, List.nil_append]
    rw [stringBody?]
    · simp [notBackslash, plain]
    all_goals simp_all

theorem string?_quote (text rest : List Char) :
    string? (quote text ++ rest) = some (text, rest) := by
  simp only [quote, List.cons_append, List.append_assoc, string?]
  induction text with
  | nil => rfl
  | cons c cs ih =>
    rw [List.flatMap_cons, List.append_assoc, stringBody?_escape, ih]
    rfl

end MarkdownPreview.Json
