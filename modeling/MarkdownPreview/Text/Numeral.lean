/-! Decimal numerals of natural numbers. -/

namespace MarkdownPreview.Text

/-- The largest number that fits in 64 bits. -/
def maxWord : Nat := Nat.pow 2 64 - 1

/-- The value of an ASCII decimal digit. -/
def digitValue? (c : Char) : Option Nat :=
  if '0' ≤ c ∧ c ≤ '9' then some (c.toNat - '0'.toNat) else none

/-- The value of decimal digits that follow a numeral of value `acc`. -/
def decimalFrom? (acc : Nat) : List Char → Option Nat
  | [] => some acc
  | c :: rest =>
    match digitValue? c with
    | some d => decimalFrom? (10 * acc + d) rest
    | none => none

/-- The value of a decimal numeral: one digit or more and nothing else. -/
def decimal? : List Char → Option Nat
  | [] => none
  | c :: rest => decimalFrom? 0 (c :: rest)

/-- The value of a decimal numeral, with a plus sign before it or not, that fits in 64 bits. -/
def word? (text : List Char) : Option Nat :=
  let digits := match text with
    | '+' :: rest => rest
    | _ => text
  (decimal? digits).filter (· ≤ maxWord)

/-- The decimal numeral of a number. -/
def decimal (n : Nat) : List Char := Nat.toDigits 10 n

end MarkdownPreview.Text
