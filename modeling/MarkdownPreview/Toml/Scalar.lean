import MarkdownPreview.Toml.Text

/-! Numbers, dates and times of a TOML text. No setting has such a value, so they are only checked
and passed over. -/

namespace MarkdownPreview.Toml

/-! ### Digits -/

/-- Reads digits of a base, which single underscores may separate, on after a digit. -/
def moreDigits? (digit? : Char → Option Nat) : List Char → Option (List Nat × List Char)
  | [] => some ([], [])
  | '_' :: c :: rest =>
    match digit? c with
    | none => none
    | some d => (moreDigits? digit? rest).map fun (ds, rest) => (d :: ds, rest)
  | c :: rest =>
    match digit? c with
    | none => if c = '_' then none else some ([], c :: rest)
    | some d => (moreDigits? digit? rest).map fun (ds, rest) => (d :: ds, rest)

/-- Reads one digit or more of a base. -/
def digits? (digit? : Char → Option Nat) : List Char → Option (List Nat × List Char)
  | [] => none
  | c :: rest => do
    let d ← digit? c
    let (ds, rest) ← moreDigits? digit? rest
    some (d :: ds, rest)

/-- The value of digits of a base. -/
def value (base : Nat) (digits : List Nat) : Nat := digits.foldl (fun n d => base * n + d) 0

/-- The value of a digit, if it is one of the base. -/
def digitBelow? (base : Nat) (c : Char) : Option Nat := (Json.hexValue? c).filter (· < base)

def decimalDigit? : Char → Option Nat := digitBelow? 10

/-! ### Numbers -/

/-- Reads a sign, if there is one; the answer is whether it is a minus. -/
def sign : List Char → Bool × List Char
  | '-' :: rest => (true, rest)
  | '+' :: rest => (false, rest)
  | text => (false, text)

/-- Reads a whole number without a sign, which has no zero before other digits. -/
def whole? (text : List Char) : Option (List Nat × List Char) :=
  match text with
  | '0' :: rest => some ([0], rest)
  | _ => digits? decimalDigit? text

/-- The largest integer. -/
def maxInteger : Nat := Nat.pow 2 63 - 1

/-- Passes over an integer. It must fit in 64 bits, one of them for the sign. -/
def integer? (text : List Char) : Option (List Char) :=
  let based (base : Nat) (rest : List Char) : Option (List Char) := do
    let (ds, rest) ← digits? (digitBelow? base) rest
    if value base ds ≤ maxInteger then some rest else none
  match text with
  | '0' :: 'x' :: rest => based 16 rest
  | '0' :: 'o' :: rest => based 8 rest
  | '0' :: 'b' :: rest => based 2 rest
  | _ => do
    let (negative, text) := sign text
    let (ds, rest) ← whole? text
    if value 10 ds ≤ maxInteger + (if negative then 1 else 0) then some rest else none

/-- The least number that is rounded to infinity in 64-bit floating point. -/
def floatBound : Nat := Nat.pow 2 1024 - Nat.pow 2 970

/-- The number `m * 10 ^ e` is rounded to infinity. -/
def floatOverflows (m : Nat) (e : Int) : Bool :=
  let length : Int := (Nat.toDigits 10 m).length
  if m = 0 ∨ length + e ≤ 308 then false
  else if 310 ≤ length + e then true
  else if 0 ≤ e then floatBound ≤ m * Nat.pow 10 e.toNat
  else floatBound * Nat.pow 10 (-e).toNat ≤ m

/-- Reads an exponent. -/
def exponent? : List Char → Option (Int × List Char)
  | c :: rest =>
    if c = 'e' ∨ c = 'E' then do
      let (negative, rest) := sign rest
      let (ds, rest) ← digits? decimalDigit? rest
      let n : Int := value 10 ds
      some (if negative then -n else n, rest)
    else none
  | [] => none

/-- Passes over a number with a fraction or an exponent. It must not be too large, though a negative
one may be too small. -/
def decimal? (text : List Char) : Option (List Char) := do
  let (negative, text) := sign text
  let (ds, rest) ← whole? text
  let (fraction, rest) ← match rest with
    | '.' :: rest => digits? decimalDigit? rest
    | c :: _ => if c = 'e' ∨ c = 'E' then some ([], rest) else none
    | [] => none
  let (e, rest) ← match rest with
    | c :: _ => if c = 'e' ∨ c = 'E' then exponent? rest else some (0, rest)
    | [] => some (0, rest)
  if !negative && floatOverflows (value 10 (ds ++ fraction)) (e - fraction.length) then none
  else some rest

/-- Passes over an infinity or a number that is none. -/
def specialFloat? (text : List Char) : Option (List Char) :=
  let (_, text) := sign text
  match text with
  | 'i' :: 'n' :: 'f' :: rest => some rest
  | 'n' :: 'a' :: 'n' :: rest => some rest
  | _ => none

/-- The text goes on after a whole number as a number with a fraction or an exponent. -/
def isDecimal (text : List Char) : Bool :=
  match whole? (sign text).2 with
  | some (_, c :: _) => c == '.' || c == 'e' || c == 'E'
  | _ => false

def number? (text : List Char) : Option (List Char) :=
  if isDecimal text then decimal? text
  else
    match specialFloat? text with
    | some rest => some rest
    | none => integer? text

/-! ### Dates and times -/

/-- Reads a number of exactly `n` digits. -/
def fixed? : Nat → Nat → List Char → Option (Nat × List Char)
  | 0, acc, text => some (acc, text)
  | n + 1, acc, c :: rest => (decimalDigit? c).bind fun d => fixed? n (10 * acc + d) rest
  | _ + 1, _, [] => none

/-- Reads a number of two digits within bounds. -/
def twoDigits? (least most : Nat) (text : List Char) : Option (Nat × List Char) :=
  (fixed? 2 0 text).filter fun (n, _) => least ≤ n && n ≤ most

def after? (c : Char) : List Char → Option (List Char)
  | d :: rest => if c = d then some rest else none
  | [] => none

def isLeapYear (year : Nat) : Bool := year % 4 == 0 && (year % 100 != 0 || year % 400 == 0)

def daysInMonth (year month : Nat) : Nat :=
  if month = 2 then if isLeapYear year then 29 else 28
  else if month = 4 ∨ month = 6 ∨ month = 9 ∨ month = 11 then 30
  else 31

/-- Passes over a date. -/
def date? (text : List Char) : Option (List Char) := do
  let (year, rest) ← fixed? 4 0 text
  let (month, rest) ← twoDigits? 1 12 (← after? '-' rest)
  let (_, rest) ← twoDigits? 1 (daysInMonth year month) (← after? '-' rest)
  some rest

/-- The fraction of a second. -/
def skipFraction? (text : List Char) : Option (List Char) :=
  match text with
  | '.' :: c :: rest =>
    if (decimalDigit? c).isSome then some (rest.dropWhile fun c => (decimalDigit? c).isSome)
    else none
  | '.' :: [] => none
  | _ => some text

/-- Passes over the time after its hour and colon. A minute may have 61 seconds. -/
def timeAfterHour? (text : List Char) : Option (List Char) := do
  let (_, rest) ← twoDigits? 0 59 text
  let (_, rest) ← twoDigits? 0 60 (← after? ':' rest)
  skipFraction? rest

/-- What follows the hour and the colon of a time. -/
def hour? (text : List Char) : Option (List Char) := do
  let (_, rest) ← twoDigits? 0 23 text
  after? ':' rest

/-- Passes over the offset from universal time, if there is one. -/
def skipOffset? (text : List Char) : Option (List Char) :=
  match text with
  | c :: rest =>
    if c = 'Z' ∨ c = 'z' then some rest
    else if c = '+' ∨ c = '-' then do
      let rest ← hour? rest
      let (_, rest) ← twoDigits? 0 59 rest
      some rest
    else some text
  | [] => some []

/-- Passes over the time that follows a date, if one does. -/
def skipTime? (text : List Char) : Option (List Char) :=
  match text with
  | c :: rest =>
    if c = 'T' ∨ c = 't' ∨ c = ' ' then
      match hour? rest with
      | some rest => (timeAfterHour? rest).bind skipOffset?
      | none => some text
    else some text
  | [] => some []

/-- The text starts like a date: with four digits and a hyphen. -/
def startsDate (text : List Char) : Bool :=
  match fixed? 4 0 text with
  | some (_, '-' :: _) => true
  | _ => false

/-- A value that is only passed over. -/
inductive Scalar where
  | number
  | moment
  deriving Repr, DecidableEq

/-- Passes over a date, a time or a number. -/
def scalar? (text : List Char) : Option (Scalar × List Char) :=
  if startsDate text then ((date? text).bind skipTime?).map (.moment, ·)
  else
    match hour? text with
    | some rest => (timeAfterHour? rest).map (.moment, ·)
    | none => (number? text).map (.number, ·)

end MarkdownPreview.Toml
