import MarkdownPreview.Text.Numeral

/-! Reading JSON. A reader takes a value of one type from the head of a text and leaves what follows
it. What is not asked for is passed over, and only its grammar is checked. -/

namespace MarkdownPreview.Json

/-- Reads a value at the head of a text, with what follows it. There is no value if the text is not
JSON or the value is of another type. -/
abbrev Reader (α : Type) := List Char → Option (α × List Char)

/-! ### White space -/

def isSpace (c : Char) : Bool := c == ' ' || c == '\t' || c == '\n' || c == '\r'

def skipSpace (text : List Char) : List Char := text.dropWhile isSpace

/-- Moves over a text that must be there. -/
def afterText? : List Char → List Char → Option (List Char)
  | [], text => some text
  | c :: cs, d :: text => if c = d then afterText? cs text else none
  | _ :: _, [] => none

/-! ### Strings -/

def hexValue? (c : Char) : Option Nat :=
  if '0' ≤ c ∧ c ≤ '9' then some (c.toNat - '0'.toNat)
  else if 'a' ≤ c ∧ c ≤ 'f' then some (c.toNat - 'a'.toNat + 10)
  else if 'A' ≤ c ∧ c ≤ 'F' then some (c.toNat - 'A'.toNat + 10)
  else none

/-- The value of four hexadecimal digits. -/
def hexUnit? (a b c d : Char) : Option Nat := do
  some (4096 * (← hexValue? a) + 256 * (← hexValue? b) + 16 * (← hexValue? c) + (← hexValue? d))

/-- The character that a letter after a backslash stands for. -/
def unescape? (c : Char) : Option Char :=
  if c = '"' ∨ c = '\\' ∨ c = '/' then some c
  else if c = 'b' then some '\x08'
  else if c = 'f' then some '\x0c'
  else if c = 'n' then some '\n'
  else if c = 'r' then some '\r'
  else if c = 't' then some '\t'
  else none

/-- The first half of a surrogate pair. -/
def isHighSurrogate (n : Nat) : Bool := 0xd800 ≤ n && n < 0xdc00

/-- The second half of a surrogate pair. -/
def isLowSurrogate (n : Nat) : Bool := 0xdc00 ≤ n && n < 0xe000

/-- The character of a surrogate pair. -/
def pairedChar (high low : Nat) : Char :=
  Char.ofNat (0x10000 + 0x400 * (high - 0xd800) + (low - 0xdc00))

/-- A character before the text of a string. -/
def prepend (c : Char) (r : Option (List Char × List Char)) : Option (List Char × List Char) :=
  r.map fun (text, rest) => (c :: text, rest)

/-- Reads a string on after its opening quote. Half of a surrogate pair is no character. -/
def stringBody? : Reader (List Char)
  | [] => none
  | '"' :: rest => some ([], rest)
  | '\\' :: 'u' :: a :: b :: c :: d :: rest =>
    match hexUnit? a b c d with
    | none => none
    | some n =>
      if isLowSurrogate n then none
      else if isHighSurrogate n then
        match rest with
        | '\\' :: 'u' :: a :: b :: c :: d :: rest =>
          match hexUnit? a b c d with
          | none => none
          | some m => if isLowSurrogate m then prepend (pairedChar n m) (stringBody? rest) else none
        | _ => none
      else prepend (Char.ofNat n) (stringBody? rest)
  | '\\' :: c :: rest =>
    match unescape? c with
    | some d => prepend d (stringBody? rest)
    | none => none
  | c :: rest => if c = '\\' ∨ c.toNat < 0x20 then none else prepend c (stringBody? rest)

def string? : Reader (List Char)
  | '"' :: rest => stringBody? rest
  | _ => none

/-- Moves over a string after its opening quote. Surrogates need not be paired here. -/
def skipStringBody? : List Char → Option (List Char)
  | [] => none
  | '"' :: rest => some rest
  | '\\' :: 'u' :: a :: b :: c :: d :: rest =>
    if (hexUnit? a b c d).isSome then skipStringBody? rest else none
  | '\\' :: c :: rest => if (unescape? c).isSome then skipStringBody? rest else none
  | c :: rest => if c = '\\' ∨ c.toNat < 0x20 then none else skipStringBody? rest

/-! ### Plain values -/

def null? : Reader Unit := fun text => (afterText? "null".toList text).map ((), ·)

def bool? : Reader Bool := fun text =>
  match afterText? "true".toList text with
  | some rest => some (true, rest)
  | none => (afterText? "false".toList text).map (false, ·)

def isDigit (c : Char) : Bool := '0' ≤ c && c ≤ '9'

/-- Moves over the digits of a whole number, which has no zero before other digits. -/
def skipWhole? (text : List Char) : Option (List Char) :=
  match text with
  | '0' :: c :: rest => if isDigit c then none else some (c :: rest)
  | c :: _ => if isDigit c then some (text.dropWhile isDigit) else none
  | [] => none

/-- Moves over one digit or more. -/
def skipDigits? : List Char → Option (List Char)
  | c :: rest => if isDigit c then some (rest.dropWhile isDigit) else none
  | [] => none

/-- Moves over the fraction of a number, if there is one. -/
def skipFraction? : List Char → Option (List Char)
  | '.' :: rest => skipDigits? rest
  | text => some text

/-- Moves over the exponent of a number, if there is one. -/
def skipExponent? (text : List Char) : Option (List Char) :=
  match text with
  | c :: rest =>
    if c = 'e' ∨ c = 'E' then
      match rest with
      | '+' :: rest | '-' :: rest => skipDigits? rest
      | _ => skipDigits? rest
    else some text
  | [] => some []

def skipNumber? (text : List Char) : Option (List Char) := do
  let text := match text with
    | '-' :: rest => rest
    | _ => text
  skipExponent? (← skipFraction? (← skipWhole? text))

/-- A whole number that fits in 64 bits, written without a sign, a fraction or an exponent. -/
def word? : Reader Nat := fun text => do
  let rest ← skipWhole? text
  match rest with
  | c :: _ => if c = '.' ∨ c = 'e' ∨ c = 'E' then none else pure ()
  | [] => pure ()
  let n ← Text.decimal? (text.takeWhile isDigit)
  if n ≤ Text.maxWord then some (n, rest) else none

/-! ### Values of any type -/

mutual

/-- Moves over a value. -/
def skipValue? : Nat → List Char → Option (List Char)
  | 0, _ => none
  | fuel + 1, text =>
    match text with
    | [] => none
    | '"' :: rest => skipStringBody? rest
    | '[' :: rest =>
      match skipSpace rest with
      | ']' :: rest => some rest
      | rest => skipItems? fuel rest
    | '{' :: rest =>
      match skipSpace rest with
      | '}' :: rest => some rest
      | rest => skipMembers? fuel rest
    | 'n' :: _ => afterText? "null".toList text
    | 't' :: _ => afterText? "true".toList text
    | 'f' :: _ => afterText? "false".toList text
    | _ => skipNumber? text

/-- Moves over the items of an array up to its end. -/
def skipItems? : Nat → List Char → Option (List Char)
  | 0, _ => none
  | fuel + 1, text => do
    match skipSpace (← skipValue? fuel text) with
    | ']' :: rest => some rest
    | ',' :: rest => skipItems? fuel (skipSpace rest)
    | _ => none

/-- Moves over the members of an object up to its end. -/
def skipMembers? : Nat → List Char → Option (List Char)
  | 0, _ => none
  | fuel + 1, text => do
    let value ← match text with
      | '"' :: rest => do
        match skipSpace (← skipStringBody? rest) with
        | ':' :: rest => some (skipSpace rest)
        | _ => none
      | _ => none
    match skipSpace (← skipValue? fuel value) with
    | '}' :: rest => some rest
    | ',' :: rest => skipMembers? fuel (skipSpace rest)
    | _ => none

end

/-- Passes over a value of any type. -/
def ignored? : Reader Unit := fun text => (skipValue? (2 * text.length + 1) text).map ((), ·)

/-- A value that may be null. -/
def optional? {α : Type} (value? : Reader α) : Reader (Option α) := fun text =>
  match null? text with
  | some (_, rest) => some (none, rest)
  | none => (value? text).map fun (a, rest) => (some a, rest)

/-! ### Arrays and objects -/

/-- Reads the items of an array up to its end, each given what the items before it came to. -/
def items? {σ : Type} (item? : σ → Reader σ) : Nat → σ → Reader σ
  | 0, _, _ => none
  | fuel + 1, s, text => do
    let (s, text) ← item? s text
    match skipSpace text with
    | ']' :: rest => some (s, rest)
    | ',' :: rest => items? item? fuel s (skipSpace rest)
    | _ => none

def array? {σ : Type} (item? : σ → Reader σ) (s : σ) : Reader σ
  | '[' :: rest =>
    match skipSpace rest with
    | ']' :: rest => some (s, rest)
    | rest => items? item? (rest.length + 1) s rest
  | _ => none

/-- Reads a key and moves to its value. -/
def key? : Reader (List Char) := fun text => do
  let (key, text) ← string? text
  match skipSpace text with
  | ':' :: rest => some (key, skipSpace rest)
  | _ => none

/-- Reads the members of an object up to its end, each given what the members before it came to. -/
def members? {σ : Type} (member? : List Char → σ → Reader σ) : Nat → σ → Reader σ
  | 0, _, _ => none
  | fuel + 1, s, text => do
    let (key, text) ← key? text
    let (s, text) ← member? key s text
    match skipSpace text with
    | '}' :: rest => some (s, rest)
    | ',' :: rest => members? member? fuel s (skipSpace rest)
    | _ => none

def object? {σ : Type} (member? : List Char → σ → Reader σ) (s : σ) : Reader σ
  | '{' :: rest =>
    match skipSpace rest with
    | '}' :: rest => some (s, rest)
    | rest => members? member? (rest.length + 1) s rest
  | _ => none

/-- Reads a text that is one value, with nothing but white space around it. -/
def document? {α : Type} (value? : Reader α) (text : List Char) : Option α :=
  match value? (skipSpace text) with
  | some (a, rest) => if skipSpace rest = [] then some a else none
  | none => none

/-! ### Fields -/

/-- Reads a field, which may be given only once: `value` is what an earlier member gave it. -/
def field? {α σ : Type} (value? : Reader α) (value : Option α) (set : α → σ) : Reader σ :=
  fun text =>
    if value.isSome then none else (value? text).map fun (a, rest) => (set a, rest)

/-- Passes over a member that is no field. -/
def unknownField? {σ : Type} (s : σ) : Reader σ := fun text =>
  (ignored? text).map fun (_, rest) => (s, rest)

end MarkdownPreview.Json
