import MarkdownPreview.Markdown.Container
import MarkdownPreview.Text.CaseFold
import MarkdownPreview.Text.Punctuation

/-! The parts of links: labels, destinations, titles and autolinks. A function that reads a part
gives its length, or the position after it. -/

namespace MarkdownPreview.Markdown

open Text (isAsciiPunctuation)

/-! ### Labels -/

/-- The length that a label may not reach. -/
def labelLimit : Nat := 1000

/-- White space inside a label: its length, its line endings, and whether it is a single space. -/
structure LabelGap where
  length : Nat
  lineEnds : Nat
  single : Bool

/-- Reads white space inside a label. It may hold one line ending, and after that `afterLine` says
how long the start of the next line is, or that the label cannot go on there. -/
def labelGap? (afterLine : List Char → Option Nat) : Nat → Nat → Nat → List Char → Option LabelGap
  | 0, _, _, _ => none
  | fuel + 1, n, lineEnds, text =>
    match text with
    | c :: rest =>
      if c = '\n' ∨ c = '\r' then
        if lineEnds = 0 then
          let len := (lineEnd? text).getD 1
          match afterLine (text.drop len) with
          | none => none
          | some m => labelGap? afterLine fuel (n + len + m) 1 (text.drop (len + m))
        else none
      else if isInlineWhite c then
        (labelGap? afterLine fuel (n + 1) lineEnds rest).map fun g =>
          { g with single := n == 0 && c == ' ' && g.length == 1 }
      else some ⟨n, lineEnds, false⟩
    | [] => some ⟨n, lineEnds, false⟩

/-- How much a character adds to the length of a label: nothing in ASCII, and its bytes beyond. -/
def labelWeight (c : Char) : Nat := if c.toNat < 0x80 then 0 else c.utf8Size

/-- Reads a label on after `n` characters of it. `weight` is its length so far, `label` its text in
reverse with runs of white space made one space, and `seen` whether it has anything else. In a table
an escaped pipe is a pipe. -/
def labelFrom? (inTable : Bool) (afterLine : List Char → Option Nat) :
    Nat → Nat → Nat → List Char → Bool → List Char → Option (Nat × List Char)
  | 0, _, _, _, _, _ => none
  | fuel + 1, n, weight, label, seen, text =>
    if labelLimit ≤ weight then none
    else
      match text with
      | [] => none
      | c :: rest =>
        if c = '[' then none
        else if c = ']' then if seen then some (n + 1, label.reverse) else none
        else if c = '\\' then
          match rest with
          | [] => none
          | d :: rest =>
            let label := if inTable ∧ d = '|' then d :: label else d :: c :: label
            labelFrom? inTable afterLine fuel (n + 2) (weight + 2 + (labelWeight d - 1)) label true
              rest
        else if isWhite c then
          match labelGap? afterLine (text.length + 1) 0 0 text with
          | none => none
          | some g =>
            labelFrom? inTable afterLine fuel (n + g.length)
              (weight + if g.single then 1 else g.length) (' ' :: label) seen (text.drop g.length)
        else
          labelFrom? inTable afterLine fuel (n + 1) (weight + labelWeight c) (c :: label) true rest

/-- Reads a label after its opening bracket: its length with the closing bracket, and its text. -/
def label? (inTable : Bool) (afterLine : List Char → Option Nat) (text : List Char) :
    Option (Nat × List Char) :=
  labelFrom? inTable afterLine (text.length + 1) 0 0 [] false text

/-- Labels match when they agree in their key: white space around them and differences of case do
not count. -/
def labelKey (label : List Char) : List Char :=
  let core := (label.dropWhile isWhite).reverse.dropWhile isWhite
  Text.foldCase core.reverse

/-! ### Destinations -/

/-- Reads a destination in angle brackets on after `n` characters of it. -/
def angledDestination? (n : Nat) : List Char → Option Nat
  | [] => none
  | '\\' :: c :: rest =>
    if isAsciiPunctuation c then angledDestination? (n + 2) rest
    else angledDestination? (n + 1) (c :: rest)
  | c :: rest =>
    if c = '\n' ∨ c = '\r' ∨ c = '<' then none
    else if c = '>' then some (n + 1)
    else angledDestination? (n + 1) rest

/-- Reads a destination without brackets on after `n` characters of it, inside `depth` parentheses,
of which `limit` and one more may be open. -/
def bareDestination? (limit depth n : Nat) : List Char → Option Nat
  | [] => if depth = 0 then some n else none
  | '\\' :: c :: rest =>
    if isAsciiPunctuation c then bareDestination? limit depth (n + 2) rest
    else bareDestination? limit depth (n + 1) (c :: rest)
  | c :: rest =>
    if c.toNat ≤ 0x20 then if depth = 0 then some n else none
    else if c = '(' then
      if limit < depth then none else bareDestination? limit (depth + 1) (n + 1) rest
    else if c = ')' then
      match depth with
      | 0 => some n
      | depth + 1 => bareDestination? limit depth (n + 1) rest
    else bareDestination? limit depth (n + 1) rest

/-- The length of the destination at the head of a text. -/
def destination? (limit : Nat) (text : List Char) : Option Nat :=
  match text with
  | '<' :: rest => angledDestination? 1 rest
  | _ => bareDestination? limit 0 0 text

/-- The parentheses that may nest in the destination of an inline link. -/
def inlineParentheses : Nat := 5

/-- The parentheses that may nest in the destination of a definition. -/
def definitionParentheses : Nat := 1

/-! ### Autolinks -/

/-- The length of an address after `<` that starts with a scheme of 2 to 32 characters, with its
closing `>`. -/
def uriAutolink? (text : List Char) : Option Nat :=
  match text with
  | [] => none
  | c :: _ =>
    let scheme := text.takeWhile fun c => isAsciiAlphanumeric c || c == '.' || c == '-' || c == '+'
    if !isAsciiLetter c ∨ scheme.length < 2 ∨ 32 < scheme.length then none
    else
      match text.drop scheme.length with
      | ':' :: rest =>
        let body := rest.takeWhile fun c => c != '>' && c != '<' && 0x20 < c.toNat
        match rest.drop body.length with
        | '>' :: _ => some (scheme.length + body.length + 2)
        | _ => none
      | _ => none

/-- The character may stand before the `@` of a mail address. -/
def isMailboxChar (c : Char) : Bool :=
  isAsciiAlphanumeric c || ".!#$%&'*+/=?^_`\x7b|\x7d~-".toList.contains c

/-- Reads the domain of a mail address on after `n` characters of the address, label by label. -/
def mailDomain? : Nat → Nat → List Char → Option Nat
  | 0, _, _ => none
  | fuel + 1, n, text =>
    let label := text.takeWhile fun c => isAsciiAlphanumeric c || c == '-'
    if label = [] ∨ 63 < label.length ∨ label.head? = some '-' ∨ label.getLast? = some '-' then none
    else
      match text.drop label.length with
      | '.' :: rest => mailDomain? fuel (n + label.length + 1) rest
      | '>' :: _ => some (n + label.length + 1)
      | _ => none

/-- The length of a mail address after `<`, with its closing `>`. -/
def mailAutolink? (text : List Char) : Option Nat :=
  let mailbox := text.takeWhile isMailboxChar
  match text.drop mailbox.length with
  | '@' :: rest =>
    if mailbox = [] then none else mailDomain? (rest.length + 1) (mailbox.length + 1) rest
  | _ => none

/-- The length of an autolink after its `<`. -/
def autolink? (text : List Char) : Option Nat :=
  match uriAutolink? text with
  | some n => some n
  | none => mailAutolink? text

end MarkdownPreview.Markdown
