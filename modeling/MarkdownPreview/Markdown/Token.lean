import MarkdownPreview.Markdown.Cursor
import MarkdownPreview.Markdown.Event
import MarkdownPreview.Text.Blank
import MarkdownPreview.Text.Punctuation

/-! The tokens of inline text: the places where a construct may begin or end, and the text between
them. Tokens are found line by line; what they amount to is decided when the block is complete. -/

namespace MarkdownPreview.Markdown

open Text (Span isBlank isPunctuation isAsciiPunctuation)

inductive TokenKind where
  | text
  | softBreak
  | hardBreak
  | task (checked : Bool)
  /-- A run of one emphasis delimiter, and whether it may open and close emphasis. -/
  | delimiters (char : Char) (count : Nat) (canOpen canClose : Bool)
  /-- A dollar sign, whether it may open math, whether it may close it, and the braces it is in. -/
  | dollar (canOpen canClose : Bool) (braces : Nat)
  /-- A run of backticks. The first of them may be escaped. -/
  | backticks (count : Nat) (escaped : Bool)
  /-- A `<` that may start an autolink or inline HTML. -/
  | angle
  | linkOpen
  | imageOpen
  /-- A closing bracket. One that has ended a label already is none for a reference of its own. -/
  | close (mayRefer : Bool)
  deriving Repr, DecidableEq, Inhabited

structure Token where
  kind : TokenKind
  span : Span
  deriving Repr, DecidableEq, Inhabited

/-! ### Emphasis delimiters -/

/-- A run of delimiters with what stands on its two sides: the characters of the line before it, the
nearest first, and the text after it. -/
structure Flanks where
  char : Char
  count : Nat
  before : List Char
  after : List Char
  inTable : Bool

namespace Flanks

/-- A run that may open or close inside a word. -/
def insideWords (f : Flanks) : Bool := f.char == '*' || (f.char == '~' && 1 < f.count)

/-- The run stands at the start of a table cell, after an unescaped pipe. -/
def startsCell (f : Flanks) : Bool :=
  f.inTable &&
    match f.before with
    | '|' :: '\\' :: _ => false
    | '|' :: _ => true
    | _ => false

/-- The run stands at the end of a table cell. -/
def endsCell (f : Flanks) : Bool := f.inTable && f.after.head? == some '|'

def canOpen (f : Flanks) : Bool :=
  match f.after with
  | [] => false
  | next :: _ =>
    if isBlank next then false
    else
      match f.before with
      | [] => true
      | prev :: _ =>
        if f.startsCell then true
        else if f.endsCell then false
        else if f.char == '*' && !isPunctuation next then true
        else if f.char == '~' && 1 < f.count then true
        else if f.char == '~' && prev == '~' && !isPunctuation next then true
        else isBlank prev || isPunctuation prev

def canClose (f : Flanks) : Bool :=
  match f.before with
  | [] => false
  | prev :: _ =>
    if isBlank prev then false
    else
      match f.after with
      | [] => true
      | next :: _ =>
        if f.startsCell then false
        else if f.endsCell then true
        else if f.insideWords && !isPunctuation prev then true
        else if f.char == '~' && prev == '~' then true
        else isBlank next || isPunctuation next

end Flanks

/-! ### Braces in math -/

/-- Which braces the text is in. A dollar sign closes math only in the braces in which it was
opened. Until the first dollar sign no braces are kept; beyond a number of levels they are only
counted. -/
structure Braces where
  /-- The open braces by number, the innermost first and that of the whole block last. -/
  stack : List Nat := []
  next : Nat := 0
  deriving Repr, DecidableEq

namespace Braces

/-- The levels up to which braces are told apart. -/
def depthLimit : Nat := 25

/-- Numbers of braces are eight-bit, the largest standing for the whole block. -/
def number (n : Nat) : Nat := n % 256

def whole : Nat := 255

/-- The braces around a dollar sign. -/
def atDollar (b : Braces) : Nat × Braces :=
  if depthLimit < b.stack.length then (number b.next, b)
  else
    match b.stack with
    | top :: _ => (top, b)
    | [] => (whole, { b with stack := [whole] })

def opened (b : Braces) : Braces :=
  if b.stack.length = depthLimit then ⟨number b.next :: b.stack, depthLimit⟩
  else if depthLimit < b.stack.length then { b with next := b.next + 1 }
  else if b.stack = [] then b
  else ⟨number b.next :: b.stack, b.next + 1⟩

/-- A closing brace without an opening one starts the block anew. -/
def closed (b : Braces) : Braces :=
  match b.stack with
  | [] => b
  | [_] => ⟨[number b.next], b.next + 1⟩
  | _ :: rest =>
    if depthLimit < b.stack.length ∧ depthLimit < b.next then { b with next := b.next - 1 }
    else { b with stack := rest }

end Braces

/-! ### Lines -/

/-- How a line is read: as text, or as a cell of a table, which a pipe ends too. -/
inductive LineMode where
  | text
  | cell
  deriving Repr, DecidableEq

/-- A line while it is read. -/
structure LineState where
  /-- The tokens found, the last one first. -/
  tokens : List Token := []
  /-- Where the text since the last token starts. -/
  textStart : Nat
  braces : Braces
  /-- The number of unescaped pipes, and what follows the last of them. -/
  pipes : Nat := 0
  afterPipe : List Char := []

namespace LineState

/-- Ends the text since the last token. -/
def endText (s : LineState) (stop : Nat) : LineState :=
  if s.textStart < stop then
    { s with tokens := ⟨.text, ⟨s.textStart, stop⟩⟩ :: s.tokens, textStart := stop }
  else s

/-- Ends the text at a token, after which text starts again. -/
def push (s : LineState) (kind : TokenKind) (span : Span) : LineState :=
  let s := s.endText span.start
  { s with tokens := ⟨kind, span⟩ :: s.tokens, textStart := span.stop }

end LineState

/-- A line that has been read. -/
structure Line where
  /-- The tokens, the last one first. -/
  tokens : List Token
  /-- The line break, if the line ends with one. -/
  lineBreak : Option Token
  /-- Where reading stopped: at the start of the next line, at the end of the text, or at the pipe
  or line ending that ends a cell. -/
  stop : Nat
  rest : List Char
  braces : Braces
  pipes : Nat
  afterPipe : List Char

/-- Ends a line at a line ending of `width` characters, before which `before` stands in reverse. An
odd number of backslashes, or two or more spaces, make the break a hard one. -/
def endLine (s : LineState) (pos width : Nat) (before rest : List Char) : Line :=
  let backslashes := countRun '\\' before
  let whites := (before.takeWhile isInlineWhite).length
  let stop := pos + width
  let (kind, start) :=
    if backslashes % 2 = 1 ∧ rest ≠ [] then (.hardBreak, pos - 1)
    else if 2 ≤ whites then (.hardBreak, pos - whites)
    else (.softBreak, pos - whites)
  ⟨(s.endText start).tokens, some ⟨kind, ⟨start, stop⟩⟩, stop, rest, s.braces, s.pipes, s.afterPipe⟩

/-- Ends a line without a line break. White space at its end is no text. -/
def endCell (s : LineState) (pos : Nat) (before rest : List Char) : Line :=
  let whites := ((before.take (pos - s.textStart)).takeWhile isInlineWhite).length
  ⟨(s.endText (pos - whites)).tokens, none, pos, rest, s.braces, s.pipes, s.afterPipe⟩

/-- What is made of one character of a line. -/
inductive LineStep where
  /-- The line goes on after `skip` more characters. -/
  | go (s : LineState) (skip : Nat)
  | done (line : Line)

/-- Reads an escape or a lone backslash. An escaped run of backticks is still a token, and a pipe
that is escaped in a cell, itself or by its backslash, does not end the cell. -/
def stepBackslash (mode : LineMode) (s : LineState) (pos : Nat) (rest : List Char) : LineStep :=
  match rest with
  | [] => .go s 0
  | c :: after =>
    if !isAsciiPunctuation c then .go s 0
    else
      let s := s.endText pos
      if c = '`' then
        let count := countRun '`' rest
        let span : Span := ⟨pos + 1, pos + 1 + count⟩
        .go ({ s with textStart := pos + 1 }.push (.backticks count true) span) count
      else if mode = .cell ∧ c = '\\' ∧ after.head? = some '|' then
        .go { s with textStart := pos + 1 } 2
      else .go { s with textStart := pos + 1 } 1

/-- Reads a run of emphasis delimiters. One that can neither open nor close is text, and so is a run
of more than two tildes. -/
def stepDelimiters (mode : LineMode) (s : LineState) (pos : Nat) (c : Char)
    (before rest : List Char) : LineStep :=
  let count := 1 + countRun c rest
  let f : Flanks := ⟨c, count, before, rest.drop (count - 1), mode == .cell⟩
  let canOpen := f.canOpen
  let canClose := f.canClose
  if (canOpen || canClose) && (c != '~' || count ≤ 2) then
    .go (s.push (.delimiters c count canOpen canClose) ⟨pos, pos + count⟩) (count - 1)
  else .go s (count - 1)

/-- Reads a dollar sign. -/
def stepDollar (s : LineState) (pos : Nat) (before rest : List Char) : LineStep :=
  let canOpen := match rest with
    | next :: _ => !isWhite next
    | [] => false
  let canClose := match before with
    | prev :: _ => !isWhite prev
    | [] => false
  let (number, braces) := s.braces.atDollar
  .go ({ s with braces }.push (.dollar canOpen canClose number) ⟨pos, pos + 1⟩) 0

/-- Reads one character, `before` being what the line holds before it, in reverse. -/
def stepLine (d : Dialect) (mode : LineMode) (s : LineState) (pos : Nat) (before : List Char)
    (c : Char) (rest : List Char) : LineStep :=
  if c = '\n' ∨ c = '\r' then
    match mode with
    | .cell => .done (endCell s pos before (c :: rest))
    | .text =>
      let width := (lineEnd? (c :: rest)).getD 1
      .done (endLine s pos width before (rest.drop (width - 1)))
  else if c = '\\' then stepBackslash mode s pos rest
  else if c = '*' ∨ c = '_' ∨ (c = '~' ∧ d.gfm) then stepDelimiters mode s pos c before rest
  else if c = '$' ∧ d.math then stepDollar s pos before rest
  else if c = '{' ∧ d.math then .go { s with braces := s.braces.opened } 0
  else if c = '}' ∧ d.math then .go { s with braces := s.braces.closed } 0
  else if c = '`' then
    let count := 1 + countRun '`' rest
    .go (s.push (.backticks count false) ⟨pos, pos + count⟩) (count - 1)
  else if c = '<' ∧ rest.head? ≠ some '\\' then .go (s.push .angle ⟨pos, pos + 1⟩) 0
  else if c = '!' ∧ rest.head? = some '[' then .go (s.push .imageOpen ⟨pos, pos + 2⟩) 1
  else if c = '[' then .go (s.push .linkOpen ⟨pos, pos + 1⟩) 0
  else if c = ']' then .go (s.push (.close true) ⟨pos, pos + 1⟩) 0
  else if c = '|' ∧ d.gfm ∧ before.head? ≠ some '\\' then
    match mode with
    | .cell => .done (endCell s pos before (c :: rest))
    | .text => .go { s with pipes := s.pipes + 1, afterPipe := rest } 0
  else .go s 0

/-- Reads a line on from character `pos`, passing over the first `skip` characters. -/
def readLineFrom (d : Dialect) (mode : LineMode) (s : LineState) (skip pos : Nat)
    (before : List Char) : List Char → Line
  | [] => endCell s pos before []
  | c :: rest =>
    match skip with
    | skip + 1 => readLineFrom d mode s skip (pos + 1) (c :: before) rest
    | 0 =>
      match stepLine d mode s pos before c rest with
      | .done line => line
      | .go s skip => readLineFrom d mode s skip (pos + 1) (c :: before) rest

/-- Reads a line of text, or a cell, that starts at character `pos`. -/
def readLine (d : Dialect) (mode : LineMode) (braces : Braces) (pos : Nat) (text : List Char) :
    Line :=
  readLineFrom d mode { textStart := pos, braces } 0 pos [] text

end MarkdownPreview.Markdown
