import MarkdownPreview.Markdown.Block
import MarkdownPreview.Markdown.Emphasis

/-! Inline text. The tokens of a block are resolved from left to right: code spans, math, HTML and
autolinks as soon as they open, links when their bracket closes. What is left over is text, and
the delimiter runs go on to become emphasis. All positions count characters. -/

namespace MarkdownPreview.Markdown

open Text (Span isAsciiPunctuation)

/-- The text of a block while its tokens are resolved. -/
structure Passage where
  place : Place
  definitions : Definitions
  /-- The block's text, and where it starts. -/
  text : List Char
  start : Nat

namespace Passage

def ofLeaf (source : List Char) (definitions : Definitions) (l : Leaf) : Passage :=
  ⟨l.place, definitions, (source.drop l.span.start).take l.span.length, l.span.start⟩

/-- The text from a position to the end of the block. -/
def after (p : Passage) (pos : Nat) : List Char := p.text.drop (pos - p.start)

/-- How the start of a line inside the block is passed over. -/
def newLine (p : Passage) (line : List Char) : Nat := p.place.prefixLength line

end Passage

/-- The tokens that reach past a position. What the first of them has before it is cut off. -/
def tokensAfter (pos : Nat) (tokens : List Token) : List Token :=
  match tokens.dropWhile (·.span.stop ≤ pos) with
  | [] => []
  | t :: rest => { t with span := ⟨max t.span.start pos, t.span.stop⟩ } :: rest

/-! ### Code, math and HTML -/

/-- The end of the next run of exactly `n` backticks, with the tokens after it. -/
def closingBackticks? (n : Nat) : List Token → Option (Nat × List Token)
  | [] => none
  | t :: rest =>
    match t.kind with
    | .backticks m _ => if m = n then some (t.span.stop, rest) else closingBackticks? n rest
    | _ => closingBackticks? n rest

/-- The code span that a run of backticks opens. An escaped backtick is text and takes no part. -/
def codeSpan? (t : Token) (count : Nat) (escaped : Bool) (rest : List Token) :
    Option (List Event × List Token) :=
  if escaped then
    if count ≤ 1 then none
    else
      (closingBackticks? (count - 1) rest).map fun (stop, rest) =>
        let start := t.span.start
        ([⟨.text, ⟨start, start + 1⟩⟩, ⟨.code, ⟨start + 1, stop⟩⟩], rest)
  else
    (closingBackticks? count rest).map fun (stop, rest) => ([⟨.code, ⟨t.span.start, stop⟩⟩], rest)

/-- The dollar sign that closes math, as the end of the math, with the tokens after it. It is the
next one in the same braces or none; for display math it must be doubled. -/
def closingDollar? (display : Bool) (braces : Nat) : List Token → Option (Nat × List Token)
  | [] => none
  | t :: rest =>
    match t.kind with
    | .dollar _ canClose b =>
      if b ≠ braces then closingDollar? display braces rest
      else if display then
        match rest with
        | ⟨.dollar .., span⟩ :: rest => some (span.stop, rest)
        | _ => none
      else if canClose then some (t.span.stop, rest)
      else none
    | _ => closingDollar? display braces rest

/-- The math that a dollar sign opens: display math if another one follows. -/
def math? (t : Token) (braces : Nat) (rest : List Token) : Option (List Event × List Token) :=
  let (kind, closing) := match rest with
    | ⟨.dollar .., _⟩ :: after => (EventKind.displayMath, closingDollar? true braces after)
    | _ => (.inlineMath, closingDollar? false braces rest)
  closing.map fun (stop, rest) => ([⟨kind, ⟨t.span.start, stop⟩⟩], rest)

/-- The autolink or piece of HTML that a `<` opens. -/
def angled? (p : Passage) (t : Token) (rest : List Token) : Option (List Event × List Token) :=
  match rest with
  | [] => none
  | next :: _ =>
    let start := t.span.start
    let text := p.after next.span.start
    match autolink? text with
    | some n =>
      let stop := next.span.start + n
      some (wrap .link ⟨start, stop⟩ [⟨.text, ⟨start + 1, stop - 1⟩⟩], tokensAfter stop rest)
    | none =>
      (afterInlineHtml? p.place text).map fun after =>
        let stop := next.span.start + (text.length - after.length)
        ([⟨.inlineHtml, ⟨start, stop⟩⟩], tokensAfter stop rest)

/-! ### Links -/

/-- The length of the white space between the parts of a link, which one line ending may be in. -/
def separatorLength (p : Passage) (text : List Char) : Nat :=
  let lead := (text.takeWhile isInlineWhite).length
  let next := text.drop lead
  let lineStart := match lineEnd? next with
    | some n => n + p.newLine (next.drop n)
    | none => 0
  lead + lineStart + ((next.drop lineStart).takeWhile isInlineWhite).length

/-- The end of a title, of which `text` from character `pos` on is left. At a line ending it goes on
where the next token starts. -/
def inlineTitleEnd? (p : Passage) (opening closing : Char) (tokens : List Token) :
    Nat → Nat → List Char → Option Nat
  | 0, _, _ => none
  | fuel + 1, pos, text =>
    let step (n : Nat) := inlineTitleEnd? p opening closing tokens fuel (pos + n) (text.drop n)
    match text with
    | [] => none
    | c :: rest =>
      let escape (c : Char) (rest : List Char) : Nat :=
        if c = '\\' ∧ rest.head?.any isAsciiPunctuation then 2 else 1
      if c = closing then some (pos + 1)
      else if c = opening then none
      else
        match if c = '\n' ∨ c = '\r' then tokens.find? (pos + 1 < ·.span.stop) else none with
        | some t => if pos < t.span.start then step (t.span.start - pos) else step 1
        | none =>
          match text with
          | '\\' :: '\\' :: '|' :: more =>
            step (if p.place.inTable then 2 + escape '\\' more else 2)
          | _ => step (escape c rest)

/-- The end of the title at the head of a text that starts at `pos`. -/
def inlineTitle? (p : Passage) (tokens : List Token) (pos : Nat) (text : List Char) : Option Nat :=
  match text with
  | c :: rest =>
    let closing := if c = '(' then ')' else c
    if c = '"' ∨ c = '\'' ∨ c = '(' then
      inlineTitleEnd? p c closing tokens (rest.length + 1) (pos + 1) rest
    else none
  | [] => none

/-- The end of a link's destination and title in parentheses after its closing bracket at `pos`. -/
def inlineTarget? (p : Passage) (tokens : List Token) (pos : Nat) : Option Nat :=
  match p.after pos with
  | '(' :: text => do
    let skip := separatorLength p text
    let n ← destination? inlineParentheses (text.drop skip)
    let skip := skip + n + separatorLength p (text.drop (skip + n))
    let pos := pos + 1 + skip
    let pos := match inlineTitle? p tokens pos (text.drop skip) with
      | some stop => stop + separatorLength p (p.after stop)
      | none => pos
    if (p.after pos).head? = some ')' then some (pos + 1) else none
  | _ => none

/-- What a label in brackets may refer to. -/
inductive Label where
  | link (text : List Char)
  | footnote (text : List Char)

namespace Passage

/-- The label in brackets at the head of a text, with its length. -/
def label? (p : Passage) (text : List Char) : Option (Nat × Label) :=
  match text with
  | '[' :: rest =>
    let footnote := match rest with
      | '^' :: rest =>
        if p.place.dialect.gfm then Markdown.label? p.place.inTable (fun _ => none) rest else none
      | _ => none
    match footnote with
    | some (n, label) => some (n + 2, .footnote label)
    | none =>
      (Markdown.label? p.place.inTable (some ∘ p.newLine) rest).map fun (n, label) =>
        (n + 1, .link label)
  | _ => none

/-- The label that the text over a span is, brackets included. -/
def labelOver? (p : Passage) (span : Span) : Option Label :=
  match p.label? ((p.after span.start).take span.length) with
  | some (n, label) => if n = span.length then some label else none
  | none => none

def definesLink (p : Passage) (label : List Char) : Bool :=
  p.definitions.links.contains (labelKey label)

def definesFootnote (p : Passage) (label : List Char) : Bool :=
  p.definitions.footnotes.contains (labelKey label)

end Passage

/-- What follows a closing bracket. -/
inductive AfterBracket where
  /-- A label, up to a position. -/
  | label (text : List Char) (stop : Nat)
  /-- Two brackets with nothing between them. -/
  | empty
  | nothing

def afterBracket (p : Passage) (tokens : List Token) : AfterBracket :=
  match tokens with
  | [] => .nothing
  | t :: _ =>
    match p.after t.span.start with
    | '[' :: ']' :: _ => .empty
    | text =>
      match p.label? text with
      | some (n, .link label) => .label label (t.span.start + n)
      | _ => .nothing

/-- The tokens with the one that ends a label at `stop` barred from being a reference of its own,
and those after it. -/
def endLabel? (stop : Nat) : List Token → Option (List Token × List Token)
  | [] => none
  | t :: rest =>
    if t.span.stop < stop then (endLabel? stop rest).map fun (tokens, after) => (t :: tokens, after)
    else some ({ t with kind := .close false } :: rest, rest)

/-! ### Brackets -/

/-- An opening bracket. It is no longer live once a link has been found after it, for links do not
nest. -/
structure Bracket where
  isImage : Bool
  live : Bool
  span : Span

/-- What has been made of the tokens so far, an open bracket included. -/
inductive Piece where
  | inline (i : Inline)
  | bracket (b : Bracket)

def textPiece (span : Span) : Piece := .inline (.done [⟨.text, span⟩])

namespace Piece

/-- An open bracket that will not be closed is text. -/
def asInline : Piece → Inline
  | inline i => i
  | bracket b => .done [⟨.text, b.span⟩]

/-- The bracket of a link is no longer live. That of an image stays as it is. -/
def disable : Piece → Piece
  | bracket b => bracket { b with live := b.live && b.isImage }
  | p => p

end Piece

/-- The innermost open bracket of pieces given last one first: the pieces inside it in order, and
the pieces before it. -/
def openBracket? (inside : List Inline) : List Piece → Option (List Inline × Bracket × List Piece)
  | [] => none
  | .inline i :: rest => openBracket? (i :: inside) rest
  | .bracket b :: rest => some (inside, b, rest)

/-- A bracket that is closed, with the pieces inside it and before it, and the closing token. -/
structure Closed where
  bracket : Bracket
  inside : List Inline
  before : List Piece
  close : Span

namespace Closed

/-- Both brackets as text. -/
def asText (c : Closed) : List Piece :=
  textPiece c.close :: c.inside.reverse.map .inline ++ textPiece c.bracket.span :: c.before

/-- The link or image that ends at `stop`. -/
def link (c : Closed) (stop : Nat) : List Piece :=
  let b := c.bracket
  let tag : Tag := if b.isImage then .image else .link
  .inline (.done (wrap tag ⟨b.span.start, stop⟩ (emphasise c.inside))) ::
    if b.isImage then c.before else c.before.map Piece.disable

/-- The reference to a footnote. Of an image's opener, the exclamation mark is text. No bracket
before it may be closed after it. -/
def footnote (c : Closed) : List Piece :=
  let start := c.bracket.span.start
  let before := c.before.map (.inline ·.asInline)
  let reference (start : Nat) : Piece :=
    .inline (.done [⟨.footnoteReference, ⟨start, c.close.stop⟩⟩])
  if c.bracket.isImage then reference (start + 1) :: textPiece ⟨start, start + 1⟩ :: before
  else reference start :: before

/-- The bracket's own text as a reference; after a link, `after` is what goes on. -/
def reference (c : Closed) (p : Passage) (rest after : List Token) : List Piece × List Token :=
  match p.labelOver? ⟨c.bracket.span.stop - 1, c.close.stop⟩ with
  | some (.link label) =>
    if p.definesLink label then (c.link c.close.stop, after) else (c.asText, rest)
  | some (.footnote label) =>
    if p.definesFootnote label then (c.footnote, rest) else (c.asText, rest)
  | none => (c.asText, rest)

/-- What the closed bracket is: an inline link, a reference, or text. -/
def resolve (c : Closed) (p : Passage) (mayRefer : Bool) (rest : List Token) :
    List Piece × List Token :=
  if !c.bracket.live then (c.asText, rest)
  else
    match inlineTarget? p rest c.close.stop with
    | some stop => (c.link stop, tokensAfter stop rest)
    | none =>
      match afterBracket p rest with
      | .label label stop =>
        match endLabel? stop rest with
        | none => (c.asText, rest)
        | some (barred, after) =>
          if p.definesLink label then (c.link stop, after) else (c.asText, barred)
      | .empty => if mayRefer then c.reference p rest (rest.drop 2) else (c.asText, rest)
      | .nothing => if mayRefer then c.reference p rest rest else (c.asText, rest)

end Closed

/-! ### Tokens in order -/

/-- A construct that opens at a token, or the token as text. -/
def orText (t : Token) (pieces : List Piece) (rest : List Token)
    (found : Option (List Event × List Token)) : List Piece × List Token :=
  match found with
  | some (events, rest) => (.inline (.done events) :: pieces, rest)
  | none => (textPiece t.span :: pieces, rest)

/-- Resolves a token, given the pieces before it, the last one first, and the tokens after it. -/
def resolveToken (p : Passage) (pieces : List Piece) (t : Token) (rest : List Token) :
    List Piece × List Token :=
  let event (kind : EventKind) : List Piece × List Token :=
    (.inline (.done [⟨kind, t.span⟩]) :: pieces, rest)
  match t.kind with
  | .text => event .text
  | .softBreak => event .softBreak
  | .hardBreak => event .hardBreak
  | .task checked => event (.taskMarker checked)
  | .delimiters char count canOpen canClose =>
    (.inline (.run ⟨char, count, count, canOpen, canClose, t.span⟩) :: pieces, rest)
  | .dollar canOpen _ braces => orText t pieces rest (if canOpen then math? t braces rest else none)
  | .backticks count escaped => orText t pieces rest (codeSpan? t count escaped rest)
  | .angle => orText t pieces rest (angled? p t rest)
  | .linkOpen => (.bracket ⟨false, true, t.span⟩ :: pieces, rest)
  | .imageOpen => (.bracket ⟨true, true, t.span⟩ :: pieces, rest)
  | .close mayRefer =>
    match openBracket? [] pieces with
    | none => (textPiece t.span :: pieces, rest)
    | some (inside, b, before) => Closed.resolve ⟨b, inside, before, t.span⟩ p mayRefer rest

/-- Resolves tokens one after another. -/
def resolveTokens (p : Passage) : Nat → List Piece → List Token → List Piece
  | 0, pieces, _ => pieces
  | _ + 1, pieces, [] => pieces
  | fuel + 1, pieces, t :: rest =>
    let (pieces, rest) := resolveToken p pieces t rest
    resolveTokens p fuel pieces rest

/-- The inline events of a block. -/
def inlineEvents (source : List Char) (definitions : Definitions) (l : Leaf) : List Event :=
  let pieces := resolveTokens (.ofLeaf source definitions l) l.tokens.length [] l.tokens
  emphasise (pieces.reverse.map Piece.asInline)

end MarkdownPreview.Markdown
