import MarkdownPreview.Markdown.Html
import MarkdownPreview.Markdown.Link
import MarkdownPreview.Markdown.Marker
import MarkdownPreview.Markdown.Token

/-! The block structure of a document. Blocks without containers inside them are read whole, line by
line; containers stay open on a spine until a line does not continue them. Inline text is kept as
tokens, because what a reference means is known only at the end of the document. All positions
count characters. -/

namespace MarkdownPreview.Markdown

open Text (Span)

/-! ### Blocks -/

/-- Inline text that has been cut into tokens, and the block it belongs to. The paragraphs of a
tight list are no blocks of their own. -/
structure Leaf where
  tag : Option Tag
  span : Span
  tokens : List Token
  place : Place

inductive Block where
  | container (tag : Tag) (span : Span) (content : List Block)
  | leaf (leaf : Leaf)
  /-- A block whose events are known at once. -/
  | plain (events : List Event)
  deriving Inhabited

/-- A paragraph of a tight list's item. -/
def Block.asTight : Block → Block
  | .leaf l => .leaf (if l.tag = some .paragraph then { l with tag := none } else l)
  | b => b

/-- An item of a tight list. -/
def Block.asTightItem : Block → Block
  | .container tag span content => .container tag span (content.map Block.asTight)
  | b => b

/-! ### Interruptions -/

/-- The text starts with the label of a footnote definition: the label's length with its brackets
and the colon, and its text. -/
def footnoteLabel? (place : Place) (text : List Char) : Option (Nat × List Char) :=
  match text with
  | '[' :: '^' :: rest =>
    match label? place.inTable (fun _ => none) rest with
    | some (n, label) =>
      match rest.drop n with
      | ':' :: _ => some (n + 3, label)
      | _ => none
    | none => none
  | _ => none

/-- A line with the given start ends a paragraph or a table. `inside` says whether the line is
inside all of their containers. -/
def interruptsText (place : Place) (inside : Bool) (text : List Char) : Bool :=
  (lineEnd? text).isSome || (thematicBreak? text).isSome || (atxLevel? text).isSome ||
    (fence? text).isSome || text.head? == some '>' ||
    interruptingItem (!inside || place.inTable) text || (interruptingHtml? text).isSome ||
    (place.dialect.gfm && (footnoteLabel? place text).isSome)

/-- The delimiter row that follows a table's header line of a given number of cells: where the rest
of the text begins after it, and the number of columns. -/
def tableAfter? (place : Place) (cells : Nat) (next : Cursor) : Option (Nat × Cursor) :=
  let (inside, c) := place.continues next
  if !inside then none
  else
    match delimiterRow? c.rest with
    | some (columns, n) =>
      if columns = cells then some (columns, .ofLine (c.pos + n) (c.rest.drop n)) else none
    | none => none

/-- The line and the one after it start a table, so they end a paragraph before them. -/
def startsTable (place : Place) (text : List Char) : Bool :=
  place.dialect.gfm && text.head? == some '|' &&
    let line := readLine ⟨true, false⟩ .text {} 0 text
    line.lineBreak.isSome &&
      (tableAfter? place (headerCells text line.pipes line.afterPipe)
        (.ofLine line.stop line.rest)).isSome

/-- A line with the given start ends a paragraph. -/
def interruptsParagraph (place : Place) (inside : Bool) (text : List Char) : Bool :=
  interruptsText place inside text || startsTable place text

/-! ### Tables -/

/-- The place behind the bar that begins a cell, if there is one. -/
def afterBar (pos : Nat) (text : List Char) : Nat × List Char :=
  match text with
  | '|' :: rest => (pos + 1, rest)
  | _ => (pos, text)

/-- Reads the cells of a row, with the place after it. -/
def readCells (place : Place) : Nat → Nat → List Char → List Leaf × Cursor
  | 0, pos, text => ([], .ofLine pos text)
  | fuel + 1, pos, text =>
    let (pos, text) := afterBar pos text
    let whites := (text.takeWhile isInlineWhite).length
    let body := text.drop whites
    match lineEnd? body with
    | some n => ([], .ofLine (pos + whites + n) (body.drop n))
    | none =>
      let line := readLine place.dialect .cell {} (pos + whites) body
      let cell : Leaf := ⟨some .tableCell, ⟨pos, line.stop⟩, line.tokens.reverse, place⟩
      let (cells, next) := readCells place fuel line.stop line.rest
      (cell :: cells, next)

/-- A row made of the first cells up to the number of columns. Cells that are missing are empty. -/
def tableRow (place : Place) (tag : Tag) (columns start : Nat) (cells : List Leaf) (stop : Nat) :
    Block :=
  let empty : Leaf := ⟨some .tableCell, ⟨stop, stop⟩, [], place⟩
  let cells := cells.take columns ++ List.replicate (columns - cells.length) empty
  .container tag ⟨start, stop⟩ (cells.map .leaf)

/-- Reads the rows of a table's body, with the place after it. -/
def readRows (place : Place) (columns : Nat) : Nat → Cursor → List Block × Cursor
  | 0, next => ([], next)
  | fuel + 1, next =>
    let (inside, c) := place.continues next
    let c := c.skipAll
    if !inside || interruptsText place inside c.rest then ([], next)
    else
      match readCells place (c.rest.length + 1) c.pos c.rest with
      | ([], _) => ([], next)
      | (cells, after) =>
        let (rows, last) := readRows place columns fuel after
        (tableRow place .tableRow columns c.pos cells after.pos :: rows, last)

/-- Reads a table whose header line starts at a place and whose body starts at another. -/
def readTable (place : Place) (columns : Nat) (header body : Cursor) : Block × Cursor :=
  let place := { place with inTable := true }
  let (cells, after) := readCells place (header.rest.length + 1) header.pos header.rest
  let head := tableRow place .tableHead columns header.pos cells after.pos
  let (rows, next) := readRows place columns (body.rest.length + 1) body
  (.container .table ⟨header.pos, next.pos⟩ (head :: rows), next)

/-! ### Paragraphs -/

/-- Reads the lines of a paragraph from `here` on, `tokens` being those of the lines before, the
last one first. A line of equals signs or hyphens after it makes it a heading. -/
def readParagraphFrom (place : Place) (start : Nat) :
    Nat → List Token → Braces → Cursor → Block × Cursor
  | 0, tokens, _, here =>
    (.leaf ⟨some .paragraph, ⟨start, here.pos⟩, tokens.reverse, place⟩, here)
  | fuel + 1, tokens, braces, here =>
    let line := readLine place.dialect .text braces here.pos here.rest
    let tokens := line.tokens ++ tokens
    let next := Cursor.ofLine line.stop line.rest
    let finished :=
      (.leaf ⟨some .paragraph, ⟨start, next.pos⟩, tokens.reverse, place⟩, next)
    let (inside, c) := place.continues next
    let (deep, c) := c.skip 4
    let heading := if !deep && inside then underline? c.rest else none
    match heading with
    | some (level, n) =>
      let stop := c.pos + n
      (.leaf ⟨some (.heading level), ⟨start, stop⟩, tokens.reverse, place⟩,
        .ofLine stop (c.rest.drop n))
    | none =>
      if !deep && interruptsParagraph place inside c.rest then finished
      else
        let c := c.skipAll
        if c.atLineEnd then finished
        else readParagraphFrom place start fuel (line.lineBreak.toList ++ tokens) line.braces c

/-- Reads the paragraph or table at a place, which a task's box may precede. -/
def readParagraph (place : Place) (task : Option Token) (here : Cursor) : Block × Cursor :=
  let line := readLine place.dialect .text {} here.pos here.rest
  let table :=
    if place.dialect.gfm && line.lineBreak.isSome && 0 < line.pipes then
      tableAfter? place (headerCells here.rest line.pipes line.afterPipe)
        (.ofLine line.stop line.rest)
    else none
  match table with
  | some (columns, body) => readTable place columns here body
  | none => readParagraphFrom place here.pos (here.rest.length + 1) task.toList {} here

/-! ### Headings -/

/-- Where the text of a heading line ends, by the number of its characters: before a closing run of
number signs that a space precedes. -/
def headingTextLength (text : List Char) : Nat :=
  let core := (text.reverse.dropWhile fun c => c == '\n' || c == '\r' || c == ' ').reverse
  let before := (core.reverse.dropWhile (· == '#')).reverse
  if before = [] then 0
  else
    let bare := (before.reverse.dropWhile (· == ' ')).reverse
    if bare.length < before.length then bare.length else core.length

/-- The tokens of a heading line, the last one first, with the end of the last one moved to the end
of the heading's text. -/
def endHeadingAt (stop : Nat) : List Token → List Token
  | [] => []
  | t :: ts => { t with span := ⟨t.span.start, stop⟩ } :: ts

/-- Reads a heading of a level that has been found at a place. -/
def readHeading (place : Place) (level : Nat) (here : Cursor) : Block × Cursor :=
  let c := here.advance level
  match lineEnd? c.rest with
  | some n =>
    let stop := c.pos + n
    (.leaf ⟨some (.heading level), ⟨here.pos, stop⟩, [], place⟩, .ofLine stop (c.rest.drop n))
  | none =>
    let c := c.advance (c.rest.takeWhile isInlineWhite).length
    let line := readLine place.dialect .text {} c.pos c.rest
    let tokens := match line.lineBreak with
      | some ⟨.hardBreak, span⟩ =>
        if (c.rest.drop (span.start - c.pos)).head? = some '\\' then ⟨.text, span⟩ :: line.tokens
        else line.tokens
      | _ => line.tokens
    let text := c.rest.take (line.stop - c.pos)
    let tokens := endHeadingAt (c.pos + headingTextLength text) tokens
    (.leaf ⟨some (.heading level), ⟨here.pos, line.stop⟩, tokens.reverse, place⟩,
      .ofLine line.stop line.rest)

/-! ### Code and HTML -/

/-- The text events of a line of code, which `spaces` columns of a tab precede. The carriage return
before a line feed is no text. -/
def codeText (spaces pos : Nat) (line : List Char) : List Event :=
  let stop := pos + line.length
  let indent : List Event := if spaces = 0 then [] else [⟨.text, ⟨pos, pos⟩⟩]
  let text (a b : Nat) : List Event := if a < b then [⟨.text, ⟨a, b⟩⟩] else []
  match line.reverse with
  | _ :: '\r' :: _ => indent ++ text pos (stop - 2) ++ text (stop - 1) stop
  | _ => indent ++ text pos stop

/-- Reads the lines of a fenced code block after the first, with the text events, the end of the
block, and the place after it. -/
def readFenceLines (place : Place) (indent : Nat) (f : Fence) :
    Nat → Cursor → List Event × Nat × Cursor
  | 0, here => ([], here.pos, here)
  | fuel + 1, here =>
    let (inside, c) := place.continues here
    if !inside then ([], here.pos, here)
    else
      let c := (c.skip indent).2
      let (deep, close) := c.skip (4 - indent)
      match if deep then none else closingFence? f close.rest with
      | some n =>
        let stop := close.pos + n
        let rest := close.rest.drop n
        let blank := (blankLine? rest).getD 0
        ([], stop, .ofLine (stop + blank) (rest.drop blank))
      | none =>
        let n := lineLength c.rest
        let (events, stop, next) :=
          readFenceLines place indent f fuel (.ofLine (c.pos + n) (c.rest.drop n))
        (codeText c.spaces c.pos (c.rest.take n) ++ events, stop, next)

/-- Reads a fenced code block whose fence has been found at a place, indented by some columns. -/
def readFence (place : Place) (indent : Nat) (f : Fence) (here : Cursor) : Block × Cursor :=
  let n := lineLength here.rest
  let lines := Cursor.ofLine (here.pos + n) (here.rest.drop n)
  let (events, stop, next) := readFenceLines place indent f (lines.rest.length + 2) lines
  (.plain (wrap .fencedCode ⟨here.pos, stop⟩ events), next)

/-- Reads the lines of an indented code block: the text events line by line, with the end of each
line and whether it is blank, and the place after the block. -/
def readCodeLines (place : Place) :
    Nat → Bool → Cursor → List (List Event × Nat × Bool) × Bool × Cursor
  | 0, blank, here => ([], blank, here)
  | fuel + 1, blank, here =>
    let n := lineLength here.rest
    let line := (codeText here.spaces here.pos (here.rest.take n), here.pos + n, blank)
    let next := Cursor.ofLine (here.pos + n) (here.rest.drop n)
    let (inside, c) := place.continues next
    let (deep, c) := c.skip 4
    if !inside || !(deep || c.atLineEnd) || c.rest = [] then ([line], blank, next)
    else
      let (lines, lastBlank, after) := readCodeLines place fuel (blankLine? c.rest).isSome c
      (line :: lines, lastBlank, after)

/-- Reads the indented code block that starts at a place. Blank lines at its end are none of its
own; the answer says whether there are any. -/
def readIndentedCode (place : Place) (here : Cursor) : Block × Bool × Cursor :=
  let (lines, blank, next) := readCodeLines place (here.rest.length + 1) false here
  let kept := (lines.reverse.dropWhile (·.2.2)).reverse
  let stop := (kept.getLast?.map (·.2.1)).getD here.pos
  (.plain (wrap .indentedCode ⟨here.pos, stop⟩ (kept.flatMap (·.1))), blank, next)

/-- Reads the lines of an HTML block, with their events, the end of the block, and the place after
it. -/
def readHtmlLines (place : Place) (blockEnd : HtmlBlockEnd) :
    Nat → Cursor → List Event × Nat × Cursor
  | 0, here => ([], here.pos, here)
  | fuel + 1, here =>
    let n := lineLength here.rest
    let next := Cursor.ofLine (here.pos + n) (here.rest.drop n)
    let event : Event := ⟨.html, ⟨here.pos, next.pos⟩⟩
    let (inside, c) := place.continues next
    let ends := match blockEnd with
      | .mark text => (afterFirst? text (here.rest.take n)).isSome
      | .blankLine => c.atLineEnd
    if !inside || ends then ([event], next.pos, next)
    else if c.rest = [] ∨ (blockEnd = .blankLine ∧ (blankLine? c.rest).isSome) then
      ([event], c.pos, next)
    else
      let (events, stop, after) := readHtmlLines place blockEnd fuel c
      (event :: events, stop, after)

/-- Reads an HTML block at a place. -/
def readHtml (place : Place) (blockEnd : HtmlBlockEnd) (here : Cursor) : Block × Cursor :=
  let (events, stop, next) := readHtmlLines place blockEnd (here.rest.length + 1) here
  (.plain (wrap .htmlBlock ⟨here.pos, stop⟩ events), next)

/-! ### Link definitions -/

/-- Moves over white space in a definition, with the number of line endings in it: one at most, and
after it the line must be inside all containers. -/
def definitionSpace? (place : Place) : Nat → Nat → Cursor → Option (Nat × Cursor)
  | 0, _, _ => none
  | fuel + 1, lineEnds, c =>
    let c := c.advance (c.rest.takeWhile isInlineWhite).length
    match lineEnd? c.rest with
    | none => some (lineEnds, c)
    | some n =>
      if 1 ≤ lineEnds then none
      else
        let (inside, c) := place.continues (.ofLine (c.pos + n) (c.rest.drop n))
        if inside then definitionSpace? place fuel (lineEnds + 1) c else none

/-- Moves over the rest of a title up to its closing delimiter. A title has no blank line. -/
def titleEnd? (place : Place) (closing : Char) : Nat → Cursor → Option Cursor
  | 0, _ => none
  | fuel + 1, c =>
    match c.rest with
    | [] => none
    | ch :: after =>
      if ch = closing then some (c.advance 1)
      else if ch = '(' ∧ closing = ')' then none
      else if ch = '\n' ∨ ch = '\r' then
        let n := (lineEnd? c.rest).getD 1
        let (inside, c) := place.continues (.ofLine (c.pos + n) (c.rest.drop n))
        if !inside || (blankLine? c.rest).isSome then none else titleEnd? place closing fuel c
      else if ch = '\\' ∧ after.head?.any (fun d => d != '\n' && d != '\r') then
        titleEnd? place closing fuel (c.advance 2)
      else titleEnd? place closing fuel (c.advance 1)

/-- Moves over a title. -/
def title? (place : Place) (c : Cursor) : Option Cursor :=
  match c.rest with
  | '"' :: _ => titleEnd? place '"' c.rest.length (c.advance 1)
  | '\'' :: _ => titleEnd? place '\'' c.rest.length (c.advance 1)
  | '(' :: _ => titleEnd? place ')' c.rest.length (c.advance 1)
  | _ => none

/-- Moves over a destination and a title after the colon of a definition. A title must end its line;
what looks like one and does not is no part of the definition if it starts a line of its own, and
otherwise there is no definition. -/
def definitionTarget? (place : Place) (c : Cursor) : Option Cursor := do
  let (_, c) ← definitionSpace? place 3 0 c
  let n ← destination? definitionParentheses c.rest
  if n = 0 then none
  else
    let bare := c.advance n
    match definitionSpace? place 3 0 bare with
    | none => some bare
    | some (lineEnds, c) =>
      if c.pos = bare.pos ∧ lineEnds = 0 then none
      else
        match (title? place c).filter fun c => (blankLine? c.rest).isSome with
        | some c => some c
        | none => if 0 < lineEnds then some bare else none

/-- How a label goes on after a line ending in a definition: not at a line that ends a paragraph. -/
def labelGoesOn (place : Place) (line : List Char) : Option Nat :=
  let (inside, c) := place.continues (.ofLine 0 line)
  let (deep, c) := c.skip 4
  if deep then some c.pos
  else if interruptsParagraph place inside c.rest ||
      (inside && (underline? c.rest).isSome) then none
  else some c.pos

/-- Reads the definition of a link at a place: its label and the place after it. -/
def definition? (place : Place) (here : Cursor) : Option (List Char × Cursor) :=
  match here.rest with
  | '[' :: text => do
    let (n, label) ← label? place.inTable (labelGoesOn place) text
    let c := here.advance (n + 1)
    let c ← c.char? ':'
    let next ← definitionTarget? place c
    some (label, next)
  | _ => none

/-! ### The spine -/

/-- What a frame of the spine holds open. -/
inductive FrameKind where
  | blockquote
  /-- A list of items with one delimiter. A list is loose once a blank line stands between two of
  its blocks. -/
  | list (delimiter : Char) (tight : Bool)
  /-- An item whose content is indented by some columns. -/
  | item (columns : Nat)
  | footnote
  deriving Repr, DecidableEq

/-- The indentation of what belongs to a footnote. -/
def footnoteColumns : Nat := 4

def FrameKind.container : FrameKind → Container
  | .blockquote => .blockquote
  | .list .. => .list
  | .item columns => .indented columns
  | .footnote => .indented footnoteColumns

def FrameKind.tag : FrameKind → Tag
  | .blockquote => .blockquote
  | .list .. => .list
  | .item _ => .item
  | .footnote => .footnoteDefinition

/-- An open container with its content so far, the last block first. -/
structure Frame where
  kind : FrameKind
  start : Nat
  content : List Block := []

/-- The labels that a document defines, by key. -/
structure Definitions where
  links : List (List Char) := []
  footnotes : List (List Char) := []
  deriving Repr

/-- The blocks read so far. -/
structure Outline where
  /-- The open containers, the innermost first. -/
  spine : List Frame := []
  /-- The closed blocks outside all containers, the last one first. -/
  blocks : List Block := []
  /-- The last line was blank. -/
  lastBlank : Bool := false
  /-- An item has begun with an empty line, which ended at this position. -/
  emptyItem : Option Nat := none
  definitions : Definitions := {}

namespace Outline

def containers (o : Outline) : List Container := o.spine.reverse.map (·.kind.container)

/-- Adds a block to the innermost container. -/
def add (o : Outline) (b : Block) : Outline :=
  match o.spine with
  | [] => { o with blocks := b :: o.blocks }
  | f :: fs => { o with spine := { f with content := b :: f.content } :: fs }

def enter (o : Outline) (kind : FrameKind) (start : Nat) : Outline :=
  { o with spine := ⟨kind, start, []⟩ :: o.spine }

/-- Closes the innermost container. -/
def leave (o : Outline) (stop : Nat) : Outline :=
  match o.spine with
  | [] => o
  | f :: fs =>
    let o := { o with spine := fs }
    let content := f.content.reverse
    match f.kind with
    | .list _ true =>
      { o.add (.container .list ⟨f.start, stop⟩ (content.map Block.asTightItem)) with
        emptyItem := none }
    | kind => o.add (.container kind.tag ⟨f.start, stop⟩ content)

/-- Closes containers until `n` are open. -/
def leaveTo (o : Outline) (stop : Nat) : Nat → Outline
  | 0 => o
  | n + 1 => (o.leave stop).leaveTo stop n

/-- Ends an item that has nothing but blank lines. -/
def endEmptyItem (o : Outline) : Outline :=
  let o' := match o.emptyItem, o.spine with
    | some stop, ⟨.item _, _, _⟩ :: _ => if o.lastBlank then o.leave stop else o
    | _, _ => o
  { o' with emptyItem := none }

/-- The list, if it is one, has a blank line between its blocks. -/
def Frame.loosen (f : Frame) : Frame :=
  match f.kind with
  | .list delimiter _ => { f with kind := .list delimiter false }
  | _ => f

/-- Ends the list that the next block does not belong to, and notes whether a blank line before the
block makes the list around it loose. -/
def endList (o : Outline) (stop : Nat) : Outline :=
  let o := o.endEmptyItem
  let o := match o.spine with
    | ⟨.list .., _, _⟩ :: _ => o.leave stop
    | _ => o
  if o.lastBlank then
    match o.spine with
    | f :: g :: rest => { o with spine := f :: Frame.loosen g :: rest, lastBlank := false }
    | _ => { o with lastBlank := false }
  else o

/-- Goes on with a list whose items have the delimiter, or starts one. -/
def enterList (o : Outline) (start : Nat) (delimiter : Char) : Outline :=
  let o := o.endEmptyItem
  let fresh (o : Outline) : Outline :=
    { (o.endList start).enter (.list delimiter true) start with lastBlank := false }
  match o.spine with
  | f :: rest =>
    match f.kind with
    | .list d _ =>
      if d = delimiter then
        if o.lastBlank then { o with spine := Frame.loosen f :: rest, lastBlank := false } else o
      else fresh o
    | _ => fresh o
  | [] => fresh o

/-- Takes note of a blank line. An item that it leaves without content keeps no indentation. -/
def blankLine (o : Outline) : Outline :=
  match o.spine with
  | [] => { o with lastBlank := true }
  | f :: rest =>
    match f.kind with
    | .blockquote => o
    | .item _ =>
      if o.emptyItem.isSome then
        { o with spine := { f with kind := .item 0 } :: rest, lastBlank := true }
      else { o with lastBlank := true }
    | _ => { o with lastBlank := true }

def define (o : Outline) (label : List Char) : Outline :=
  { o with definitions.links := labelKey label :: o.definitions.links }

/-- Enters the definition of a footnote, which ends one that is open. -/
def enterFootnote (o : Outline) (label : List Char) (start : Nat) : Outline :=
  let o := o.endList start
  let o := match o.spine with
    | ⟨.footnote, _, _⟩ :: _ => o.leave start
    | _ => o
  { o.enter .footnote start with
    definitions.footnotes := labelKey label :: o.definitions.footnotes }

end Outline

/-! ### Blocks in their containers -/

/-- What the start of a line leaves to be read. -/
inductive LineStart where
  /-- A block at a place. Blocks before it end where the line starts. -/
  | block (lineStart : Nat) (here : Cursor)
  /-- Nothing. -/
  | done (next : Cursor)

def Outline.place (o : Outline) (d : Dialect) : Place := ⟨d, o.containers, false⟩

/-- Enters a list item, whose marker a place follows. -/
def enterItem (d : Dialect) (o : Outline) (start : Nat) (m : ItemMarker) (c : Cursor) :
    Outline × Option Cursor × Cursor :=
  let o := (o.enterList start m.delimiter).enter (.item m.columns) start
  match blankLine? c.rest with
  | some n =>
    ({ o with emptyItem := some (c.pos + n) }, some (.ofLine (c.pos + n) (c.rest.drop n)), c)
  | none =>
    match if d.gfm then c.taskBox? else none with
    | none => (o, none, c)
    | some (checked, box) =>
      match blankLine? box.rest with
      | some n =>
        let o := o.add (.plain [⟨.taskMarker checked, ⟨c.pos, box.pos⟩⟩])
        ({ o with emptyItem := some (box.pos + n) },
          some (.ofLine (box.pos + n) (box.rest.drop n)), box)
      | none =>
        let token : Token := ⟨.task checked, ⟨c.pos, box.pos⟩⟩
        let (block, next) := readParagraph (o.place d) (some token) box
        (o.add block, some next, box)

/-- Enters the containers that begin at the start of a line. -/
def enterContainers (d : Dialect) : Nat → Outline → Nat → Cursor → Outline × LineStart
  | 0, o, lineStart, c => (o, .block lineStart c)
  | fuel + 1, o, lineStart, c =>
    let (indent, inner) := c.skipUpTo 4
    if 4 ≤ indent then (o, .block lineStart c)
    else
      match if d.gfm then footnoteLabel? (o.place d) inner.rest else none with
      | some (n, label) =>
        let after := inner.rest.drop n
        let whites := (after.takeWhile isInlineWhite).length
        let pos := inner.pos + n + whites
        enterContainers d fuel (o.enterFootnote label inner.pos) pos
          (.ofLine pos (after.drop whites))
      | none =>
        match inner.itemMarker? indent with
        | some (m, after) =>
          match enterItem d o (inner.pos - indent) m after with
          | (o, some next, _) => (o, .done next)
          | (o, none, c) => enterContainers d fuel o lineStart c
        | none =>
          match inner.quoteMarker? with
          | some after =>
            let o := (o.endList lineStart).enter .blockquote inner.pos
            enterContainers d fuel o lineStart after
          | none => (o, .block lineStart c)

/-- Reads the block at a place. -/
def readBlock (d : Dialect) (o : Outline) (lineStart : Nat) (c : Cursor) : Outline × Cursor :=
  match blankLine? c.rest with
  | some n => (o.blankLine, .ofLine (c.pos + n) (c.rest.drop n))
  | none =>
    let o := o.endList lineStart
    let place := o.place d
    let (indent, here) := c.skipUpTo 4
    if indent = 4 then
      let (block, blank, next) := readIndentedCode place here
      ({ o.add block with lastBlank := blank }, next)
    else
      let read (r : Block × Cursor) : Outline × Cursor := (o.add r.1, r.2)
      match htmlBlock? here.rest with
      | some blockEnd => read (readHtml place blockEnd here)
      | none =>
        match thematicBreak? here.rest with
        | some n =>
          read (.plain [⟨.rule, ⟨here.pos, here.pos + n⟩⟩],
            .ofLine (here.pos + n) (here.rest.drop n))
        | none =>
          match atxLevel? here.rest with
          | some level => read (readHeading place level here)
          | none =>
            match fence? here.rest with
            | some f => read (readFence place indent f here)
            | none =>
              match definition? place here with
              | some (label, next) =>
                let blank := (blankLine? next.rest).getD 0
                (o.define label, .ofLine (next.pos + blank) (next.rest.drop blank))
              | none => read (readParagraph place none here)

/-- Reads a line and the rest of the block that starts in it. -/
def readLines (d : Dialect) (o : Outline) (here : Cursor) : Outline × Cursor :=
  let (n, c) := continueAll o.containers here
  let o := o.leaveTo here.pos (o.spine.length - n)
  match enterContainers d (c.rest.length + 1) o here.pos c with
  | (o, .done next) => (o, next)
  | (o, .block lineStart c) => readBlock d o lineStart c

/-- Reads the rest of a document. -/
def readOutlineFrom (d : Dialect) : Nat → Outline → Cursor → Outline
  | 0, o, here => o.leaveTo here.pos o.spine.length
  | fuel + 1, o, here =>
    if here.rest = [] then o.leaveTo here.pos o.spine.length
    else
      let (o, next) := readLines d o here
      readOutlineFrom d fuel o next

/-- The block structure of a document. -/
def readOutline (d : Dialect) (source : List Char) : Outline :=
  readOutlineFrom d (source.length + 1) {} (.ofLine 0 source)

end MarkdownPreview.Markdown
