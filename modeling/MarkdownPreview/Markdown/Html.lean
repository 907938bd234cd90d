import MarkdownPreview.Markdown.Container

/-! HTML in Markdown: the starts of HTML blocks, and the tags, comments and instructions that may
stand in a line. Functions that read a piece of HTML give the text after it. -/

namespace MarkdownPreview.Markdown

/-- The text after a given head. -/
def afterPrefix? : List Char → List Char → Option (List Char)
  | [], text => some text
  | _ :: _, [] => none
  | p :: ps, c :: cs => if p = c then afterPrefix? ps cs else none

/-- The text after the first place where the given text stands in it. -/
def afterFirst? (mark : List Char) : List Char → Option (List Char)
  | [] => if mark = [] then some [] else none
  | c :: cs =>
    match afterPrefix? mark (c :: cs) with
    | some rest => some rest
    | none => afterFirst? mark cs

def lowerAscii (c : Char) : Char := if 'A' ≤ c ∧ c ≤ 'Z' then Char.ofNat (c.toNat + 32) else c

/-! ### Tags -/

/-- The text after a line ending and the container starts of the next line, where tags may run over
lines. -/
def afterNewline? (place : Option Place) (text : List Char) : Option (List Char) :=
  place.map fun p =>
    let rest := text.drop ((lineEnd? text).getD 0)
    rest.drop (p.prefixLength rest)

/-- Moves over white space. It fails at a line ending that the tag may not run over. -/
def overWhite? (place : Option Place) : Nat → List Char → Option (List Char)
  | 0, text => some text
  | fuel + 1, text =>
    let text := text.dropWhile isInlineWhite
    match text with
    | [] => some []
    | c :: _ =>
      if c = '\n' ∨ c = '\r' then (afterNewline? place text).bind (overWhite? place fuel)
      else some text

/-- Moves over a quoted value whose opening quote has been read. -/
def quotedValue? (place : Option Place) (quote : Char) : Nat → List Char → Option (List Char)
  | 0, _ => none
  | fuel + 1, text =>
    match text with
    | [] => none
    | c :: rest =>
      if c = quote then some rest
      else if c = '\n' ∨ c = '\r' then
        (afterNewline? place text).bind (quotedValue? place quote fuel)
      else quotedValue? place quote fuel rest

/-- The character may stand in a value without quotes. -/
def isUnquoted (c : Char) : Bool :=
  !(c == '\'' || c == '"' || c == ' ' || c == '=' || c == '>' || c == '<' || c == '`' ||
    c == '\n' || c == '\r')

/-- Moves over the value of an attribute. -/
def attributeValue? (place : Option Place) (text : List Char) : Option (List Char) :=
  match text with
  | [] => none
  | c :: rest =>
    if c = '"' ∨ c = '\'' then quotedValue? place c (rest.length + 1) rest
    else if isUnquoted c then some (rest.dropWhile isUnquoted)
    else none

def isAttributeStart (c : Char) : Bool := isAsciiLetter c || c == '_' || c == ':'

def isAttributeChar (c : Char) : Bool :=
  isAsciiAlphanumeric c || c == '.' || c == '-' || c == '_' || c == ':'

/-- Moves over an attribute with its value, if it has one. -/
def attribute? (place : Option Place) (text : List Char) : Option (List Char) :=
  match text with
  | [] => none
  | c :: rest =>
    if isAttributeStart c then
      let name := rest.dropWhile isAttributeChar
      match overWhite? place (name.length + 1) name with
      | none => none
      | some ('=' :: value) =>
        (overWhite? place (value.length + 1) value).bind (attributeValue? place)
      | some _ => some name
    else none

/-- Moves over the attributes of a tag, each after white space, up to its end. -/
def attributes? (place : Option Place) : Nat → List Char → Option (List Char)
  | 0, _ => none
  | fuel + 1, text =>
    match overWhite? place (text.length + 1) text with
    | none | some [] => none
    | some (c :: rest) =>
      if c = '/' ∨ c = '>' then some (c :: rest)
      else if (c :: rest).length = text.length then none
      else (attribute? place (c :: rest)).bind (attributes? place fuel)

def isTagNameChar (c : Char) : Bool := isAsciiAlphanumeric c || c == '-'

/-- Moves over the rest of an opening or closing tag, after its `<`. With a place, an opening tag
may run over lines. -/
def afterTag? (place : Option Place) (text : List Char) : Option (List Char) :=
  let (closing, body) := match text with
    | '/' :: rest => (true, rest)
    | _ => (false, text)
  match body with
  | [] => none
  | c :: _ =>
    if !isAsciiLetter c then none
    else
      let named := body.dropWhile isTagNameChar
      if closing then afterPrefix? ['>'] (named.dropWhile isInlineWhite)
      else
        (attributes? place (named.length + 1) named).bind fun rest =>
          match rest with
          | '/' :: '>' :: rest => some rest
          | '>' :: rest => some rest
          | _ => none

/-- Moves over a piece of inline HTML, after its `<`: a comment, a declaration, a CDATA section, an
instruction or a tag. -/
def afterInlineHtml? (place : Place) (text : List Char) : Option (List Char) :=
  match text with
  | '!' :: '-' :: '-' :: '>' :: rest => some rest
  | '!' :: '-' :: '-' :: '-' :: '>' :: rest => some rest
  | '!' :: '-' :: '-' :: rest => afterFirst? "-->".toList rest
  | '!' :: '[' :: rest =>
    (afterPrefix? "CDATA[".toList rest).bind fun rest =>
      let rest := rest.dropWhile (· != ']')
      if countRun ']' rest = 0 then none
      else afterPrefix? ['>'] (rest.dropWhile (· == ']'))
  | '!' :: c :: rest => if isAsciiLetter c then afterFirst? ['>'] rest else none
  | '?' :: rest => afterFirst? "?>".toList rest
  | _ => afterTag? (some place) text

/-! ### Blocks -/

/-- The element names that start an HTML block wherever they open or close. -/
def blockElements : List String :=
  ["address", "article", "aside", "base", "basefont", "blockquote", "body", "caption", "center",
    "col", "colgroup", "dd", "details", "dialog", "dir", "div", "dl", "dt", "fieldset",
    "figcaption", "figure", "footer", "form", "frame", "frameset", "h1", "h2", "h3", "h4", "h5",
    "h6", "head", "header", "hr", "html", "iframe", "legend", "li", "link", "main", "menu",
    "menuitem", "nav", "noframes", "ol", "optgroup", "option", "p", "param", "search", "section",
    "summary", "table", "tbody", "td", "tfoot", "th", "thead", "title", "tr", "track", "ul"]

/-- How far an HTML block reaches. -/
inductive HtmlBlockEnd where
  /-- To the line that holds a given text. -/
  | mark (text : List Char)
  /-- To the next blank line. -/
  | blankLine
  deriving Repr, DecidableEq

/-- The elements whose content is raw text. -/
def rawTextElements : List String := ["pre", "style", "script", "textarea"]

/-- The end of the raw text that an element's opening tag begins, if the text after `<` is one. -/
def rawTextEnd? (text : List Char) : Option (List Char) :=
  (rawTextElements.find? fun name =>
    (text.take name.length).map lowerAscii == name.toList &&
      match text.drop name.length with
      | [] => true
      | c :: _ => isWhite c || c == '>').map fun name => "</".toList ++ name.toList ++ ['>']

/-- What ends the HTML block that a text after `<` starts, for the kinds of block that end with a
mark. -/
def htmlMarkEnd? (text : List Char) : Option (List Char) :=
  match rawTextEnd? text with
  | some mark => some mark
  | none =>
    match text with
    | '!' :: '-' :: '-' :: _ => some "-->".toList
    | '?' :: _ => some "?>".toList
    | '!' :: c :: rest =>
      if c = '[' ∧ (afterPrefix? "CDATA[".toList rest).isSome then some "]]>".toList
      else if isAsciiLetter c then some ">".toList
      else none
    | _ => none

/-- The text after `<` opens or closes a block element. -/
def startsBlockElement (text : List Char) : Bool :=
  let body := match text with
    | '/' :: rest => rest
    | _ => text
  let name := (body.takeWhile isAsciiAlphanumeric).map lowerAscii
  blockElements.any (·.toList == name) &&
    match body.dropWhile isAsciiAlphanumeric with
    | [] => true
    | '/' :: '>' :: _ => true
    | c :: _ => c == ' ' || c == '\t' || c == '\r' || c == '\n' || c == '>'

/-- The HTML block that starts a text may interrupt a paragraph, and where it ends. -/
def interruptingHtml? (text : List Char) : Option HtmlBlockEnd :=
  match text with
  | '<' :: rest =>
    match htmlMarkEnd? rest with
    | some mark => some (.mark mark)
    | none => if startsBlockElement rest then some .blankLine else none
  | _ => none

/-- The HTML block that starts a text. Any tag alone on its line starts one too. -/
def htmlBlock? (text : List Char) : Option HtmlBlockEnd :=
  match interruptingHtml? text with
  | some e => some e
  | none =>
    match text with
    | '<' :: rest =>
      (afterTag? none rest).bind fun rest => (blankLine? rest).map fun _ => .blankLine
    | _ => none

end MarkdownPreview.Markdown
