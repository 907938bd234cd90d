import MarkdownPreview.Syntax.Heading

/-! Where the fences, the language and the body of a fenced code block sit in its source. -/

namespace MarkdownPreview.Syntax

open Text

/-- The pieces of a fenced code block. -/
structure FencedCode where
  /-- What stands before the opening fence. -/
  lead : List Char
  /-- The opening run of backticks or tildes. -/
  fence : List Char
  /-- Spaces and tabs before the language; part of `openRest` when there is no language. -/
  gap : List Char
  /-- The first word after the fence. -/
  language : Option (List Char)
  /-- The rest of the opening line with its line feed. -/
  openRest : List Char
  body : List Char
  /-- Indentation and quote markers before the closing fence. -/
  closeLead : List Char
  /-- The closing run, absent from a block that is not closed. -/
  close : Option (List Char)
  rest : List Char
  deriving Repr, DecidableEq

/-- The pieces in order. -/
def FencedCode.text (f : FencedCode) : List Char :=
  f.lead ++ f.fence ++ f.gap ++ f.language.getD [] ++ f.openRest ++ f.body ++ f.closeLead ++
    f.close.getD [] ++ f.rest

def isFenceChar (c : Char) : Bool := c == '`' || c == '~'

/-- The body of a block and what closes it. -/
structure FencedBody where
  body : List Char
  closeLead : List Char
  close : Option (List Char)
  rest : List Char

/-- Cuts the lines after the opening line. They close with a run of the fence's character that is at
least as long as the fence, on the last line that is not empty, with nothing but white space
after it. -/
def fencedBody (fenceChar : Char) (fenceLength : Nat) (text : List Char) : FencedBody :=
  let last := lastLine (withoutLineEnding text)
  let lead := last.takeWhile isLinePrefix
  let run := (last.dropWhile isLinePrefix).takeWhile (· == fenceChar)
  if fenceLength ≤ run.length ∧ isBlankText (last.drop (lead.length + run.length)) then
    let body := text.take ((withoutLineEnding text).length - last.length)
    ⟨body, lead, some run, text.drop (body.length + lead.length + run.length)⟩
  else ⟨text, [], none, []⟩

/-- Cuts a code block at its first backtick or tilde, which must start a run of three or more. -/
def fencedCode? (raw : List Char) : Option FencedCode :=
  let lead := raw.takeWhile (! isFenceChar ·)
  match raw.dropWhile (! isFenceChar ·) with
  | [] => none
  | c :: afterLead =>
    let fence := (c :: afterLead).takeWhile (· == c)
    if fence.length < 3 then none
    else
      let afterFence := (c :: afterLead).dropWhile (· == c)
      let info := afterFence.takeWhile (· != '\n')
      let ending := (afterFence.dropWhile (· != '\n')).take 1
      let lines := (afterFence.dropWhile (· != '\n')).drop 1
      let word := (info.dropWhile isSpaceOrTab).takeWhile (! isBlank ·)
      let b := fencedBody c fence.length lines
      if word = [] then
        some ⟨lead, fence, [], none, info ++ ending, b.body, b.closeLead, b.close, b.rest⟩
      else
        let gap := info.takeWhile isSpaceOrTab
        some ⟨lead, fence, gap, some word, info.drop (gap.length + word.length) ++ ending, b.body,
          b.closeLead, b.close, b.rest⟩

end MarkdownPreview.Syntax
