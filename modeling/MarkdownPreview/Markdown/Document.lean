import MarkdownPreview.Markdown.Inline
import MarkdownPreview.Text.Offset

/-! A Markdown document as its events. The blocks are read first, with the labels they define; then
the inline text of each block becomes events in its place. -/

namespace MarkdownPreview.Markdown

/-- The events of inline text, as a block of its own or as part of the block around it. -/
def Leaf.events (source : List Char) (definitions : Definitions) (l : Leaf) : List Event :=
  let inner := inlineEvents source definitions l
  match l.tag with
  | some tag => wrap tag l.span inner
  | none => inner

mutual

/-- The events of a block. -/
def Block.events (source : List Char) (definitions : Definitions) : Block → List Event
  | .container tag span content => wrap tag span (blockEvents source definitions content)
  | .leaf l => l.events source definitions
  | .plain events => events

/-- The events of blocks one after another. -/
def blockEvents (source : List Char) (definitions : Definitions) : List Block → List Event
  | [] => []
  | b :: bs => b.events source definitions ++ blockEvents source definitions bs

end

/-- The events of a document. Their spans count bytes. -/
def readEvents (d : Dialect) (source : List Char) : List Event :=
  let outline := readOutline d source
  (blockEvents source outline.definitions outline.blocks.reverse).map
    (·.mapSpan (Text.byteOffset source))

end MarkdownPreview.Markdown
