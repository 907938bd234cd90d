import MarkdownPreview.Text.Span

/-! The event stream of a Markdown document: constructs open and close around their content, and
every event knows the span of source it stands for. A construct's opening and closing event carry
the same span, which covers the construct whole, delimiters included. -/

namespace MarkdownPreview.Markdown

open Text (Span)

/-- A construct that has content. -/
inductive Tag where
  | paragraph
  | heading (level : Nat)
  | blockquote
  | list
  | item
  | footnoteDefinition
  | fencedCode
  | indentedCode
  | htmlBlock
  | table
  | tableHead
  | tableRow
  | tableCell
  | emphasis
  | strong
  | strikethrough
  | link
  | image
  deriving Repr, DecidableEq, Inhabited

/-- What an event says about its span. -/
inductive EventKind where
  | start (tag : Tag)
  | stop (tag : Tag)
  | text
  | code
  | inlineMath
  | displayMath
  | rule
  | taskMarker (checked : Bool)
  | softBreak
  | hardBreak
  | inlineHtml
  | html
  | footnoteReference
  deriving Repr, DecidableEq, Inhabited

/-- The event closes a construct. -/
def EventKind.isStop : EventKind → Bool
  | .stop _ => true
  | _ => false

structure Event where
  kind : EventKind
  span : Span
  deriving Repr, DecidableEq, Inhabited

/-- The event with its span in other coordinates. -/
def Event.mapSpan (f : Nat → Nat) (e : Event) : Event := ⟨e.kind, e.span.map f⟩

/-- The events of a construct around those of its content. -/
def wrap (tag : Tag) (span : Span) (content : List Event) : List Event :=
  ⟨.start tag, span⟩ :: content ++ [⟨.stop tag, span⟩]

/-! ### Dialect -/

/-- The extensions of CommonMark that can be switched on. -/
inductive Extension where
  | tables
  | strikethrough
  | taskLists
  | footnotes
  | math
  deriving Repr, DecidableEq

def Extension.all : List Extension := [.tables, .strikethrough, .taskLists, .footnotes, .math]

/-- Which extensions of CommonMark are read. -/
structure Dialect where
  /-- Tables, strikethrough, task lists and footnotes. -/
  gfm : Bool
  /-- Math between dollar signs. -/
  math : Bool
  deriving Repr, DecidableEq

def Dialect.enables (d : Dialect) : Extension → Bool
  | .tables | .strikethrough | .taskLists | .footnotes => d.gfm
  | .math => d.math

end MarkdownPreview.Markdown
