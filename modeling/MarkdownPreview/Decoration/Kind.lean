/-! The kinds of decoration. A marker kind hides or replaces raw Markdown syntax and gives way when
a selection comes near; a semantic kind styles content and is drawn always. -/

namespace MarkdownPreview.Decoration

/-- What a decoration asks the renderer to do with its span. -/
inductive Kind where
  /-- Raw syntax hidden entirely: emphasis delimiters, fences, `$`, the parts of a link around its
  text. -/
  | hide
  /-- Delimiters that are drawn invisible but keep their place: the backticks of inline code. -/
  | transparent
  /-- The leading run of quote markers of a quoted line. -/
  | blockquote
  /-- The style common to all headings, drawn together with one of the six that follow. -/
  | heading
  | heading1
  | heading2
  | heading3
  | heading4
  | heading5
  | heading6
  /-- The bullet or number of a list item. -/
  | listItem
  | checkboxUnchecked
  | checkboxChecked
  | horizontalRule
  /-- A piece of LaTeX with its Unicode rendering drawn in its place. -/
  | mathSymbol
  | bold
  | italic
  | strikethrough
  | link
  | image
  /-- Inline code with its backticks. -/
  | code
  | codeBlock
  | codeBlockLanguage
  | inlineMath
  | displayMath
  deriving Repr, DecidableEq, Inhabited

/-- How a selection makes a decoration give way. -/
inductive RevealScope where
  /-- By touching a line that the decoration touches. -/
  | line
  /-- By touching the decoration itself or the construct that owns it. -/
  | span
  /-- A marker that no selection reveals. -/
  | pinned
  /-- Not a marker, so there is nothing to reveal. -/
  | never
  deriving Repr, DecidableEq

namespace Kind

/-- Every kind, in the order of declaration. -/
def all : List Kind :=
  [hide, transparent, blockquote, heading, heading1, heading2, heading3, heading4, heading5,
    heading6, listItem, checkboxUnchecked, checkboxChecked, horizontalRule, mathSymbol, bold,
    italic, strikethrough, link, image, code, codeBlock, codeBlockLanguage, inlineMath, displayMath]

theorem mem_all (k : Kind) : k ∈ all := by cases k <;> decide

def revealScope : Kind → RevealScope
  | hide | blockquote | heading | heading1 | heading2 | heading3 | heading4 | heading5 | heading6
  | listItem => .line
  | transparent | horizontalRule | mathSymbol => .span
  | checkboxUnchecked | checkboxChecked => .pinned
  | bold | italic | strikethrough | link | image | code | codeBlock | codeBlockLanguage
  | inlineMath | displayMath => .never

/-- The kind hides or replaces raw syntax. -/
def isMarker (k : Kind) : Bool := k.revealScope != .never

/-- The semantic kinds that own a marker of this kind: a selection anywhere in the owner around the
marker reveals it. -/
def owners : Kind → List Kind
  | transparent => [code]
  | mathSymbol => [inlineMath, displayMath]
  | _ => []

/-- Some marker kind is owned by this kind. -/
def isOwner (k : Kind) : Bool := all.any (·.owners.contains k)

theorem isOwner_iff (k : Kind) :
    k.isOwner = true ↔ k = code ∨ k = inlineMath ∨ k = displayMath := by
  cases k <;> decide

/-- The kind for headings of one level, from 1 to 6. -/
def ofHeadingLevel? : Nat → Option Kind
  | 1 => some heading1
  | 2 => some heading2
  | 3 => some heading3
  | 4 => some heading4
  | 5 => some heading5
  | 6 => some heading6
  | _ => none

/-- The name by which hosts know the kind. -/
def name : Kind → String
  | hide => "hide"
  | transparent => "transparent"
  | blockquote => "blockquote"
  | heading => "heading"
  | heading1 => "heading1"
  | heading2 => "heading2"
  | heading3 => "heading3"
  | heading4 => "heading4"
  | heading5 => "heading5"
  | heading6 => "heading6"
  | listItem => "listItem"
  | checkboxUnchecked => "checkboxUnchecked"
  | checkboxChecked => "checkboxChecked"
  | horizontalRule => "horizontalRule"
  | mathSymbol => "mathSymbol"
  | bold => "bold"
  | italic => "italic"
  | strikethrough => "strikethrough"
  | link => "link"
  | image => "image"
  | code => "code"
  | codeBlock => "codeBlock"
  | codeBlockLanguage => "codeBlockLanguage"
  | inlineMath => "inlineMath"
  | displayMath => "displayMath"

/-- The kind with a given name. -/
def ofName? (name : List Char) : Option Kind := all.find? (·.name.toList == name)

theorem ofName?_name (k : Kind) : ofName? k.name.toList = some k := by cases k <;> decide +kernel

/-- The place of the kind in `all`. -/
def index (k : Kind) : Nat := all.idxOf k

end Kind

end MarkdownPreview.Decoration
