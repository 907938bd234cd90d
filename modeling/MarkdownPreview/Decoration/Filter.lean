import MarkdownPreview.Decoration.Basic
import MarkdownPreview.Selection.Basic
import MarkdownPreview.Text.Line

/-! What is drawn while the document has selections. Markers near a selection give way so that the
raw Markdown shows; how near is decided by the kind's scope. The rest is grouped by kind. -/

namespace MarkdownPreview.Decoration

open Text

/-- The decorations to draw, by kind in order of declaration, without the kinds that have none. -/
abbrev ByKind := List (Kind × List Decoration)

namespace ByKind

/-- The decorations of one kind. -/
def get (m : ByKind) (k : Kind) : List Decoration := ((m.find? (·.1 == k)).map (·.2)).getD []

/-- Groups decorations by kind, in their given order within each kind. -/
def group (ds : List Decoration) : ByKind :=
  Kind.all.filterMap fun k =>
    match ds.filter (·.kind == k) with
    | [] => none
    | own => some (k, own)

end ByKind

/-- The decoration pulled into a document of `length` characters, if it is not inverted. -/
def clamped? (length : Nat) (d : Decoration) : Option Decoration :=
  if d.start ≤ d.stop then some { d with start := min d.start length, stop := min d.stop length }
  else none

/-- The first of the shortest decorations. -/
def shortest? : List Decoration → Option Decoration
  | [] => none
  | d :: ds =>
    match shortest? ds with
    | none => some d
    | some e => if d.length ≤ e.length then some d else some e

/-- The span that a selection has to touch to reveal a marker of span scope: that of the shortest
construct around it which owns it, or its own. -/
def extent (owners : List Decoration) (d : Decoration) : Span :=
  match shortest? (owners.filter fun o => d.kind.owners.contains o.kind && o.encloses d) with
  | some owner => owner.span
  | none => d.span

/-- The selections of a document, pulled into it, with the lines that they touch. -/
structure Focus where
  selections : List Selection
  lines : List LineSpan

def Focus.of (source : List Char) (selections : List Selection) : Focus :=
  let selections := selections.map (·.clamped source.length)
  ⟨selections, selections.map fun s => closedLineSpan source s.start s.stop⟩

/-- A selection is near enough to the decoration for it to give way. -/
def revealed (source : List Char) (focus : Focus) (owners : List Decoration) (d : Decoration) :
    Bool :=
  match d.kind.revealScope with
  | .never | .pinned => false
  | .line =>
    let lines := lineSpan source d.start d.stop
    focus.lines.any (·.overlaps lines)
  | .span =>
    let extent := extent owners d
    focus.selections.any (·.touches extent.start extent.stop)

/-- The decorations of a document that are drawn while it has the given selections. -/
def filter (ds : List Decoration) (source : List Char) (selections : List Selection) : ByKind :=
  let ds := ds.filterMap (clamped? source.length)
  let owners := ds.filter (·.kind.isOwner)
  let focus := Focus.of source selections
  .group (ds.filter (! revealed source focus owners ·))

end MarkdownPreview.Decoration
