import MarkdownPreview.Markdown.Event

/-! The settings of a preview: the Markdown dialect, and what is made of math. -/

namespace MarkdownPreview

/-- Everything is on unless it is switched off. -/
structure Options where
  /-- Tables, strikethrough, task lists and footnotes are read. -/
  gfm : Bool := true
  /-- Math between dollar signs is read. -/
  math : Bool := true
  /-- Display math between backslashed brackets is recognised. -/
  latexBrackets : Bool := true
  /-- LaTeX inside math is decorated with its Unicode rendering. -/
  substituteLatex : Bool := true
  deriving Repr, DecidableEq, Inhabited

namespace Options

/-- The dialect in which the document is read. -/
def dialect (o : Options) : Markdown.Dialect := ⟨o.gfm, o.math⟩

/-! ### Flags -/

/-- The names of the options where they are written down, in order. -/
def names : List String := ["gfm", "math", "latex_brackets", "substitute_latex"]

/-- The place of an option's name. -/
def index? (name : List Char) : Option Nat := names.findIdx? (·.toList == name)

/-- The options in the order of their names. -/
def flags (o : Options) : List Bool := [o.gfm, o.math, o.latexBrackets, o.substituteLatex]

/-- The options with the given flags, in the order of their names. What is not given is on. -/
def ofFlags (flags : List (Option Bool)) : Options :=
  let flag (n : Nat) : Bool := ((flags[n]?).getD none).getD true
  ⟨flag 0, flag 1, flag 2, flag 3⟩

/-- Flags of which none is given. -/
def unset : List (Option Bool) := [none, none, none, none]

end Options

end MarkdownPreview
