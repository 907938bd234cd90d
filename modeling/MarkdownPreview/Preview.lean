import MarkdownPreview.Decoration.Filter
import MarkdownPreview.Markdown.Document
import MarkdownPreview.Writer.Basic

/-! The preview of a Markdown document: what is decorated, and what of it is drawn while the
document has selections. -/

namespace MarkdownPreview

/-- The decorations of a document. The reader's events lie inside the source, so that writing their
decorations does not fail. -/
def extract (options : Options) (source : List Char) : List Decoration :=
  match Writer.write source options (Markdown.readEvents options.dialect source) with
  | .ok ds => ds
  | .error _ => []

/-- The decorations to draw for a document with selections. -/
def preview (options : Options) (source : List Char) (selections : List Selection) :
    Decoration.ByKind :=
  Decoration.filter (extract options source) source selections

end MarkdownPreview
