/-! White space and trimming. `isBlank` is the Unicode property White_Space; Markdown's own syntax
speaks mostly of spaces and tabs, which have names of their own here. -/

namespace MarkdownPreview.Text

/-- The character has the Unicode property White_Space. -/
def isBlank (c : Char) : Bool :=
  let n := c.toNat
  (0x09 ≤ n && n ≤ 0x0d) || n == 0x20 || n == 0x85 || n == 0xa0 || n == 0x1680 ||
    (0x2000 ≤ n && n ≤ 0x200a) || n == 0x2028 || n == 0x2029 || n == 0x202f || n == 0x205f ||
    n == 0x3000

/-- A space or a tab. -/
def isSpaceOrTab (c : Char) : Bool := c == ' ' || c == '\t'

/-- A carriage return or a line feed. -/
def isLineEnding (c : Char) : Bool := c == '\n' || c == '\r'

/-! ### Trimming -/

/-- The text without its longest tail of characters in the class. -/
def trimEnd (p : Char → Bool) (text : List Char) : List Char :=
  (text.reverse.dropWhile p).reverse

/-- The text without its longest head and its longest tail of characters in the class. -/
def trim (p : Char → Bool) (text : List Char) : List Char := trimEnd p (text.dropWhile p)

/-- The text is empty or all white space. -/
def isBlankText (text : List Char) : Bool := text.all isBlank

/-- A text is what trimming leaves followed by a run of the class. -/
theorem trimEnd_append (p : Char → Bool) (text : List Char) :
    trimEnd p text ++ (text.reverse.takeWhile p).reverse = text := by
  rw [trimEnd, ← List.reverse_append, List.takeWhile_append_dropWhile, List.reverse_reverse]

/-- The text without its trailing line feeds and carriage returns. -/
def withoutLineEnding (text : List Char) : List Char := trimEnd isLineEnding text

end MarkdownPreview.Text
