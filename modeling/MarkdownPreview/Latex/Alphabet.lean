/-! Alphabets in which LaTeX sets single characters: calligraphic and double-struck capitals, and
the characters that Unicode has as subscripts and superscripts. -/

namespace MarkdownPreview.Latex

/-- A style for single characters, with the characters that exist in it. -/
inductive Alphabet where
  | calligraphic
  | doubleStruck
  | subscript
  | superscript
  deriving Repr, DecidableEq

namespace Alphabet

/-- The capitals as script letters. -/
def calligraphicPairs : List (Char × Char) := [
  ('A', '𝒜'), ('B', 'ℬ'), ('C', '𝒞'), ('D', '𝒟'), ('E', 'ℰ'), ('F', 'ℱ'), ('G', '𝒢'), ('H', 'ℋ'),
  ('I', 'ℐ'), ('J', '𝒥'), ('K', '𝒦'), ('L', 'ℒ'), ('M', 'ℳ'), ('N', '𝒩'), ('O', '𝒪'), ('P', '𝒫'),
  ('Q', '𝒬'), ('R', 'ℛ'), ('S', '𝒮'), ('T', '𝒯'), ('U', '𝒰'), ('V', '𝒱'), ('W', '𝒲'), ('X', '𝒳'),
  ('Y', '𝒴'), ('Z', '𝒵')]

/-- The capitals as double-struck letters. -/
def doubleStruckPairs : List (Char × Char) := [
  ('A', '𝔸'), ('B', '𝔹'), ('C', 'ℂ'), ('D', '𝔻'), ('E', '𝔼'), ('F', '𝔽'), ('G', '𝔾'), ('H', 'ℍ'),
  ('I', '𝕀'), ('J', '𝕁'), ('K', '𝕂'), ('L', '𝕃'), ('M', '𝕄'), ('N', 'ℕ'), ('O', '𝕆'), ('P', 'ℙ'),
  ('Q', 'ℚ'), ('R', 'ℝ'), ('S', '𝕊'), ('T', '𝕋'), ('U', '𝕌'), ('V', '𝕍'), ('W', '𝕎'), ('X', '𝕏'),
  ('Y', '𝕐'), ('Z', 'ℤ')]

/-- What can stand below the line. -/
def subscriptPairs : List (Char × Char) := [
  ('0', '₀'), ('1', '₁'), ('2', '₂'), ('3', '₃'), ('4', '₄'), ('5', '₅'), ('6', '₆'), ('7', '₇'),
  ('8', '₈'), ('9', '₉'), ('a', 'ₐ'), ('e', 'ₑ'), ('h', 'ₕ'), ('i', 'ᵢ'), ('j', 'ⱼ'), ('k', 'ₖ'),
  ('l', 'ₗ'), ('m', 'ₘ'), ('n', 'ₙ'), ('o', 'ₒ'), ('p', 'ₚ'), ('r', 'ᵣ'), ('s', 'ₛ'), ('t', 'ₜ'),
  ('u', 'ᵤ'), ('v', 'ᵥ'), ('x', 'ₓ'), ('+', '₊'), ('-', '₋'), ('=', '₌'), ('(', '₍'), (')', '₎')]

/-- What can stand above the line. -/
def superscriptPairs : List (Char × Char) := [
  ('0', '⁰'), ('1', '¹'), ('2', '²'), ('3', '³'), ('4', '⁴'), ('5', '⁵'), ('6', '⁶'), ('7', '⁷'),
  ('8', '⁸'), ('9', '⁹'), ('a', 'ᵃ'), ('b', 'ᵇ'), ('c', 'ᶜ'), ('d', 'ᵈ'), ('e', 'ᵉ'), ('f', 'ᶠ'),
  ('g', 'ᵍ'), ('h', 'ʰ'), ('i', 'ⁱ'), ('j', 'ʲ'), ('k', 'ᵏ'), ('l', 'ˡ'), ('m', 'ᵐ'), ('n', 'ⁿ'),
  ('o', 'ᵒ'), ('p', 'ᵖ'), ('r', 'ʳ'), ('s', 'ˢ'), ('t', 'ᵗ'), ('u', 'ᵘ'), ('v', 'ᵛ'), ('w', 'ʷ'),
  ('x', 'ˣ'), ('y', 'ʸ'), ('z', 'ᶻ'), ('+', '⁺'), ('-', '⁻'), ('=', '⁼'), ('(', '⁽'), (')', '⁾')]

/-- The characters of an alphabet, plain and styled. -/
def pairs : Alphabet → List (Char × Char)
  | calligraphic => calligraphicPairs
  | doubleStruck => doubleStruckPairs
  | subscript => subscriptPairs
  | superscript => superscriptPairs

/-- The character as the alphabet has it. -/
def styled? (a : Alphabet) (c : Char) : Option Char := (a.pairs.find? (·.1 == c)).map (·.2)

/-- The text in the alphabet, with what the alphabet lacks left as it is. -/
def restyle (a : Alphabet) (text : List Char) : List Char := text.map fun c => (a.styled? c).getD c

end Alphabet

end MarkdownPreview.Latex
