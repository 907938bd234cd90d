import MarkdownPreview.Latex.Alphabet
import MarkdownPreview.Latex.Substitution
import MarkdownPreview.Latex.Symbol

/-! LaTeX constructs that have a Unicode rendering: commands (`\alpha`, `\mathbb{R}`, `\hat{x}`),
scripts (`x_1`, `e^{2i}`) and fractions (`\frac{a}{b}`). Each of the three is looked for in a scan
of its own from left to right; what a construct covers is not looked at again by the same scan.
Braces do not nest: an argument ends at the first closing brace. -/

namespace MarkdownPreview.Latex

/-- A construct at the head of a text: the characters it covers, and what to draw for it. One that
is recognised but has no rendering is left alone. -/
structure Fragment where
  source : List Char
  display : Option (List Char)
  deriving Repr, DecidableEq

def isLetter (c : Char) : Bool := ('a' ≤ c && c ≤ 'z') || ('A' ≤ c && c ≤ 'Z')

def isLetterOrDigit (c : Char) : Bool := isLetter c || ('0' ≤ c && c ≤ '9')

/-- The argument in braces at the head of a text. -/
def braced? : List Char → Option (List Char)
  | '{' :: rest => if rest.contains '}' then some (rest.takeWhile (· != '}')) else none
  | _ => none

/-- An argument as it was written. -/
def inBraces (arg : List Char) : List Char := '{' :: arg ++ ['}']

/-! ### Commands -/

/-- What to draw for a command. Alphabets, `\text` and `\sqrt` need a non-empty argument, accents
take any; another command is drawn only when it stands without one. -/
def commandDisplay? (name : List Char) (arg : Option (List Char)) : Option (List Char) :=
  match arg with
  | none => symbol? name
  | some arg =>
    if name = "mathcal".toList ∧ arg ≠ [] then some (Alphabet.calligraphic.restyle arg)
    else if name = "mathbb".toList ∧ arg ≠ [] then some (Alphabet.doubleStruck.restyle arg)
    else if name = "text".toList ∧ arg ≠ [] then some arg
    else if name = "sqrt".toList ∧ arg ≠ [] then some ('√' :: arg)
    else if isAccent name then (symbol? name).map (arg ++ ·)
    else none

/-- A command: a backslash with the longest run of letters and an argument if one follows, or with
one of the spacing signs `,` `;` `:` `!`. -/
def command? : List Char → Option Fragment
  | '\\' :: rest =>
    let name := rest.takeWhile isLetter
    if name = [] then
      match rest with
      | c :: _ =>
        if c = ',' ∨ c = ';' ∨ c = ':' ∨ c = '!' then some ⟨['\\', c], symbol? [c]⟩ else none
      | [] => none
    else
      match braced? (rest.dropWhile isLetter) with
      | some arg => some ⟨'\\' :: name ++ inBraces arg, commandDisplay? name (some arg)⟩
      | none => some ⟨'\\' :: name, commandDisplay? name none⟩
  | _ => none

/-! ### Scripts -/

/-- The alphabet that a script's sign asks for. -/
def scriptAlphabet? (c : Char) : Option Alphabet :=
  if c = '_' then some .subscript else if c = '^' then some .superscript else none

/-- The script over some content, drawn when any of it exists as a script. -/
def scriptFragment (a : Alphabet) (content source : List Char) : Fragment :=
  let styled := a.restyle content
  ⟨source, if styled = content then none else some styled⟩

/-- A script: its sign with a non-empty argument in braces or a single letter or digit. -/
def script? : List Char → Option Fragment
  | c :: rest =>
    match scriptAlphabet? c with
    | none => none
    | some a =>
      match braced? rest with
      | some arg => if arg = [] then none else some (scriptFragment a arg (c :: inBraces arg))
      | none =>
        match rest with
        | d :: _ => if isLetterOrDigit d then some (scriptFragment a [d] [c, d]) else none
        | [] => none
  | [] => none

/-! ### Fractions -/

/-- The text after a given head. -/
def after? : List Char → List Char → Option (List Char)
  | [], text => some text
  | _ :: _, [] => none
  | p :: ps, c :: cs => if p = c then after? ps cs else none

/-- A fraction: `\frac` with two arguments, either of which may be empty. -/
def fraction? (text : List Char) : Option Fragment := do
  let rest ← after? "\\frac".toList text
  let num ← braced? rest
  let rest ← after? (inBraces num) rest
  let den ← braced? rest
  some ⟨"\\frac".toList ++ inBraces num ++ inBraces den, some (num ++ '/' :: den)⟩

/-! ### Scans -/

/-- The substitutions that one kind of construct gives in a text whose first character has the
offset `pos`. The first `skip` characters belong to a construct found before. -/
def scanFrom (construct? : List Char → Option Fragment) (pos skip : Nat) :
    List Char → List Substitution
  | [] => []
  | c :: rest =>
    match skip with
    | skip + 1 => scanFrom construct? (pos + 1) skip rest
    | 0 =>
      match construct? (c :: rest) with
      | none => scanFrom construct? (pos + 1) 0 rest
      | some f =>
        let found := match f.display with
          | some display => [⟨pos, pos + f.source.length, f.source, display⟩]
          | none => []
        found ++ scanFrom construct? (pos + 1) (f.source.length - 1) rest

def commands (text : List Char) (offset : Nat) : List Substitution :=
  scanFrom command? offset 0 text

def scripts (text : List Char) (offset : Nat) : List Substitution := scanFrom script? offset 0 text

def fractions (text : List Char) (offset : Nat) : List Substitution :=
  scanFrom fraction? offset 0 text

/-- Every construct of the text that has a rendering, with offsets counted from `offset`: first the
commands, then the scripts, then the fractions. Those of different scans may overlap. -/
def findSubstitutions (text : List Char) (offset : Nat) : List Substitution :=
  commands text offset ++ scripts text offset ++ fractions text offset

/-- The text with its constructs drawn in Unicode, overlaps resolved. -/
def renderUnicode (text : List Char) : List Char :=
  applyAll (nonOverlapping (findSubstitutions text 0)) text

end MarkdownPreview.Latex
