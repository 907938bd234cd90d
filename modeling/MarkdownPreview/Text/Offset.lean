import MarkdownPreview.Text.Span

/-! Two coordinates for one text. The Markdown reader's events give byte offsets of the UTF-8 form,
decorations and selections count characters. A byte offset inside a character stands for the
position before that character, and one past the end stands for the end, so the change of
coordinates is total and monotone. -/

namespace MarkdownPreview.Text

/-- The number of bytes of the text's UTF-8 form. -/
def byteLength : List Char → Nat
  | [] => 0
  | c :: cs => c.utf8Size + byteLength cs

@[simp] theorem byteLength_nil : byteLength [] = 0 := rfl

@[simp] theorem byteLength_cons (c : Char) (cs : List Char) :
    byteLength (c :: cs) = c.utf8Size + byteLength cs := rfl

theorem byteLength_append (u v : List Char) :
    byteLength (u ++ v) = byteLength u + byteLength v := by
  induction u with
  | nil => simp
  | cons c u ih => simp [ih, Nat.add_assoc]

/-- The byte offset at which the character with the given index starts; the end of the text for an
index past the last character. -/
def byteOffset : List Char → Nat → Nat
  | [], _ => 0
  | _ :: _, 0 => 0
  | c :: cs, n + 1 => c.utf8Size + byteOffset cs n

theorem byteOffset_le (text : List Char) (n : Nat) : byteOffset text n ≤ byteLength text := by
  induction text generalizing n with
  | nil => exact Nat.le_refl _
  | cons c cs ih =>
    cases n with
    | zero => exact Nat.zero_le _
    | succ n => exact Nat.add_le_add_left (ih n) _

/-- The number of characters that lie wholly within the first `b` bytes. -/
def charOffset : List Char → Nat → Nat
  | [], _ => 0
  | c :: cs, b => if c.utf8Size ≤ b then charOffset cs (b - c.utf8Size) + 1 else 0

theorem charOffset_le (text : List Char) (b : Nat) : charOffset text b ≤ text.length := by
  induction text generalizing b with
  | nil => exact Nat.le_refl _
  | cons c cs ih =>
    simp only [charOffset, List.length_cons]
    split
    · exact Nat.succ_le_succ (ih _)
    · exact Nat.zero_le _

theorem charOffset_mono (text : List Char) {a b : Nat} (h : a ≤ b) :
    charOffset text a ≤ charOffset text b := by
  induction text generalizing a b with
  | nil => exact Nat.le_refl _
  | cons c cs ih =>
    simp only [charOffset]
    split
    · rw [if_pos (by omega)]
      exact Nat.succ_le_succ (ih (by omega))
    · exact Nat.zero_le _

/-- The character offsets of a span of byte offsets. -/
def charSpan (text : List Char) (bytes : Span) : Span := bytes.map (charOffset text)

/-! ### Slices -/

/-- The text from byte `b` on, if a character starts at `b` or the text ends there. -/
def dropBytes? : List Char → Nat → Option (List Char)
  | cs, 0 => some cs
  | [], _ + 1 => none
  | c :: cs, b + 1 => if c.utf8Size ≤ b + 1 then dropBytes? cs (b + 1 - c.utf8Size) else none

/-- The first `b` bytes of the text, if a character starts at `b` or the text ends there. -/
def takeBytes? : List Char → Nat → Option (List Char)
  | _, 0 => some []
  | [], _ + 1 => none
  | c :: cs, b + 1 =>
    if c.utf8Size ≤ b + 1 then (takeBytes? cs (b + 1 - c.utf8Size)).map (c :: ·) else none

/-- The text over a span of byte offsets. A span that is inverted, reaches past the end or cuts a
character has none. -/
def byteSlice? (text : List Char) (bytes : Span) : Option (List Char) :=
  if bytes.start ≤ bytes.stop then
    (dropBytes? text bytes.start).bind (takeBytes? · (bytes.stop - bytes.start))
  else none

/-- The text over a span of character offsets. A span that is inverted or reaches past the end has
none. -/
def charSlice? (text : List Char) (chars : Span) : Option (List Char) :=
  if chars.start ≤ chars.stop ∧ chars.stop ≤ text.length then
    some ((text.drop chars.start).take (chars.stop - chars.start))
  else none

end MarkdownPreview.Text
