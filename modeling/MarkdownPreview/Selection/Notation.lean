import MarkdownPreview.Selection.Basic
import MarkdownPreview.Text.Blank
import MarkdownPreview.Text.Numeral
import MarkdownPreview.Text.Offset

/-! The notation for selections on a command line: `N` is a caret, and `A:B` runs from `A` to `B`.
White space around an offset does not count. -/

namespace MarkdownPreview.Selection

open Text

/-- What is wrong with an offset. -/
inductive OffsetFault where
  /-- There is nothing but white space. -/
  | missing
  /-- It is no number, or none that fits in 64 bits. -/
  | notAnOffset
  deriving Repr, DecidableEq

def OffsetFault.message : OffsetFault → String
  | .missing => "missing offset"
  | .notAnOffset => "not a char offset"

/-- A text that is no selection, with the bytes of its first bad part. -/
structure NotationError where
  input : List Char
  span : Span
  fault : OffsetFault
  deriving Repr, DecidableEq

namespace NotationError

def message (e : NotationError) : List Char :=
  "invalid selection `".toList ++ e.input ++ "`: ".toList ++ e.fault.message.toList

/-- The name under which the fault is documented. -/
def code : String := "livemark::selection"

def help : String := "use `N` for a caret or `A:B` for a range, in char offsets"

end NotationError

/-- One offset. -/
def offset? (part : List Char) : Except OffsetFault Nat :=
  let text := trim isBlank part
  if text = [] then .error .missing
  else
    match word? text with
    | some n => .ok n
    | none => .error .notAnOffset

/-- The offset in a part of the input that starts at byte `pos`. -/
def offsetAt? (input : List Char) (pos : Nat) (part : List Char) : Except NotationError Nat :=
  match offset? part with
  | .ok n => .ok n
  | .error fault => .error ⟨input, ⟨pos, pos + byteLength part⟩, fault⟩

/-- Reads a selection. The first colon separates the anchor from the head. -/
def parse (input : List Char) : Except NotationError Selection :=
  let first := input.takeWhile (· != ':')
  match input.dropWhile (· != ':') with
  | [] => (offsetAt? input 0 input).map caret
  | _ :: second => do
    let anchor ← offsetAt? input 0 first
    let head ← offsetAt? input (byteLength first + 1) second
    .ok ⟨anchor, head⟩

/-- Writes a selection with both of its offsets. -/
def print (s : Selection) : List Char := decimal s.anchor ++ ':' :: decimal s.head

end MarkdownPreview.Selection
