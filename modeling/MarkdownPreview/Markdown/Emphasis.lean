import MarkdownPreview.Markdown.Token

/-! Emphasis. The inline pieces of a block are gone over from left to right; a run of delimiters
that may close looks back for the nearest run that it matches. What a match encloses becomes
emphasis, and unmatched runs are text. -/

namespace MarkdownPreview.Markdown

open Text (Span)

/-- A run of delimiters that has not been matched, or what is left of it. -/
structure Run where
  char : Char
  /-- The delimiters that are left. -/
  count : Nat
  /-- The delimiters that the run had at first. -/
  length : Nat
  canOpen : Bool
  canClose : Bool
  span : Span
  deriving Repr, DecidableEq

/-- A part of inline text: finished events, or a run of delimiters. -/
inductive Inline where
  | done (events : List Event)
  | run (r : Run)
  deriving Repr, DecidableEq

namespace Run

def both (r : Run) : Bool := r.canOpen && r.canClose

/-- The events of a run that has no match. -/
def asText (r : Run) : List Event := [⟨.text, r.span⟩]

/-- A closing run matches an opening one of the same character. If one of the two may both open and
close, their lengths must not add up to a multiple of three, unless both are such multiples. Runs
of tildes must be equally long. -/
def closes (r opener : Run) : Bool :=
  opener.char == r.char && (r.char != '~' || r.length == opener.length) &&
    ((!r.both && !opener.both) || (r.length + opener.length) % 3 != 0 || r.length % 3 == 0)

/-- The end of the first `n` delimiters of a run, which is no further than that of the run. -/
def stopAfter (r : Run) (n : Nat) : Nat :=
  if n = r.count then r.span.stop else min (r.span.start + n) r.span.stop

/-- The run without its first `n` delimiters. -/
def dropFirst (r : Run) (n : Nat) : Run :=
  { r with count := r.count - n, span := ⟨r.span.start + n, r.span.stop⟩ }

/-- The run without its last `n` delimiters. -/
def dropLast (r : Run) (n : Nat) : Run :=
  { r with count := r.count - n, span := ⟨r.span.start, r.span.start + (r.count - n)⟩ }

end Run

/-- The construct that a number of delimiters on each side makes. -/
def emphasisTag (char : Char) (width : Nat) : Tag :=
  if char = '~' then .strikethrough else if width = 2 then .strong else .emphasis

/-- Puts `n` more delimiters on each side of some content, in pairs from the inside out, where
`used` are on it already. -/
def enclose (opener closer : Run) (used : Nat) (content : List Event) : Nat → List Event
  | 0 => content
  | 1 =>
    let used := used + 1
    let start := opener.span.start + opener.count - used
    wrap (emphasisTag opener.char 1) ⟨start, closer.stopAfter used⟩ content
  | n + 2 =>
    let used := used + 2
    let start := opener.span.start + opener.count - used
    enclose opener closer used
      (wrap (emphasisTag opener.char 2) ⟨start, closer.stopAfter used⟩ content) n

/-- Pieces that have been gone over, the last one first, with the runs among them that may still
open emphasis. -/
structure Pending where
  pieces : List Inline := []
  /-- Openers before this many from the left are out of reach for tildes: a closing run of tildes
  that found no match bars the way back past it. -/
  tildeBar : Nat := 0

namespace Pending

/-- The events of pieces given last one first, runs among them being text. -/
def settle (pieces : List Inline) : List Event :=
  pieces.foldl (fun events p =>
    match p with
    | .done es => es ++ events
    | .run r => r.asText ++ events) []

/-- The number of runs among the pieces. -/
def openers (pieces : List Inline) : Nat :=
  (pieces.filter fun p =>
    match p with
    | .run _ => true
    | .done _ => false).length

/-- Looks back for the opener that a run closes: the pieces after it, the opener, and the pieces
before it, each list last piece first. -/
def find? (r : Run) (bar : Nat) :
    List Inline → List Inline → Option (List Inline × Run × List Inline)
  | _, [] => none
  | after, .done es :: rest => find? r bar (after ++ [.done es]) rest
  | after, .run opener :: rest =>
    if r.char = '~' ∧ openers rest < bar then none
    else if r.closes opener then some (after, opener, rest)
    else find? r bar (after ++ [.run opener]) rest

/-- Matches a closing run with openers as long as it closes one, with what is left of it. -/
def close : Nat → Pending → Run → Pending × Run
  | 0, p, r => (p, r)
  | fuel + 1, p, r =>
    if r.count = 0 then (p, r)
    else
      match find? r p.tildeBar [] p.pieces with
      | none => (if r.char = '~' then { p with tildeBar := openers p.pieces } else p, r)
      | some (after, opener, before) =>
        let n := min r.count opener.count
        let enclosed := enclose opener r 0 (settle after) n
        let left := opener.dropLast n
        let before' := if left.count = 0 then before else .run left :: before
        close fuel ⟨.done enclosed :: before', min p.tildeBar (openers before)⟩ (r.dropFirst n)

/-- Adds a piece. A run that cannot open is text once it has closed what it can. -/
def push (p : Pending) : Inline → Pending
  | .done es => { p with pieces := .done es :: p.pieces }
  | .run r =>
    let (p, r) := if r.canClose then close (r.count + 1) p r else (p, r)
    if r.count = 0 then p
    else if r.canOpen then { p with pieces := .run r :: p.pieces }
    else { p with pieces := .done r.asText :: p.pieces }

end Pending

/-- The events of inline pieces in order, with emphasis resolved. -/
def emphasise (pieces : List Inline) : List Event :=
  Pending.settle (pieces.foldl Pending.push {}).pieces

end MarkdownPreview.Markdown
