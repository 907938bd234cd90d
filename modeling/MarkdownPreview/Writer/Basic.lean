import MarkdownPreview.Writer.Emission

/-! The decorations of an event stream. The events are gone over once, each giving its decorations
in turn; then the bracket math of the source is laid over the result, and everything is put in order
of its start. -/

namespace MarkdownPreview.Writer

open Text Syntax
open Markdown (Event)

/-- The decorations that the events give one after another. -/
def emitAll (source : List Char) (options : Options) : Walk → List Event →
    Except WriteError (List Decoration)
  | _, [] => .ok []
  | w, e :: rest => do
    let now ← emit source options w e
    let later ← emitAll source options (w.step e) rest
    .ok (now ++ later)

/-- A run gets through when its first event does, and then the rest does. -/
theorem emitAll_cons_eq_ok_iff {source : List Char} {options : Options} {w : Walk} {e : Event}
    {rest : List Event} {ds : List Decoration} :
    emitAll source options w (e :: rest) = .ok ds ↔
      ∃ now later, emit source options w e = .ok now ∧
        emitAll source options (w.step e) rest = .ok later ∧ ds = now ++ later := by
  rw [emitAll]
  constructor
  · intro h
    cases hnow : emit source options w e with
    | error err =>
      rw [hnow] at h
      cases h
    | ok now =>
      cases hlater : emitAll source options (w.step e) rest with
      | error err =>
        rw [hnow, hlater] at h
        cases h
      | ok later =>
        rw [hnow, hlater] at h
        exact ⟨now, later, rfl, rfl, (Except.ok.inj h).symm⟩
  · rintro ⟨now, later, hnow, hlater, rfl⟩
    rw [hnow, hlater]
    rfl

/-- The spans in which the events rule out bracket math. -/
def excludedSpans (source : List Char) (events : List Event) : ExcludedSpans :=
  (events.filterMap (excludedBy source)).foldl ExcludedSpans.add []

/-- Lays one span of bracket math over the decorations: what Markdown made of its content goes, and
its own decorations come. -/
def layMath (source : List Char) (options : Options) (ds : List Decoration) (bytes : Span) :
    Except WriteError (List Decoration) := do
  let chars := charSpan source bytes
  let own ← mathBetween source options bytes 2 2 .displayMath
  .ok (ds.filter (! chars.encloses ·.span) ++ own)

/-- The bracket math of the source, where the options ask for it. -/
def mathSpans (source : List Char) (options : Options) (events : List Event) :
    Except WriteError (List Span) :=
  if options.latexBrackets then
    match bracketMath source (excludedSpans source events) with
    | .ok spans => .ok spans
    | .error overrun => .error (.scanOutside overrun.resume)
  else .ok []

/-- Decorations in order of their start, those with one start as they came. -/
def sortByStart (ds : List Decoration) : List Decoration :=
  stableSort (fun a b => a.start ≤ b.start) ds

/-- The decorations of a document, given its source and its events. -/
def write (source : List Char) (options : Options) (events : List Event) :
    Except WriteError (List Decoration) := do
  let ds ← emitAll source options {} events
  let spans ← mathSpans source options events
  let ds ← spans.foldlM (layMath source options) ds
  .ok (sortByStart ds)

end MarkdownPreview.Writer
