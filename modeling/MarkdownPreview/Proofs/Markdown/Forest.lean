import MarkdownPreview.Markdown.Event

/-! Event streams as forests. A construct is a tree with the events of its content between its two
ends, other events are leaves, and a stream is a row of trees. What has to hold of an event may
depend on the span of the construct around it. -/

namespace MarkdownPreview.Markdown

open Text (Span)

/-- The event is neither the start nor the end of a construct. -/
def EventKind.isLeaf : EventKind → Bool
  | .start _ | .stop _ => false
  | _ => true

/-- The span of the event has delimiters that can be hidden. -/
def EventKind.hidesSyntax : EventKind → Bool
  | .start (.heading _) | .start .fencedCode | .start .emphasis | .start .strong
  | .start .strikethrough | .start .link | .start .image | .inlineMath | .displayMath => true
  | _ => false

/-- The span lies between two positions. -/
def Between (lo hi : Nat) (s : Span) : Prop := lo ≤ s.start ∧ s.stop ≤ hi

theorem Between.mono {lo lo' hi hi' : Nat} {s : Span} (h : Between lo hi s) (hlo : lo' ≤ lo)
    (hhi : hi ≤ hi') : Between lo' hi' s := ⟨Nat.le_trans hlo h.1, Nat.le_trans h.2 hhi⟩

/-- Trees one after another inside a span. Every construct is closed after its content, and every
event fits the span that it is in. -/
inductive Forest (fits : Span → Event → Prop) : Span → List Event → Prop
  | nil {outer : Span} : Forest fits outer []
  | leaf {outer : Span} {e : Event} {rest : List Event} (hleaf : e.kind.isLeaf = true)
      (hfits : fits outer e) (hrest : Forest fits outer rest) : Forest fits outer (e :: rest)
  | construct {outer span : Span} {tag : Tag} {inner rest : List Event}
      (hfits : fits outer ⟨.start tag, span⟩) (hinner : Forest fits span inner)
      (hrest : Forest fits outer rest) : Forest fits outer (wrap tag span inner ++ rest)

theorem wrap_append (tag : Tag) (span : Span) (inner rest : List Event) :
    wrap tag span inner ++ rest = ⟨.start tag, span⟩ :: (inner ++ ⟨.stop tag, span⟩ :: rest) := by
  simp [wrap]

namespace Forest

variable {fits fits' : Span → Event → Prop} {outer span : Span} {tag : Tag}
  {events inner rest : List Event}

theorem append (h : Forest fits outer events) (hrest : Forest fits outer rest) :
    Forest fits outer (events ++ rest) := by
  induction h with
  | nil => exact hrest
  | leaf hleaf hfits _ ih => exact .leaf hleaf hfits (ih hrest)
  | construct hfits hinner _ _ ih =>
    rw [List.append_assoc]
    exact .construct hfits hinner (ih hrest)

theorem tree (hfits : fits outer ⟨.start tag, span⟩) (hinner : Forest fits span inner) :
    Forest fits outer (wrap tag span inner) := by
  have h : Forest fits outer (wrap tag span inner ++ []) := .construct hfits hinner .nil
  rwa [List.append_nil] at h

theorem of_leaves (h : ∀ e ∈ events, e.kind.isLeaf = true ∧ fits outer e) :
    Forest fits outer events := by
  induction events with
  | nil => exact .nil
  | cons e rest ih =>
    obtain ⟨⟨hleaf, hfits⟩, hrest⟩ := List.forall_mem_cons.1 h
    exact .leaf hleaf hfits (ih hrest)

/-- In other coordinates the trees are the same. -/
theorem map {f : Nat → Nat} (h : Forest fits outer events)
    (hmap : ∀ s e, fits s e → fits' (s.map f) (e.mapSpan f)) :
    Forest fits' (outer.map f) (events.map (·.mapSpan f)) := by
  induction h with
  | nil => exact .nil
  | leaf hleaf hfits _ ih => exact .leaf hleaf (hmap _ _ hfits) ih
  | @construct outer span tag inner rest hfits _ _ ihinner ihrest =>
    have htree : (wrap tag span inner).map (·.mapSpan f) =
        wrap tag (span.map f) (inner.map (·.mapSpan f)) := by
      simp [wrap, Event.mapSpan]
    rw [List.map_append, htree]
    exact .construct (hmap _ _ hfits) ihinner ihrest

theorem mono (h : Forest fits outer events) (himp : ∀ s e, fits s e → fits' s e) :
    Forest fits' outer events := by
  induction h with
  | nil => exact .nil
  | leaf hleaf hfits _ ih => exact .leaf hleaf (himp _ _ hfits) ih
  | construct hfits _ _ ihinner ihrest => exact .construct (himp _ _ hfits) ihinner ihrest

/-- What holds of the ends of constructs, and of what fits, holds of every event. -/
theorem forall_mem {p : Event → Prop} (h : Forest fits outer events)
    (hfits : ∀ s e, fits s e → p e) (hstop : ∀ tag span, p ⟨.stop tag, span⟩) :
    ∀ e ∈ events, p e := by
  induction h with
  | nil => exact List.forall_mem_nil _
  | leaf _ hfit _ ih => exact List.forall_mem_cons.2 ⟨hfits _ _ hfit, ih⟩
  | construct hfit _ _ ihinner ihrest =>
    rw [wrap_append]
    exact List.forall_mem_cons.2 ⟨hfits _ _ hfit,
      List.forall_mem_append.2 ⟨ihinner, List.forall_mem_cons.2 ⟨hstop _ _, ihrest⟩⟩⟩

/-- What begins with the start of a construct goes on with its content and its end. -/
theorem closes {before : List Event} (h : Forest fits outer events)
    (hsplit : events = before ++ ⟨.start tag, span⟩ :: rest) :
    (∃ s, fits s ⟨.start tag, span⟩) ∧
      ∃ inner after, rest = inner ++ ⟨.stop tag, span⟩ :: after ∧ Forest fits span inner := by
  induction h generalizing before rest with
  | nil => simp at hsplit
  | @leaf outer e later hleaf hfits hrest ih =>
    cases before with
    | nil =>
      obtain ⟨rfl, -⟩ := List.cons.inj hsplit
      cases hleaf
    | cons b before => exact ih (List.cons.inj hsplit).2
  | @construct outer whole tag' inner later hfits hinner hrest ihinner ihrest =>
    rw [wrap_append] at hsplit
    cases before with
    | nil =>
      obtain ⟨hstart, rfl⟩ := List.cons.inj hsplit
      simp only [Event.mk.injEq, EventKind.start.injEq] at hstart
      obtain ⟨rfl, rfl⟩ := hstart
      exact ⟨⟨outer, hfits⟩, inner, later, rfl, hinner⟩
    | cons b before =>
      obtain ⟨piece, rfl, hpiece⟩ | ⟨piece, rfl, hpiece⟩ :=
        List.append_eq_append_iff.1 (List.cons.inj hsplit).2
      · -- no start is the end of the construct, so that this one is behind it
        cases piece with
        | nil => simp at hpiece
        | cons b piece => exact ihrest (List.cons.inj hpiece).2
      · cases piece with
        | nil => simp at hpiece
        | cons b piece =>
          obtain ⟨rfl, rfl⟩ := List.cons.inj hpiece
          obtain ⟨hfits, inmost, after, rfl, hinmost⟩ := ihinner rfl
          exact ⟨hfits, inmost, after ++ ⟨.stop tag', whole⟩ :: later, List.append_assoc _ _ _,
            hinmost⟩

end Forest

end MarkdownPreview.Markdown
