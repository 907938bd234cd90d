import Mathlib.Data.List.Infix
import MarkdownPreview.Proofs.Text.Sorting
import MarkdownPreview.Proofs.Writer.Totality

/-! Event streams one after another. What the writer keeps between events is how many links and
images and how many quotations are open, and of the open links what it has learned. A stream that
closes what it opens leaves nothing of it behind, however deep its constructs were nested, so that
the events after it are written as if they stood alone. -/

namespace MarkdownPreview.Writer

open Text Syntax
open Markdown (Event)

/-! ### Balanced streams -/

/-- The event opens a link or an image. -/
def opensLink (e : Event) : Bool := e.kind == .start .link || e.kind == .start .image

/-- The event closes a link or an image. -/
def closesLink (e : Event) : Bool := e.kind == .stop .link || e.kind == .stop .image

def opensQuote (e : Event) : Bool := e.kind == .start .blockquote

def closesQuote (e : Event) : Bool := e.kind == .stop .blockquote

/-- On the way nothing is closed that was not opened before, and in the end nothing is left open. -/
structure Balanced (opens closes : Event → Bool) (events : List Event) : Prop where
  covered : ∀ before, before <+: events → before.countP closes ≤ before.countP opens
  settled : events.countP closes = events.countP opens

instance (opens closes : Event → Bool) (events : List Event) :
    Decidable (Balanced opens closes events) :=
  decidable_of_iff
    ((∀ before ∈ events.inits, before.countP closes ≤ before.countP opens) ∧
      events.countP closes = events.countP opens)
    ⟨fun h => ⟨fun before hb => h.1 before ((List.mem_inits _ _).2 hb), h.2⟩,
      fun h => ⟨fun before hb => h.covered before ((List.mem_inits _ _).1 hb), h.settled⟩⟩

/-! ### Depth -/

/-- The depth goes up by one where the walk opens something and down by one, but not below zero,
where it closes something. No event does both. -/
structure Counts (depth : Walk → Nat) (opens closes : Event → Bool) : Prop where
  apart : ∀ e, opens e = true → closes e = false
  step : ∀ w e, depth (w.step e) =
    if opens e then depth w + 1 else if closes e then depth w - 1 else depth w

theorem Counts.step_add {depth : Walk → Nat} {opens closes : Event → Bool}
    (hcounts : Counts depth opens closes) {w : Walk} {e : Event}
    (h : [e].countP closes ≤ depth w + [e].countP opens) :
    depth (w.step e) + [e].countP closes = depth w + [e].countP opens := by
  rw [hcounts.step w e]
  cases hopen : opens e with
  | true => simp [hopen, hcounts.apart e hopen]
  | false =>
    cases hclose : closes e with
    | false => simp [hopen, hclose]
    | true =>
      simp [hopen, hclose] at h ⊢
      omega

/-- Over a run that never closes more than is open, what was opened and not closed is open at the
end, on top of what was open before. -/
theorem Counts.foldl_step {depth : Walk → Nat} {opens closes : Event → Bool}
    (hcounts : Counts depth opens closes) {events : List Event} {w : Walk}
    (h : ∀ before, before <+: events → before.countP closes ≤ depth w + before.countP opens) :
    depth (events.foldl Walk.step w) + events.countP closes =
      depth w + events.countP opens := by
  induction events generalizing w with
  | nil => rfl
  | cons e rest ih =>
    have hcons (p : Event → Bool) (l : List Event) :
        (e :: l).countP p = [e].countP p + l.countP p := by
      rw [← List.countP_append, List.singleton_append]
    have hone := hcounts.step_add (h [e] ⟨rest, rfl⟩)
    have hrest : ∀ before, before <+: rest →
        before.countP closes ≤ depth (w.step e) + before.countP opens := by
      intro before hbefore
      have hwhole := h (e :: before) (List.cons_prefix_cons.2 ⟨rfl, hbefore⟩)
      rw [hcons closes before, hcons opens before] at hwhole
      omega
    have hrun := ih hrest
    rw [List.foldl_cons, hcons closes rest, hcons opens rest]
    omega

/-- After a balanced stream, nothing of it is open. -/
theorem Balanced.depth_eq_zero {depth : Walk → Nat} {opens closes : Event → Bool}
    {events : List Event} (h : Balanced opens closes events)
    (hcounts : Counts depth opens closes) (hzero : depth {} = 0) :
    depth (events.foldl Walk.step {}) = 0 := by
  have hcovered : ∀ before, before <+: events →
      before.countP closes ≤ depth {} + before.countP opens := fun before hbefore => by
    rw [hzero, Nat.zero_add]
    exact h.covered before hbefore
  have hrun := hcounts.foldl_step hcovered
  have := h.settled
  omega

theorem Walk.length_links_observe (w : Walk) (e : Event) :
    (w.observe e).links.length = w.links.length := by
  simp only [Walk.observe]
  split
  · rfl
  · split
    next hlinks => rw [hlinks]
    next hlinks => rw [hlinks, List.length_cons, List.length_cons]

theorem Walk.quotes_observe (w : Walk) (e : Event) : (w.observe e).quotes = w.quotes := by
  simp only [Walk.observe]
  split
  · rfl
  · split <;> rfl

theorem counts_links : Counts (·.links.length) opensLink closesLink := by
  refine ⟨fun e => ?_, fun w e => ?_⟩
  · simp only [opensLink, closesLink, Bool.or_eq_true, beq_iff_eq]
    rintro (h | h) <;> simp [h]
  · have hobserve := w.length_links_observe e
    simp only [Walk.step, opensLink, closesLink]
    split <;> simp_all

theorem counts_quotes : Counts (·.quotes.depth) opensQuote closesQuote := by
  refine ⟨fun e => ?_, fun w e => ?_⟩
  · simp only [opensQuote, closesQuote, beq_iff_eq]
    rintro h
    simp [h]
  · have hobserve := w.quotes_observe e
    simp only [Walk.step, opensQuote, closesQuote]
    split <;> simp_all [QuoteDepth.enter, QuoteDepth.leave]

/-- A balanced stream leads the writer back to where it started. -/
theorem foldl_step_of_balanced {events : List Event}
    (hlinks : Balanced opensLink closesLink events)
    (hquotes : Balanced opensQuote closesQuote events) :
    events.foldl Walk.step {} = {} := by
  have hlength := hlinks.depth_eq_zero counts_links rfl
  have hdepth := hquotes.depth_eq_zero counts_quotes rfl
  cases hw : events.foldl Walk.step {} with
  | mk links quotes =>
    rw [hw] at hlength hdepth
    obtain rfl := List.length_eq_zero_iff.1 hlength
    obtain ⟨depth⟩ := quotes
    exact congrArg (fun d => Walk.mk [] ⟨d⟩) hdepth

/-! ### Concatenation -/

variable {source : List Char} {options : Options} {first second : List Event}
  {ds es : List Decoration}

theorem emitAll_append {w : Walk} (hfirst : emitAll source options w first = .ok ds)
    (hsecond : emitAll source options (first.foldl Walk.step w) second = .ok es) :
    emitAll source options w (first ++ second) = .ok (ds ++ es) := by
  induction first generalizing w ds with
  | nil =>
    obtain rfl := Except.ok.inj hfirst
    exact hsecond
  | cons e rest ih =>
    obtain ⟨now, later, hnow, hlater, rfl⟩ := emitAll_cons_eq_ok_iff.1 hfirst
    rw [List.cons_append, emitAll_cons_eq_ok_iff]
    exact ⟨now, later ++ es, hnow, ih hlater hsecond, List.append_assoc now later es⟩

theorem sortByStart_append (ds es : List Decoration) :
    sortByStart (sortByStart ds ++ sortByStart es) = sortByStart (ds ++ es) := by
  refine stableSort_append_stableSort (fun a b c hab hbc => ?_) (fun a b => ?_) ds es
  · simp only [decide_eq_true_eq] at *
    omega
  · simp only [decide_eq_true_eq]
    omega

/-- Without bracket math, a stream that closes its links, images and quotations gives the same
decorations whatever follows it, and what follows gives the same as alone. The two are only put in
order together. -/
theorem write_append (source : List Char) (options : Options) (first second : List Event)
    (hoff : options.latexBrackets = false)
    (hfirst : ∀ e ∈ first, Within source e.span) (hsecond : ∀ e ∈ second, Within source e.span)
    (hlinks : Balanced opensLink closesLink first)
    (hquotes : Balanced opensQuote closesQuote first) :
    ∃ ds es, write source options first = .ok ds ∧ write source options second = .ok es ∧
      write source options (first ++ second) = .ok (sortByStart (ds ++ es)) := by
  obtain ⟨ds, -, hds, -⟩ := write_eq options hfirst
  obtain ⟨es, -, hes, -⟩ := write_eq options hsecond
  have hback := foldl_step_of_balanced hlinks hquotes
  have hboth := emitAll_append hds (hback ▸ hes)
  refine ⟨_, _, write_of_emitAll hoff hds, write_of_emitAll hoff hes, ?_⟩
  rw [write_of_emitAll hoff hboth, sortByStart_append]

/-- A quotation with an image inside a link, and after it a quotation and a link that is not
closed. -/
theorem write_append_nested :
    let source := ['>', '[', '!', '[', 'a', ']', '(', ')', ']', '(', ')', '\n', '>', '[', 'b', ']']
    let options : Options := { latexBrackets := false }
    let first : List Event := [⟨.start .blockquote, ⟨0, 12⟩⟩, ⟨.start .link, ⟨1, 11⟩⟩,
      ⟨.start .image, ⟨2, 8⟩⟩, ⟨.text, ⟨4, 5⟩⟩, ⟨.stop .image, ⟨2, 8⟩⟩, ⟨.stop .link, ⟨1, 11⟩⟩,
      ⟨.stop .blockquote, ⟨0, 12⟩⟩]
    let second : List Event := [⟨.start .blockquote, ⟨12, 16⟩⟩, ⟨.start .link, ⟨13, 16⟩⟩]
    options.latexBrackets = false ∧ (∀ e ∈ first, Within source e.span) ∧
    (∀ e ∈ second, Within source e.span) ∧ Balanced opensLink closesLink first ∧
    Balanced opensQuote closesQuote first ∧
    ∃ ds es, write source options first = .ok ds ∧ write source options second = .ok es ∧
      write source options (first ++ second) = .ok (sortByStart (ds ++ es)) :=
  ⟨by decide, by decide, by decide, by decide, by decide,
    write_append _ _ _ _ (by decide) (by decide) (by decide) (by decide) (by decide)⟩

end MarkdownPreview.Writer
