import MarkdownPreview.Proofs.Writer.Fits

/-! Links and images over a run of the writer. What an open link knows of the end of its text is
either no more than that the opener is over, or the end of some event inside it. This is kept by
every step, so that the text of a link never ends inside a character or before it starts. -/

namespace MarkdownPreview.Writer

open Text Syntax
open Markdown (Event)

variable {source : List Char} {aligned : Prop}

/-- Both ends of the link are between characters, and so is the end of its text once that is past
the opener. -/
structure LinkFrame.AlignedIn (source : List Char) (f : LinkFrame) : Prop where
  span : Aligned source f.span
  content : f.contentStop ≤ f.span.start + (LinkFrame.opener f.isImage).length ∨
    Boundary source f.contentStop

def Walk.AlignedIn (source : List Char) (w : Walk) : Prop := ∀ f ∈ w.links, f.AlignedIn source

/-! ### Steps -/

theorem LinkFrame.alignedIn_ofSpan {span : Span} (h : Aligned source span) (isImage : Bool) :
    (LinkFrame.ofSpan span isImage).AlignedIn source :=
  ⟨h, .inl (Nat.min_le_left _ _)⟩

theorem LinkFrame.AlignedIn.observe {f : LinkFrame} (hf : f.AlignedIn source) {inner : Span}
    (hi : Boundary source inner.stop) : (f.observe inner).AlignedIn source := by
  simp only [LinkFrame.observe]
  split
  · refine ⟨hf.span, ?_⟩
    by_cases hle : f.contentStop ≤ inner.stop
    · exact .inr (by simpa [Nat.max_eq_right hle] using hi)
    · simpa [Nat.max_eq_left (Nat.le_of_not_le hle)] using hf.content
  · exact hf

theorem Walk.AlignedIn.observe {w : Walk} (hw : w.AlignedIn source) {e : Event}
    (he : Aligned source e.span) : (w.observe e).AlignedIn source := by
  simp only [Walk.observe]
  split
  · exact hw
  · split
    · exact hw
    next f fs hlinks =>
      rw [Walk.AlignedIn, hlinks] at hw
      obtain ⟨hf, hfs⟩ := List.forall_mem_cons.1 hw
      exact List.forall_mem_cons.2 ⟨hf.observe he.2, hfs⟩

/-- One event keeps the open links aligned. -/
theorem Walk.AlignedIn.step {w : Walk} (hw : w.AlignedIn source) {e : Event}
    (he : Aligned source e.span) : (w.step e).AlignedIn source := by
  have ho := hw.observe he
  simp only [Walk.step]
  split
  · exact ho
  · exact List.forall_mem_cons.2 ⟨LinkFrame.alignedIn_ofSpan he false, ho⟩
  · exact List.forall_mem_cons.2 ⟨LinkFrame.alignedIn_ofSpan he true, ho⟩
  · exact ho
  · exact fun f hf => ho f (List.mem_of_mem_tail hf)
  · exact fun f hf => ho f (List.mem_of_mem_tail hf)
  · exact ho

/-! ### Spans -/

/-- What an open link is from its start on, whatever is learned of its text. -/
def LinkFrame.fixed (f : LinkFrame) : Span × Bool := (f.span, f.isImage)

theorem LinkFrame.fixed_observe (f : LinkFrame) (inner : Span) :
    (f.observe inner).fixed = f.fixed := by
  unfold observe
  split <;> rfl

theorem Walk.fixed_observe (w : Walk) (e : Event) :
    (w.observe e).links.map LinkFrame.fixed = w.links.map LinkFrame.fixed := by
  unfold observe
  split
  · rfl
  · split
    next hlinks => rw [hlinks]
    next f fs hlinks => rw [hlinks, List.map_cons, List.map_cons, LinkFrame.fixed_observe]

/-! ### Closing -/

theorem runLength_one {c : Char} {text : List Char} (h : text.head? = some c) :
    runLength (· == c) 1 text = 1 := by
  obtain ⟨rest, rfl⟩ := List.head?_eq_some_iff.1 h
  rw [runLength, List.takeWhile_cons_of_pos (by simp), List.length_cons]
  omega

theorem runLengthAtEnd_one {c : Char} {text : List Char} (h : text.getLast? = some c) :
    runLengthAtEnd (· == c) 1 text = 1 := runLength_one (List.head?_reverse ▸ h)

theorem byteLength_opener (isImage : Bool) :
    byteLength (LinkFrame.opener isImage) = (LinkFrame.opener isImage).length := by
  cases isImage <;> rfl

/-- The opener of a link ends within the link, and between characters. -/
theorem opener_ends {f : LinkFrame}
    (h : (LinkFrame.opener f.isImage).isPrefixOf (raw source f.span) = true) :
    f.span.start + (LinkFrame.opener f.isImage).length ≤ f.span.stop ∧
      Boundary source (f.span.start + (LinkFrame.opener f.isImage).length) := by
  obtain ⟨rest, hrest⟩ := List.isPrefixOf_iff_prefix.1 h
  have hne : LinkFrame.opener f.isImage ++ rest ≠ [] := by
    cases f.isImage <;> simp [LinkFrame.opener]
  have hstop := stop_eq_of_raw_ne_nil (hrest ▸ hne)
  have hboundary := (hrest ▸ standsAt_raw source f.span).boundary_inside hne
  rw [← hrest, byteLength_append, byteLength_opener] at hstop
  rw [byteLength_opener] at hboundary
  exact ⟨by omega, hboundary⟩

/-- Neither form of a link is too short for what is taken from its ends. -/
theorem finishLink_eq (source : List Char) (f : LinkFrame) :
    let text := raw source f.span
    let kind : Decoration.Kind := if f.isImage then .image else .link
    let textStart := f.span.start + (LinkFrame.opener f.isImage).length
    finishLink source f = .ok (
      if 2 ≤ byteLength text ∧ text.head? = some '<' ∧ text.getLast? = some '>' then
        surround source f.span ⟨f.span.start + 1, f.span.stop - 1⟩ kind
      else if (LinkFrame.opener f.isImage).isPrefixOf text then
        surround source f.span
          ⟨textStart, min (max f.contentStop textStart) f.span.stop⟩ kind
      else mark source f.span kind) := by
  have hstop := byteLength_raw_le_stop source f.span
  simp only [finishLink]
  split
  next h => exact delimited_of_le 1 _ (by omega)
  · split
    next hopener =>
      rw [clampOffset_of_le (opener_ends hopener).1]
      rfl
    · rfl

/-- A link that is closed has its text between its opener and its end. -/
theorem finishLink_fits {f : LinkFrame} (ha : aligned → f.AlignedIn source) :
    ∃ ds, finishLink source f = .ok ds ∧ AllFit source aligned ds := by
  have hkind : (if f.isImage then Decoration.Kind.image else .link) ≠ .mathSymbol := by
    split <;> decide
  refine ⟨_, finishLink_eq source f, ?_⟩
  split
  next h =>
    obtain ⟨-, hfirst, hlast⟩ := h
    refine surround_fits hkind (fun h => ?_) (fun h => ?_) fun h => (ha h).span.2
    · have := boundary_opening (ha h).span (oneByte_beq (c := '<') rfl) 1
      rwa [runLength_one hfirst] at this
    · have := boundary_closing (ha h).span (oneByte_beq (c := '>') rfl) 1
      rwa [runLengthAtEnd_one hlast] at this
  · split
    next hopener =>
      obtain ⟨hend, htext⟩ := opener_ends hopener
      refine surround_fits hkind (fun _ => htext) (fun h => ?_) fun h => (ha h).span.2
      -- the end of the text is that of the opener, that of the link, or what was learned inside
      obtain hle | hb := (ha h).content
      · rw [Nat.max_eq_right hle, Nat.min_eq_left hend]
        exact htext
      · obtain hle | hle := Nat.le_total f.contentStop
          (f.span.start + (LinkFrame.opener f.isImage).length)
        · rw [Nat.max_eq_right hle, Nat.min_eq_left hend]
          exact htext
        · rw [Nat.max_eq_left hle]
          obtain hle | hle := Nat.le_total f.contentStop f.span.stop
          · rwa [Nat.min_eq_left hle]
          · rw [Nat.min_eq_right hle]
            exact (ha h).span.2
    · exact mark_fits hkind fun h _ => (ha h).span.2

end MarkdownPreview.Writer
