import Mathlib.Data.List.Pairwise
import MarkdownPreview.Proofs.Markdown.BlockEvents
import MarkdownPreview.Proofs.Text.Occurrence

/-! Quotations in an event stream. A quotation is closed after all that is inside it, and of two
quotations one is inside the other or behind it. Those that are open in no other one follow one
another, and each quotation is in just one of them. -/

namespace MarkdownPreview.Markdown

open Text

variable {marked marked' : Nat → Prop} {lo mid hi depth : Nat} {events rest : List Event}

/-! ### Quotations as forests -/

theorem mem_wrap_append {span whole : Span} {inner : List Event} :
    ⟨.start .blockquote, span⟩ ∈ wrap .blockquote whole inner ++ rest ↔
      span = whole ∨ ⟨.start .blockquote, span⟩ ∈ inner ∨ ⟨.start .blockquote, span⟩ ∈ rest := by
  simp [wrap]

/-- Quotations one after another from one position to another, each from a marked position on. What
other events there are does not matter. -/
inductive QuoteForest (marked : Nat → Prop) : Nat → Nat → List Event → Prop
  | nil {lo hi : Nat} (h : lo ≤ hi) : QuoteForest marked lo hi []
  | other {lo hi : Nat} {e : Event} {rest : List Event} (he : e.kind.isQuote = false)
      (hrest : QuoteForest marked lo hi rest) : QuoteForest marked lo hi (e :: rest)
  | quote {lo hi : Nat} {span : Span} {inner rest : List Event} (hlo : lo ≤ span.start)
      (hmarked : marked span.start) (hinner : QuoteForest marked (span.start + 1) span.stop inner)
      (hrest : QuoteForest marked span.stop hi rest) :
      QuoteForest marked lo hi (wrap .blockquote span inner ++ rest)

namespace QuoteForest

theorem le (h : QuoteForest marked lo hi events) : lo ≤ hi := by
  induction h with
  | nil h => exact h
  | other _ _ ih => exact ih
  | quote => omega

theorem of_le (h : QuoteForest marked mid hi events) (hlo : lo ≤ mid) :
    QuoteForest marked lo hi events := by
  induction h with
  | nil h => exact .nil (hlo.trans h)
  | other he _ ih => exact .other he (ih hlo)
  | quote hstart hmarked hinner hrest => exact .quote (hlo.trans hstart) hmarked hinner hrest

theorem append (h : QuoteForest marked lo mid events) (hrest : QuoteForest marked mid hi rest) :
    QuoteForest marked lo hi (events ++ rest) := by
  induction h with
  | nil h => exact hrest.of_le h
  | other he _ ih => exact .other he (ih hrest)
  | quote hstart hmarked hinner _ _ ih =>
    rw [List.append_assoc]
    exact .quote hstart hmarked hinner (ih hrest)

theorem others (h : ∀ e ∈ events, e.kind.isQuote = false) (hle : lo ≤ hi) :
    QuoteForest marked lo hi events := by
  induction events with
  | nil => exact .nil hle
  | cons e rest ih =>
    obtain ⟨he, hrest⟩ := List.forall_mem_cons.1 h
    exact .other he (ih hrest)

/-- Other coordinates in the same order, in which a marker is one position long. -/
theorem map {f : Nat → Nat} (hmono : ∀ a b, a ≤ b → f a ≤ f b)
    (hmarked : ∀ n, marked n → marked' (f n) ∧ f (n + 1) = f n + 1)
    (h : QuoteForest marked lo hi events) :
    QuoteForest marked' (f lo) (f hi) (events.map (·.mapSpan f)) := by
  induction h with
  | nil h => exact .nil (hmono _ _ h)
  | other he _ ih => exact .other he ih
  | @quote _ _ span inner rest hlo hmark _ _ ihinner ihrest =>
    obtain ⟨hmark, hnext⟩ := hmarked _ hmark
    have htree : (wrap .blockquote span inner).map (·.mapSpan f) =
        wrap .blockquote (span.map f) (inner.map (·.mapSpan f)) := by
      simp [wrap, Event.mapSpan]
    rw [List.map_append, htree]
    exact .quote (hmono _ _ hlo) hmark (hnext ▸ ihinner) ihrest

/-- A quotation begins at a marked position, and covers it. -/
theorem bounds (h : QuoteForest marked lo hi events) {span : Span}
    (hmem : ⟨.start .blockquote, span⟩ ∈ events) :
    marked span.start ∧ lo ≤ span.start ∧ span.start < span.stop ∧ span.stop ≤ hi := by
  induction h with
  | nil => cases hmem
  | other he _ ih =>
    obtain rfl | hmem := List.mem_cons.1 hmem
    · cases he
    · exact ih hmem
  | @quote _ _ whole inner rest hlo hmarked hinner hrest ihinner ihrest =>
    have hle := hinner.le
    have hle' := hrest.le
    obtain rfl | hmem | hmem := mem_wrap_append.1 hmem
    · exact ⟨hmarked, hlo, by omega, by omega⟩
    · obtain ⟨hmark, hstart, hlt, hstop⟩ := ihinner hmem
      exact ⟨hmark, by omega, hlt, by omega⟩
    · obtain ⟨hmark, hstart, hlt, hstop⟩ := ihrest hmem
      exact ⟨hmark, by omega, hlt, hstop⟩

end QuoteForest

/-! ### Outermost quotations -/

/-- The quotations that open while no other one is open, when there are some open at first. -/
def outermostQuotes : Nat → List Event → List Span
  | _, [] => []
  | depth, e :: rest =>
    match e.kind with
    | .start .blockquote =>
      (if depth = 0 then [e.span] else []) ++ outermostQuotes (depth + 1) rest
    | .stop .blockquote => outermostQuotes (depth - 1) rest
    | _ => outermostQuotes depth rest

theorem outermostQuotes_cons {e : Event} (h : e.kind.isQuote = false) :
    outermostQuotes depth (e :: rest) = outermostQuotes depth rest := by
  rw [outermostQuotes]
  split <;> simp_all [EventKind.isQuote]

theorem outermostQuotes_wrap (depth : Nat) (span : Span) (inner rest : List Event) :
    outermostQuotes depth (wrap .blockquote span inner ++ rest) =
      (if depth = 0 then [span] else []) ++
        outermostQuotes (depth + 1) (inner ++ ⟨.stop .blockquote, span⟩ :: rest) := by
  rw [wrap_append]
  rfl

theorem mem_of_mem_outermostQuotes {span : Span} (h : span ∈ outermostQuotes depth events) :
    ⟨.start .blockquote, span⟩ ∈ events := by
  fun_induction outermostQuotes depth events with
  | case1 => cases h
  | case2 depth e rest hkind ih =>
    obtain h | h := List.mem_append.1 h
    · split at h
      · obtain rfl := List.mem_singleton.1 h
        exact hkind ▸ List.mem_cons_self
      · cases h
    · exact List.mem_cons_of_mem _ (ih h)
  | case3 _ _ _ _ ih | case4 _ _ _ _ _ ih => exact List.mem_cons_of_mem _ (ih h)

namespace QuoteForest

/-- Inside a quotation no other one is outermost, and after a row of quotations as many are open as
before. -/
theorem outermostQuotes_append (h : QuoteForest marked lo hi events) (depth : Nat)
    (rest : List Event) :
    outermostQuotes (depth + 1) (events ++ rest) = outermostQuotes (depth + 1) rest := by
  induction h generalizing depth rest with
  | nil => rfl
  | other he _ ih => rw [List.cons_append, outermostQuotes_cons he, ih]
  | quote _ _ _ _ ihinner ihrest =>
    rw [List.append_assoc, outermostQuotes_wrap, if_neg (Nat.succ_ne_zero depth), ihinner]
    exact ihrest depth rest

theorem outermostQuotes_quote {span : Span} {inner : List Event}
    (hinner : QuoteForest marked lo hi inner) (rest : List Event) :
    outermostQuotes 0 (wrap .blockquote span inner ++ rest) = span :: outermostQuotes 0 rest := by
  rw [outermostQuotes_wrap, if_pos rfl, hinner.outermostQuotes_append]
  rfl

theorem pairwise_outermostQuotes (h : QuoteForest marked lo hi events) :
    (outermostQuotes 0 events).Pairwise (·.stop ≤ ·.start) := by
  induction h with
  | nil => exact .nil
  | other he _ ih => rwa [outermostQuotes_cons he]
  | quote _ _ hinner hrest _ ih =>
    rw [hinner.outermostQuotes_quote]
    exact .cons (fun t ht => (hrest.bounds (mem_of_mem_outermostQuotes ht)).2.1) ih

/-- Every quotation is in an outermost one. -/
theorem exists_mem_outermostQuotes (h : QuoteForest marked lo hi events) {span : Span}
    (hmem : ⟨.start .blockquote, span⟩ ∈ events) :
    ∃ outer ∈ outermostQuotes 0 events, outer.start ≤ span.start ∧ span.stop ≤ outer.stop := by
  induction h with
  | nil => cases hmem
  | other he _ ih =>
    obtain rfl | hmem := List.mem_cons.1 hmem
    · cases he
    · rw [outermostQuotes_cons he]
      exact ih hmem
  | @quote _ _ whole inner rest _ _ hinner _ _ ihrest =>
    rw [hinner.outermostQuotes_quote]
    obtain rfl | hmem | hmem := mem_wrap_append.1 hmem
    · exact ⟨span, List.mem_cons_self, Nat.le_refl _, Nat.le_refl _⟩
    · obtain ⟨-, hstart, -, hstop⟩ := hinner.bounds hmem
      exact ⟨whole, List.mem_cons_self, by omega, hstop⟩
    · obtain ⟨outer, houter, hle⟩ := ihrest hmem
      exact ⟨outer, List.mem_cons_of_mem _ houter, hle⟩

/-- Two outermost quotations that share a position are the same. -/
theorem eq_of_overlap (h : QuoteForest marked lo hi events) {s t : Span}
    (hs : s ∈ outermostQuotes 0 events) (ht : t ∈ outermostQuotes 0 events) {p : Nat}
    (hsp : s.contains p = true) (htp : t.contains p = true) : s = t := by
  have hpairs := h.pairwise_outermostQuotes
  have hst : s = t ∨ s.stop ≤ t.start ∨ t.stop ≤ s.start :=
    List.Pairwise.forall_of_forall_of_flip (R := fun s t => s = t ∨ s.stop ≤ t.start ∨
      t.stop ≤ s.start) (fun _ _ => .inl rfl) (hpairs.imp fun h => .inr (.inl h))
      (hpairs.imp fun h => .inr (.inr h)) hs ht
  refine hst.resolve_right fun hapart => ?_
  rw [Span.contains_iff] at hsp htp
  omega

/-- No other quotation is around an outermost one. -/
theorem eq_of_encloses (h : QuoteForest marked lo hi events) {outer other : Span}
    (houter : outer ∈ outermostQuotes 0 events) (hother : ⟨.start .blockquote, other⟩ ∈ events)
    (hencloses : other.encloses outer = true) : other = outer := by
  obtain ⟨whole, hwhole, hstart, hstop⟩ := h.exists_mem_outermostQuotes hother
  obtain ⟨-, -, hlt, -⟩ := h.bounds (mem_of_mem_outermostQuotes houter)
  rw [Span.encloses_iff] at hencloses
  obtain rfl := h.eq_of_overlap (p := outer.start) hwhole houter
    (Span.contains_iff.2 (by omega)) (Span.contains_iff.2 (by omega))
  obtain ⟨start, stop⟩ := other
  obtain ⟨start', stop'⟩ := whole
  simp only [Span.mk.injEq] at *
  omega

end QuoteForest

/-! ### Documents -/

/-- A character starts at a byte of the source, and it is a quote marker. -/
def MarkerAt (source : List Char) (pos : Nat) : Prop :=
  ∃ before after, source = before ++ '>' :: after ∧ byteLength before = pos

theorem isQuote_of_isLeaf {kind : EventKind} (h : kind.isLeaf = true) : kind.isQuote = false := by
  cases kind with
  | start | stop => cases h
  | _ => rfl

theorem isQuote_of_ne {tag : Tag} (h : tag ≠ .blockquote) :
    (EventKind.start tag).isQuote = false ∧ (EventKind.stop tag).isQuote = false := by
  cases tag with
  | blockquote => exact absurd rfl h
  | _ => exact ⟨rfl, rfl⟩

theorem ne_blockquote_of_isBare {tag : Tag} (h : (EventKind.start tag).isBare = true) :
    tag ≠ .blockquote := by
  rintro rfl
  cases h

theorem Forest.isQuote_eq_false {fits : Span → Event → Prop} {outer : Span}
    (h : Forest fits outer events) (hfits : ∀ s span, ¬ fits s ⟨.start .blockquote, span⟩) :
    ∀ e ∈ events, e.kind.isQuote = false := by
  induction h with
  | nil => exact List.forall_mem_nil _
  | leaf hleaf _ _ ih => exact List.forall_mem_cons.2 ⟨isQuote_of_isLeaf hleaf, ih⟩
  | @construct _ _ tag _ _ hfit _ _ ihinner ihrest =>
    have htag : tag ≠ .blockquote := by
      rintro rfl
      exact hfits _ _ hfit
    obtain ⟨hstart, hstop⟩ := isQuote_of_ne htag
    rw [wrap_append]
    exact List.forall_mem_cons.2 ⟨hstart,
      List.forall_mem_append.2 ⟨ihinner, List.forall_mem_cons.2 ⟨hstop, ihrest⟩⟩⟩

theorem Bare.isQuote_eq_false (h : Bare events) : ∀ e ∈ events, e.kind.isQuote = false :=
  (h ⟨0, 0⟩).isQuote_eq_false fun _ _ hbare => Bool.false_ne_true hbare

theorem Leaf.LiesIn.isQuote_eq_false {source : List Char} {definitions : Definitions} {l : Leaf}
    (h : l.LiesIn source lo hi) : ∀ e ∈ l.events source definitions, e.kind.isQuote = false := by
  have hinner : ∀ e ∈ inlineEvents source definitions l, e.kind.isQuote = false :=
    (h.inlineForest ⟨0, 0⟩).isQuote_eq_false fun _ _ hinline => Bool.false_ne_true (hinline.1 _ rfl)
  rw [Leaf.events]
  split
  next tag htag =>
    have hne : tag ≠ .blockquote := by
      obtain hbare | ⟨hheading, -⟩ := h.tag tag htag
      · exact ne_blockquote_of_isBare hbare
      · rintro rfl
        cases hheading
    obtain ⟨hstart, hstop⟩ := isQuote_of_ne hne
    exact List.forall_mem_append.2 ⟨List.forall_mem_cons.2 ⟨hstart, hinner⟩,
      List.forall_mem_singleton.2 hstop⟩
  · exact hinner

/-- The events of blocks have the quotations of the blocks. -/
theorem BlocksIn.quoteForest {source : List Char} {bs : List Block} (h : BlocksIn source lo hi bs)
    (definitions : Definitions) : QuoteForest (source[·]? = some '>') lo hi
      (blockEvents source definitions bs) := by
  induction h with
  | nil h => exact .nil h
  | quote hlo hmarker _ _ ihcontent ihrest =>
    rw [blockEvents, Block.events]
    exact .quote hlo hmarker ihcontent ihrest
  | container htag _ _ ihcontent ihrest =>
    obtain ⟨hstart, hstop⟩ := isQuote_of_ne (ne_blockquote_of_isBare htag)
    rw [blockEvents, Block.events, wrap_append]
    exact .other hstart (ihcontent.append (.other hstop ihrest))
  | leaf hleaf _ ih =>
    rw [blockEvents, Block.events]
    exact (QuoteForest.others hleaf.isQuote_eq_false hleaf.lo_le_hi).append ih
  | fence hlo hread _ ih =>
    rw [blockEvents, Block.events, wrap_append]
    exact .other rfl ((QuoteForest.others hread.bare.isQuote_eq_false
      (hlo.trans hread.le)).append (.other rfl ih))
  | bare hevents _ ih =>
    rw [blockEvents, Block.events]
    exact (QuoteForest.others hevents.isQuote_eq_false (Nat.le_refl _)).append ih

/-- A marker is one byte long. -/
theorem markerAt_byteOffset {source : List Char} {n : Nat} (h : source[n]? = some '>') :
    MarkerAt source (byteOffset source n) ∧
      byteOffset source (n + 1) = byteOffset source n + 1 := by
  obtain ⟨hlt, hmarker⟩ := List.getElem?_eq_some_iff.1 h
  obtain ⟨before, after, hsource, rfl⟩ : ∃ before after, source = before ++ '>' :: after ∧
      before.length = n := by
    refine ⟨source.take n, source.drop (n + 1), ?_, List.length_take_of_le (Nat.le_of_lt hlt)⟩
    rw [← hmarker, List.getElem_cons_drop, List.take_append_drop]
  have hstart : byteOffset source before.length = byteLength before := by
    rw [hsource, byteOffset_append]
  refine ⟨⟨before, after, hsource, hstart.symm⟩, ?_⟩
  have hstop := byteOffset_append (before ++ ['>']) after
  rw [List.length_append, byteLength_append] at hstop
  rw [hstart, hsource, List.append_cons]
  exact hstop

/-- The quotations of a document follow one another or are inside one another, and each begins with
its marker. -/
theorem readEvents_quoteForest (d : Dialect) (source : List Char) :
    ∃ stop, QuoteForest (MarkerAt source) 0 stop (readEvents d source) := by
  obtain ⟨stop, h⟩ := readOutline_blocksIn d source
  have hbytes := (h.quoteForest (readOutline d source).definitions).map
    (fun _ _ => byteOffset_mono source) fun _ => markerAt_byteOffset
  exact ⟨_, hbytes.of_le (Nat.zero_le _)⟩

end MarkdownPreview.Markdown
