import MarkdownPreview.Markdown.Document
import MarkdownPreview.Proofs.Markdown.FencedCode
import MarkdownPreview.Proofs.Markdown.HeadingLines

/-! Blocks in the order of the source. A quotation begins with its marker and goes on to the block
behind it, and so does fenced code from its fence; inline text lies with its block between the
blocks before and after. Lists, items, footnotes and tables keep what is inside them in order,
whatever their own spans. -/

namespace MarkdownPreview.Markdown

open Text (Span)

variable {source : List Char} {lo mid hi pos : Nat} {events rest : List Event} {span : Span}
  {texts : List Event} {tokens tokens' : List Token} {l : Leaf} {b : Block} {bs cs : List Block}

/-! ### Kinds of events -/

/-- The event opens or closes a quotation. -/
def EventKind.isQuote : EventKind → Bool
  | .start .blockquote | .stop .blockquote => true
  | _ => false

/-- The event has no delimiters, be they hidden or the markers of a quotation. -/
def EventKind.isBare (kind : EventKind) : Bool := !kind.hidesSyntax && !kind.isQuote

def Tag.isHeading : Tag → Bool
  | .heading _ => true
  | _ => false

theorem hidesSyntax_of_isBare {kind : EventKind} (h : kind.isBare = true) :
    kind.hidesSyntax = false := by
  rw [EventKind.isBare, Bool.and_eq_true, Bool.not_eq_true'] at h
  exact h.1

theorem isHeading_of_isBare {tag : Tag} (h : (EventKind.start tag).isBare = true) :
    tag.isHeading = false := by
  cases tag with
  | heading => cases h
  | _ => rfl

/-- The events are trees without delimiters, inside whatever span. -/
def Bare (events : List Event) : Prop :=
  ∀ outer, Forest (fun _ e => e.kind.isBare = true) outer events

theorem Bare.of_kind (kind : EventKind) (hleaf : kind.isLeaf = true) (hbare : kind.isBare = true)
    (h : ∀ e ∈ events, e.kind = kind) : Bare events := by
  refine fun outer => .of_leaves fun e he => ?_
  rw [h e he]
  exact ⟨hleaf, hbare⟩

theorem Bare.hidesSyntax (h : Bare events) : ∀ e ∈ events, e.kind.hidesSyntax = false :=
  (h ⟨0, 0⟩).forall_mem (fun _ _ => hidesSyntax_of_isBare) fun _ _ => rfl

theorem Bare.tree (h : Bare events) {tag : Tag} (htag : (EventKind.start tag).isBare = true)
    (span : Span) : Bare (wrap tag span events) := fun _ => .tree htag (h span)

/-! ### Fenced code -/

/-- The fenced code has been read at a place of the source. -/
def ReadFenced (source : List Char) (span : Span) (texts : List Event) : Prop :=
  ∃ place indent f here, here.On source ∧ indent < 4 ∧ fence? here.rest = some f ∧
    (readFence place indent f here).1 = .plain (wrap .fencedCode span texts)

theorem readFenceLines_text (place : Place) (indent : Nat) (f : Fence) (fuel : Nat)
    (here : Cursor) : ∀ e ∈ (readFenceLines place indent f fuel here).1, e.kind = .text := by
  fun_induction readFenceLines place indent f fuel here with
  | case1 | case2 | case3 => exact List.forall_mem_nil _
  | case4 _ _ _ _ _ _ _ _ _ _ _ _ _ _ _ hread ih =>
    rw [hread] at ih
    exact List.forall_mem_append.2 ⟨fun _ he => (mem_codeText he).1, ih⟩

namespace ReadFenced

theorem text (h : ReadFenced source span texts) : ∀ e ∈ texts, e.kind = .text := by
  obtain ⟨place, indent, f, here, -, -, -, hread⟩ := h
  simp only [readFence] at hread
  obtain ⟨-, rfl⟩ := wrap_inj (Block.plain.inj hread)
  exact readFenceLines_text place indent f _ _

theorem le (h : ReadFenced source span texts) : span.start ≤ span.stop := by
  obtain ⟨_, _, _, _, -, hindent, hfence, hread⟩ := h
  obtain ⟨hstart, body, closing, hlines⟩ := readFence_fenceLines hfence hindent hread
  have hstop := hlines.stop_eq
  simp only [Cursor.ofLine] at hstop
  omega

end ReadFenced

/-! ### Inline text -/

theorem TokensIn.append (h : TokensIn lo hi tokens) (h' : TokensIn lo hi tokens') :
    TokensIn lo hi (tokens ++ tokens') := List.forall_mem_append.2 ⟨h, h'⟩

theorem TokensIn.reverse (h : TokensIn lo hi tokens) : TokensIn lo hi tokens.reverse :=
  fun t ht => h t (List.mem_reverse.1 ht)

/-- A block of inline text lies between two positions with its tokens. It has no delimiters of its
own, or is a heading. -/
structure Leaf.LiesIn (source : List Char) (lo hi : Nat) (l : Leaf) : Prop where
  tag : ∀ tag, l.tag = some tag → (EventKind.start tag).isBare = true ∨
    tag.isHeading = true ∧ HeadingAt source l.span
  span : Between lo hi l.span
  le : l.span.start ≤ l.span.stop
  tokens : TokensIn lo hi l.tokens

theorem Leaf.LiesIn.lo_le_hi (h : l.LiesIn source lo hi) : lo ≤ hi :=
  Nat.le_trans h.span.1 (Nat.le_trans h.le h.span.2)

theorem Leaf.LiesIn.of_le (h : l.LiesIn source mid hi) (hlo : lo ≤ mid) : l.LiesIn source lo hi :=
  ⟨h.tag, h.span.mono hlo (Nat.le_refl hi), h.le, h.tokens.mono hlo (Nat.le_refl hi)⟩

/-! ### Blocks -/

/-- The blocks lie one after another between two positions. -/
inductive BlocksIn (source : List Char) : Nat → Nat → List Block → Prop
  | nil {lo hi : Nat} (h : lo ≤ hi) : BlocksIn source lo hi []
  | quote {lo hi : Nat} {span : Span} {content rest : List Block} (hlo : lo ≤ span.start)
      (hmarker : source[span.start]? = some '>')
      (hcontent : BlocksIn source (span.start + 1) span.stop content)
      (hrest : BlocksIn source span.stop hi rest) :
      BlocksIn source lo hi (.container .blockquote span content :: rest)
  | container {lo mid hi : Nat} {tag : Tag} {span : Span} {content rest : List Block}
      (htag : (EventKind.start tag).isBare = true) (hcontent : BlocksIn source lo mid content)
      (hrest : BlocksIn source mid hi rest) :
      BlocksIn source lo hi (.container tag span content :: rest)
  | leaf {lo mid hi : Nat} {l : Leaf} {rest : List Block} (hleaf : l.LiesIn source lo mid)
      (hrest : BlocksIn source mid hi rest) : BlocksIn source lo hi (.leaf l :: rest)
  | fence {lo hi : Nat} {span : Span} {texts : List Event} {rest : List Block}
      (hlo : lo ≤ span.start) (hread : ReadFenced source span texts)
      (hrest : BlocksIn source span.stop hi rest) :
      BlocksIn source lo hi (.plain (wrap .fencedCode span texts) :: rest)
  | bare {lo hi : Nat} {events : List Event} {rest : List Block} (hevents : Bare events)
      (hrest : BlocksIn source lo hi rest) : BlocksIn source lo hi (.plain events :: rest)

namespace BlocksIn

theorem le (h : BlocksIn source lo hi bs) : lo ≤ hi := by
  induction h with
  | nil h => exact h
  | quote => omega
  | container _ _ _ hcontent hrest => omega
  | leaf hleaf _ hrest => exact Nat.le_trans hleaf.lo_le_hi hrest
  | fence hlo hread _ hrest => exact Nat.le_trans hlo (Nat.le_trans hread.le hrest)
  | bare _ _ ih => exact ih

theorem of_le (h : BlocksIn source mid hi bs) (hlo : lo ≤ mid) : BlocksIn source lo hi bs := by
  induction h with
  | nil h => exact .nil (Nat.le_trans hlo h)
  | quote hstart hmarker hcontent hrest =>
    exact .quote (Nat.le_trans hlo hstart) hmarker hcontent hrest
  | container htag _ hrest ih => exact .container htag (ih hlo) hrest
  | leaf hleaf hrest => exact .leaf (hleaf.of_le hlo) hrest
  | fence hstart hread hrest => exact .fence (Nat.le_trans hlo hstart) hread hrest
  | bare hevents _ ih => exact .bare hevents (ih hlo)

theorem append (h : BlocksIn source lo mid bs) (hcs : BlocksIn source mid hi cs) :
    BlocksIn source lo hi (bs ++ cs) := by
  induction h with
  | nil h => exact hcs.of_le h
  | quote hstart hmarker hcontent _ _ ih => exact .quote hstart hmarker hcontent (ih hcs)
  | container htag hcontent _ _ ih => exact .container htag hcontent (ih hcs)
  | leaf hleaf _ ih => exact .leaf hleaf (ih hcs)
  | fence hstart hread _ ih => exact .fence hstart hread (ih hcs)
  | bare hevents _ ih => exact .bare hevents (ih hcs)

theorem mono (h : BlocksIn source lo mid bs) (hhi : mid ≤ hi) : BlocksIn source lo hi bs := by
  have hnil := h.append (.nil hhi)
  rwa [List.append_nil] at hnil

theorem of_append (h : BlocksIn source lo hi (bs ++ cs)) : BlocksIn source lo hi bs := by
  induction bs generalizing lo with
  | nil => exact .nil h.le
  | cons b bs ih =>
    cases h with
    | quote hstart hmarker hcontent hrest => exact .quote hstart hmarker hcontent (ih hrest)
    | container htag hcontent hrest => exact .container htag hcontent (ih hrest)
    | leaf hleaf hrest => exact .leaf hleaf (ih hrest)
    | fence hstart hread hrest => exact .fence hstart hread (ih hrest)
    | bare hevents hrest => exact .bare hevents (ih hrest)

theorem replicate (h : BlocksIn source pos pos [b]) (n : Nat) :
    BlocksIn source pos pos (List.replicate n b) := by
  induction n with
  | zero => exact .nil (Nat.le_refl pos)
  | succ n ih => exact h.append ih

/-- Whether a paragraph counts as a block makes no difference. -/
theorem asTight (h : BlocksIn source lo hi bs) : BlocksIn source lo hi (bs.map Block.asTight) := by
  induction h with
  | nil h => exact .nil h
  | quote hstart hmarker hcontent _ _ ih => exact .quote hstart hmarker hcontent ih
  | container htag hcontent _ _ ih => exact .container htag hcontent ih
  | leaf hleaf _ ih =>
    refine .leaf ?_ ih
    split
    · exact ⟨nofun, hleaf.span, hleaf.le, hleaf.tokens⟩
    · exact hleaf
  | fence hstart hread _ ih => exact .fence hstart hread ih
  | bare hevents _ ih => exact .bare hevents ih

theorem asTightItem (h : BlocksIn source lo hi bs) :
    BlocksIn source lo hi (bs.map Block.asTightItem) := by
  induction h with
  | nil h => exact .nil h
  | quote hstart hmarker hcontent _ _ ih => exact .quote hstart hmarker hcontent.asTight ih
  | container htag hcontent _ _ ih => exact .container htag hcontent.asTight ih
  | leaf hleaf _ ih => exact .leaf hleaf ih
  | fence hstart hread _ ih => exact .fence hstart hread ih
  | bare hevents _ ih => exact .bare hevents ih

end BlocksIn

end MarkdownPreview.Markdown
