import MarkdownPreview.Proofs.Markdown.InlineForest
import MarkdownPreview.Proofs.Markdown.Spine

/-! The events of a document. They are trees; and what has delimiters lies before a fenced code
block when its event comes before the block's, and behind it when the event comes after. -/

namespace MarkdownPreview.Markdown

open Text (Span)

variable {source : List Char} {lo mid hi : Nat} {events inner rest : List Event} {tag : Tag}
  {l : Leaf} {bs : List Block} {definitions : Definitions}

/-! ### Forests of blocks -/

/-- The events are trees, inside whatever span, whose headings have the text of a heading in the
source. -/
def BlockForest (source : List Char) (events : List Event) : Prop :=
  ∀ outer, Forest (fun _ e => ∀ tag, e.kind = .start tag → tag.isHeading = true →
    HeadingAt source e.span) outer events

namespace BlockForest

theorem nil : BlockForest source [] := fun _ => .nil

theorem append (h : BlockForest source events) (hrest : BlockForest source rest) :
    BlockForest source (events ++ rest) := fun outer => (h outer).append (hrest outer)

theorem tree (h : BlockForest source events) {span : Span}
    (htag : tag.isHeading = true → HeadingAt source span) :
    BlockForest source (wrap tag span events) :=
  fun _ => .tree (fun _ h => EventKind.start.inj h ▸ htag) (h span)

theorem of_bare (h : Bare events) : BlockForest source events := by
  refine fun outer => (h outer).mono fun _ e hbare tag htag hheading => ?_
  rw [htag] at hbare
  exact absurd ((isHeading_of_isBare hbare).symm.trans hheading) Bool.false_ne_true

theorem of_inlineForest (h : InlineForest lo hi events) : BlockForest source events := by
  refine fun outer => (h outer).mono fun _ e he tag htag hheading => ?_
  cases tag with
  | heading => exact absurd (he.1 _ htag) Bool.false_ne_true
  | _ => cases hheading

end BlockForest

theorem Leaf.LiesIn.inlineForest (h : l.LiesIn source lo hi) :
    InlineForest lo hi (inlineEvents source definitions l) :=
  inlineEvents_inlineForest source definitions h.tokens h.le h.span.2

theorem ReadFenced.bare {span : Span} {texts : List Event} (h : ReadFenced source span texts) :
    Bare texts := .of_kind .text rfl rfl h.text

theorem BlocksIn.blockForest (h : BlocksIn source lo hi bs) (definitions : Definitions) :
    BlockForest source (blockEvents source definitions bs) := by
  induction h with
  | nil => exact .nil
  | quote _ _ _ _ ihcontent ihrest =>
    rw [blockEvents, Block.events]
    exact .append (ihcontent.tree nofun) ihrest
  | container htag _ _ ihcontent ihrest =>
    rw [blockEvents, Block.events]
    refine (ihcontent.tree fun hheading => ?_).append ihrest
    exact absurd ((isHeading_of_isBare htag).symm.trans hheading) Bool.false_ne_true
  | @leaf _ _ _ l _ hleaf _ ih =>
    rw [blockEvents, Block.events, Leaf.events]
    refine .append ?_ ih
    have hinner : BlockForest source (inlineEvents source definitions l) :=
      .of_inlineForest hleaf.inlineForest
    split
    next tag htag =>
      refine hinner.tree fun hheading => ?_
      obtain hbare | ⟨-, hat⟩ := hleaf.tag tag htag
      · exact absurd ((isHeading_of_isBare hbare).symm.trans hheading) Bool.false_ne_true
      · exact hat
    · exact hinner
  | fence _ hread _ ih =>
    rw [blockEvents, Block.events]
    exact .append (.tree (.of_bare hread.bare) nofun) ih
  | bare hevents _ ih =>
    rw [blockEvents, Block.events]
    exact (BlockForest.of_bare hevents).append ih

/-- The events of a document are trees, and its headings have the text of one. -/
theorem readOutline_blockForest (d : Dialect) (source : List Char) (definitions : Definitions) :
    BlockForest source (blockEvents source definitions (readOutline d source).blocks.reverse) :=
  have ⟨_, h⟩ := readOutline_blocksIn d source
  h.blockForest definitions

/-! ### Fenced code in a row -/

/-- Fenced code blocks with other events before, between and after them. The delimiters of those
lie before, between and after the blocks too. -/
inductive FenceRow (source : List Char) : Nat → Nat → List Event → Prop
  | nil {lo hi : Nat} (h : lo ≤ hi) : FenceRow source lo hi []
  | others {lo mid hi : Nat} {events rest : List Event} (hle : lo ≤ mid)
      (hevents : ∀ e ∈ events, e.kind ≠ .start .fencedCode ∧
        (e.kind.hidesSyntax = true → Between lo mid e.span))
      (hrest : FenceRow source mid hi rest) : FenceRow source lo hi (events ++ rest)
  | fence {lo hi : Nat} {span : Span} {texts rest : List Event} (hlo : lo ≤ span.start)
      (hread : ReadFenced source span texts) (hrest : FenceRow source span.stop hi rest) :
      FenceRow source lo hi (wrap .fencedCode span texts ++ rest)

/-- What stands behind a list without an element stands in the list's continuation. -/
theorem exists_append_of_not_mem {α : Type} {xs ys before after : List α} {a : α}
    (h : xs ++ ys = before ++ a :: after) (ha : a ∉ xs) :
    ∃ between, before = xs ++ between ∧ ys = between ++ a :: after := by
  obtain ⟨piece, rfl, hys⟩ | ⟨piece, rfl, hpiece⟩ := List.append_eq_append_iff.1 h
  · exact ⟨piece, rfl, hys⟩
  · cases piece with
    | nil => exact ⟨[], by simp, hpiece.symm⟩
    | cons b piece =>
      obtain ⟨rfl, -⟩ := List.cons.inj hpiece
      exact absurd (List.mem_append_right _ List.mem_cons_self) ha

namespace FenceRow

theorem le (h : FenceRow source lo hi events) : lo ≤ hi := by
  induction h with
  | nil h => exact h
  | others hle _ _ ih => exact Nat.le_trans hle ih
  | fence hlo hread _ ih => exact Nat.le_trans hlo (Nat.le_trans hread.le ih)

theorem of_le (h : FenceRow source mid hi events) (hlo : lo ≤ mid) :
    FenceRow source lo hi events := .others hlo (List.forall_mem_nil _) h

theorem append (h : FenceRow source lo mid events) (hrest : FenceRow source mid hi rest) :
    FenceRow source lo hi (events ++ rest) := by
  induction h with
  | nil h => exact hrest.of_le h
  | others hle hevents _ ih =>
    rw [List.append_assoc]
    exact .others hle hevents (ih hrest)
  | fence hlo hread _ ih =>
    rw [List.append_assoc]
    exact .fence hlo hread (ih hrest)

/-- Events without delimiters fit in anywhere. -/
theorem others_bare (h : ∀ e ∈ events, e.kind.hidesSyntax = false)
    (hrest : FenceRow source lo hi rest) : FenceRow source lo hi (events ++ rest) := by
  refine .others (Nat.le_refl lo) (fun e he => ⟨fun hkind => ?_, fun hhides => ?_⟩) hrest
  · have hfence := h e he
    rw [hkind] at hfence
    cases hfence
  · exact absurd ((h e he).symm.trans hhides) Bool.false_ne_true

theorem container (htag : (EventKind.start tag).hidesSyntax = false) (span : Span)
    (hinner : FenceRow source lo mid inner) (hrest : FenceRow source mid hi rest) :
    FenceRow source lo hi (wrap tag span inner ++ rest) := by
  rw [wrap_append]
  refine .others_bare (List.forall_mem_singleton.2 htag) (hinner.append ?_)
  exact .others_bare (List.forall_mem_singleton.2 rfl) hrest

/-- Delimiters lie within the row. -/
theorem between (h : FenceRow source lo hi events) :
    ∀ e ∈ events, e.kind.hidesSyntax = true → Between lo hi e.span := by
  induction h with
  | nil => exact List.forall_mem_nil _
  | others hle hevents hrest ih =>
    refine List.forall_mem_append.2 ⟨fun e he hhides => ?_, fun e he hhides => ?_⟩
    · exact ((hevents e he).2 hhides).mono (Nat.le_refl _) hrest.le
    · exact (ih e he hhides).mono hle (Nat.le_refl _)
  | @fence _ _ span texts _ hlo hread hrest ih =>
    rw [wrap_append]
    refine List.forall_mem_cons.2 ⟨fun _ => ⟨hlo, hrest.le⟩,
      List.forall_mem_append.2 ⟨fun e he hhides => ?_, List.forall_mem_cons.2 ⟨nofun, ?_⟩⟩⟩
    · rw [hread.text e he] at hhides
      cases hhides
    · intro e he hhides
      exact (ih e he hhides).mono (Nat.le_trans hlo hread.le) (Nat.le_refl _)

/-- Where a fenced code block begins, its text and its end follow, and the delimiters before and
after it lie before and behind it. -/
theorem cut (h : FenceRow source lo hi events) {before : List Event} {span : Span}
    (hsplit : events = before ++ ⟨.start .fencedCode, span⟩ :: rest) :
    ∃ texts after, rest = texts ++ ⟨.stop .fencedCode, span⟩ :: after ∧
      ReadFenced source span texts ∧
      (∀ e ∈ before, e.kind.hidesSyntax = true → e.span.stop ≤ span.start) ∧
      ∀ e ∈ after, e.kind.hidesSyntax = true → span.stop ≤ e.span.start := by
  induction h generalizing before with
  | nil => simp at hsplit
  | @others lo mid hi others later hle hothers hrow ih =>
    obtain ⟨between, rfl, hlater⟩ :=
      exists_append_of_not_mem hsplit fun hmem => (hothers _ hmem).1 rfl
    obtain ⟨texts, after, hrest, hread, hbefore, hafter⟩ := ih hlater
    refine ⟨texts, after, hrest, hread, List.forall_mem_append.2 ⟨?_, hbefore⟩, hafter⟩
    have hspan := hrow.between ⟨.start .fencedCode, span⟩
      (hlater ▸ List.mem_append_right _ List.mem_cons_self) rfl
    exact fun e he hhides => Nat.le_trans ((hothers e he).2 hhides).2 hspan.1
  | @fence lo hi span' texts later hlo hread hrow ih =>
    rw [wrap_append] at hsplit
    cases before with
    | nil =>
      obtain ⟨hstart, rfl⟩ := List.cons.inj hsplit
      obtain rfl := congrArg Event.span hstart
      exact ⟨texts, later, rfl, hread, List.forall_mem_nil _,
        fun e he hhides => (hrow.between e he hhides).1⟩
    | cons b before =>
      obtain ⟨rfl, hlist⟩ := List.cons.inj hsplit
      have htexts : ∀ e ∈ texts ++ [⟨.stop .fencedCode, span'⟩], e.kind.hidesSyntax = false := by
        refine List.forall_mem_append.2 ⟨fun e he => ?_, List.forall_mem_singleton.2 rfl⟩
        rw [hread.text e he]
        rfl
      rw [List.append_cons] at hlist
      have hnew : ⟨.start .fencedCode, span⟩ ∉ texts ++ [⟨.stop .fencedCode, span'⟩] :=
        fun hmem => Bool.false_ne_true (htexts _ hmem).symm
      obtain ⟨between, rfl, hlater⟩ := exists_append_of_not_mem hlist hnew
      obtain ⟨texts', after, hrest, hread', hbefore, hafter⟩ := ih hlater
      have hspan := hrow.between ⟨.start .fencedCode, span⟩
        (hlater ▸ List.mem_append_right _ List.mem_cons_self) rfl
      refine ⟨texts', after, hrest, hread', List.forall_mem_cons.2 ⟨fun _ => hspan.1,
        List.forall_mem_append.2 ⟨fun e he hhides => ?_, hbefore⟩⟩, hafter⟩
      exact absurd ((htexts e he).symm.trans hhides) Bool.false_ne_true

end FenceRow

theorem Leaf.LiesIn.delimiters (h : l.LiesIn source lo hi) :
    ∀ e ∈ l.events source definitions, e.kind ≠ .start .fencedCode ∧
      (e.kind.hidesSyntax = true → Between lo hi e.span) := by
  have hinner : ∀ e ∈ inlineEvents source definitions l, e.kind ≠ .start .fencedCode ∧
      (e.kind.hidesSyntax = true → Between lo hi e.span) := by
    refine (h.inlineForest ⟨0, 0⟩).forall_mem (fun _ e he => ⟨fun hkind => ?_, he.2⟩)
      fun tag span => ⟨nofun, nofun⟩
    exact absurd (he.1 _ hkind) Bool.false_ne_true
  rw [Leaf.events]
  split
  next tag htag =>
    refine List.forall_mem_append.2 ⟨List.forall_mem_cons.2 ⟨⟨?_, fun _ => h.span⟩, hinner⟩,
      List.forall_mem_singleton.2 ⟨nofun, nofun⟩⟩
    rintro ⟨⟩
    obtain hbare | ⟨hheading, -⟩ := h.tag _ htag
    · cases hbare
    · cases hheading
  · exact hinner

/-- The events of blocks in order. -/
theorem BlocksIn.fenceRow (h : BlocksIn source lo hi bs) (definitions : Definitions) :
    FenceRow source lo hi (blockEvents source definitions bs) := by
  induction h with
  | nil h => exact .nil h
  | quote hlo _ _ _ ihcontent ihrest =>
    rw [blockEvents, Block.events]
    exact .container rfl _ (ihcontent.of_le (Nat.le_succ_of_le hlo)) ihrest
  | container htag _ _ ihcontent ihrest =>
    rw [blockEvents, Block.events]
    exact .container (hidesSyntax_of_isBare htag) _ ihcontent ihrest
  | leaf hleaf _ ih =>
    rw [blockEvents, Block.events]
    exact .others hleaf.lo_le_hi hleaf.delimiters ih
  | fence hlo hread _ ih =>
    rw [blockEvents, Block.events]
    exact .fence hlo hread ih
  | bare hevents _ ih =>
    rw [blockEvents, Block.events]
    exact .others_bare hevents.hidesSyntax ih

end MarkdownPreview.Markdown
