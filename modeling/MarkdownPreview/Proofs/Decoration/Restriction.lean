import MarkdownPreview.Proofs.Decoration.Reveal

/-! The filter over a part of a list of decorations. Whether a decoration gives way depends on the
selections and on the decorations that may own it; all others could as well not be there. So a part
of a list that keeps its owners is drawn as it is within the whole, and what is drawn once is drawn
again. -/

namespace MarkdownPreview.Decoration

open Text

variable {source : List Char} {selections : List Selection} {ds ds' : List Decoration}
  {d : Decoration}

/-! ### Decorations in the document -/

/-- The decoration pulled into a document of `length` characters. -/
def pulled (length : Nat) (d : Decoration) : Decoration :=
  { d with start := min d.start length, stop := min d.stop length }

theorem inDocument_eq_map (length : Nat) (ds : List Decoration) :
    inDocument length ds = (ds.filter fun d => d.start ≤ d.stop).map (pulled length) := rfl

/-- What is in the document stays as it is. -/
theorem inDocument_inDocument (length : Nat) (ds : List Decoration) :
    inDocument length (inDocument length ds) = inDocument length ds :=
  inDocument_eq_self fun _ => ordered_of_mem_inDocument

theorem filter_inDocument (p : Decoration → Bool) (length : Nat) (ds : List Decoration) :
    (inDocument length ds).filter p =
      (ds.filter fun d => d.start ≤ d.stop && p (d.pulled length)).map (pulled length) := by
  rw [inDocument_eq_map, List.filter_map, List.filter_filter]
  congr 1
  exact List.filter_congr fun d _ => Bool.and_comm _ _

theorem filter_owners_inDocument (length : Nat) (ds : List Decoration) :
    (inDocument length ds).filter (·.kind.isOwner) =
      inDocument length (ds.filter (·.kind.isOwner)) := by
  rw [filter_inDocument, inDocument_eq_map, List.filter_filter]
  rfl

/-! ### Owners -/

/-- Of the list around it, a decoration depends on the owners. -/
theorem revealed_congr_of_owners
    (h : ds'.filter (·.kind.isOwner) = ds.filter (·.kind.isOwner)) :
    Revealed source selections ds' d ↔ Revealed source selections ds d := by
  cases hscope : d.kind.revealScope with
  | never | pinned | line => simp only [Revealed, hscope]
  | span => simp only [Revealed, hscope, revealedByExtent_iff_exists, h]

/-- No selection makes an owner give way. -/
theorem not_revealed_of_isOwner (h : d.kind.isOwner = true) :
    ¬ Revealed source selections ds d := by
  have hscope : d.kind.revealScope = .never := by
    rw [Kind.isOwner_iff] at h
    obtain h | h | h := h <;> rw [h] <;> rfl
  simp only [Revealed, hscope, not_false_eq_true]

/-! ### Survivors -/

/-- A decoration is drawn as one of a list: it is not inverted, and nothing makes it give way. -/
def Survives (source : List Char) (selections : List Selection) (ds : List Decoration)
    (d : Decoration) : Prop :=
  d.start ≤ d.stop ∧
    ¬ Revealed source selections (inDocument source.length ds) (d.pulled source.length)

instance : Decidable (Survives source selections ds d) := inferInstanceAs (Decidable (_ ∧ _))

/-- The decorations of a list that are drawn, as they are given and in their order. -/
def survivors (source : List Char) (selections : List Selection) (ds : List Decoration) :
    List Decoration := ds.filter (Survives source selections ds ·)

theorem inDocument_filter_survives (ds' : List Decoration) :
    inDocument source.length (ds'.filter (Survives source selections ds ·)) =
      (ds'.filter (Survives source selections ds ·)).map (pulled source.length) := by
  rw [inDocument_eq_map, List.filter_filter]
  congr 1
  refine List.filter_congr fun d _ => ?_
  rw [Bool.and_eq_right_iff_imp]
  simp only [decide_eq_true_eq]
  exact And.left

/-- The filter draws the survivors, pulled into the document. -/
theorem filter_eq_survivors (ds : List Decoration) (source : List Char)
    (selections : List Selection) : filter ds source selections =
      .group ((survivors source selections ds).map (pulled source.length)) := by
  rw [filter_eq, filter_inDocument, survivors]
  congr 2
  refine List.filter_congr fun d _ => ?_
  rw [Bool.eq_iff_iff]
  simp only [Bool.and_eq_true, decide_eq_true_eq]
  rfl

/-- Lists with the same owners in the document have the same survivors among them. -/
theorem survives_congr (h : inDocument source.length (ds'.filter (·.kind.isOwner)) =
      inDocument source.length (ds.filter (·.kind.isOwner))) :
    Survives source selections ds' d ↔ Survives source selections ds d := by
  rw [← filter_owners_inDocument, ← filter_owners_inDocument] at h
  exact and_congr_right fun _ => not_congr (revealed_congr_of_owners h)

/-- The owners among the survivors are all owners that are not inverted. -/
theorem owners_survivors (source : List Char) (selections : List Selection)
    (ds : List Decoration) :
    inDocument source.length ((survivors source selections ds).filter (·.kind.isOwner)) =
      inDocument source.length (ds.filter (·.kind.isOwner)) := by
  rw [inDocument_eq_map, inDocument_eq_map, survivors, List.filter_filter, List.filter_filter,
    List.filter_filter]
  congr 1
  refine List.filter_congr fun d _ => ?_
  rw [Bool.eq_iff_iff]
  simp only [Bool.and_eq_true, decide_eq_true_eq]
  constructor
  · rintro ⟨⟨hle, howner⟩, -⟩
    exact ⟨hle, howner⟩
  · rintro ⟨hle, howner⟩
    exact ⟨⟨hle, howner⟩, hle, not_revealed_of_isOwner howner⟩

theorem survivors_survivors (source : List Char) (selections : List Selection)
    (ds : List Decoration) :
    survivors source selections (survivors source selections ds) =
      survivors source selections ds := by
  have hkept : ∀ d ∈ survivors source selections ds,
      decide (Survives source selections (survivors source selections ds) d) = true := by
    intro d hd
    rw [decide_eq_true_eq, survives_congr (owners_survivors source selections ds)]
    exact of_decide_eq_true (List.mem_filter.1 hd).2
  rw [survivors, List.filter_eq_self.2 hkept]

/-- A part of a list that has each of its owners as often as the list has it keeps all of them. -/
theorem filter_owners_of_sublist (hsub : ds'.Sublist ds)
    (hcount : ∀ o : Decoration, o.kind.isOwner = true → ds'.count o = ds.count o) :
    ds'.filter (·.kind.isOwner) = ds.filter (·.kind.isOwner) := by
  refine (hsub.filter _).eq_of_length (List.Perm.length_eq (List.perm_iff_count.2 fun o => ?_))
  cases howner : o.kind.isOwner with
  | true =>
    have hall (l : List Decoration) : (l.filter (·.kind.isOwner)).count o = l.count o :=
      List.count_filter howner
    rw [hall, hall, hcount o howner]
  | false =>
    have hnot (l : List Decoration) : (l.filter (·.kind.isOwner)).count o = 0 := by
      rw [List.count_eq_zero, List.mem_filter, howner]
      exact fun h => Bool.false_ne_true h.2
    rw [hnot, hnot]

/-- One and the same question asked of each decoration decides what is drawn of a list and of every
part of it that still has all code and all math of the list. What is drawn of a list is drawn again
of that alone, whether it is taken as it was given or as it was drawn. -/
theorem filter_of_owners_kept (ds : List Decoration) (source : List Char)
    (selections : List Selection) :
    filter ds source selections =
      .group ((survivors source selections ds).map (pulled source.length)) ∧
    (∀ ds' : List Decoration, ds'.Sublist ds →
      (∀ o : Decoration, o.kind = .code ∨ o.kind = .inlineMath ∨ o.kind = .displayMath →
        ds'.count o = ds.count o) →
      filter ds' source selections = .group
        ((ds'.filter (Survives source selections ds ·)).map (pulled source.length))) ∧
    filter (survivors source selections ds) source selections = filter ds source selections ∧
    filter ((survivors source selections ds).map (pulled source.length)) source selections =
      filter ds source selections := by
  have hagain : filter (survivors source selections ds) source selections =
      filter ds source selections := by
    rw [filter_eq_survivors, survivors_survivors, ← filter_eq_survivors]
  refine ⟨filter_eq_survivors ds source selections, fun ds' hsub hcount => ?_, hagain, ?_⟩
  · have howners := filter_owners_of_sublist hsub fun o ho => hcount o (o.kind.isOwner_iff.1 ho)
    rw [filter_eq_survivors, survivors]
    congr 2
    refine List.filter_congr fun d _ => decide_eq_decide.2 (survives_congr ?_)
    rw [howners]
  · rw [← hagain, survivors, ← inDocument_filter_survives, filter_eq, filter_eq,
      inDocument_inDocument]

/-- Two code spans, one within the other, of which the outer one reaches past the document, and an
inverted one. Without the backtick at the front and the rule, the other backtick still depends on
the shorter span. -/
theorem filter_of_owners_kept_nested :
    let source := ['`', 'b', '`', '\n', '-', '-', '-']
    let selections : List Selection := [.caret 3]
    let outer : Decoration := ⟨0, 9, .code, none⟩
    let inner : Decoration := ⟨0, 3, .code, none⟩
    let inverted : Decoration := ⟨3, 0, .code, none⟩
    let last : Decoration := ⟨2, 3, .transparent, none⟩
    let ds := [outer, ⟨0, 1, .transparent, none⟩, inner, last, inverted,
      ⟨4, 7, .horizontalRule, none⟩]
    let ds' := [outer, inner, last, inverted]
    ds'.Sublist ds ∧
    (∀ o : Decoration, o.kind = .code ∨ o.kind = .inlineMath ∨ o.kind = .displayMath →
      ds'.count o = ds.count o) ∧
    filter ds' source selections =
      .group ((ds'.filter (Survives source selections ds ·)).map (pulled 7)) ∧
    filter (survivors source selections ds) source selections = filter ds source selections := by
  intro source selections outer inner inverted last ds ds'
  have hsub : ds'.Sublist ds := by decide
  have hcount : ∀ o : Decoration, o.kind = .code ∨ o.kind = .inlineMath ∨ o.kind = .displayMath →
      ds'.count o = ds.count o := by
    intro o ho
    have hmark : (⟨0, 1, .transparent, none⟩ : Decoration) ≠ o := by
      rintro rfl
      simp at ho
    have hrule : (⟨4, 7, .horizontalRule, none⟩ : Decoration) ≠ o := by
      rintro rfl
      simp at ho
    simp only [ds, ds', List.count_cons_of_ne hmark, List.count_cons_of_ne hrule, List.count_cons]
  obtain ⟨-, hpart, hagain, -⟩ := filter_of_owners_kept ds source selections
  exact ⟨hsub, hcount, hpart ds' hsub hcount, hagain⟩

end MarkdownPreview.Decoration
