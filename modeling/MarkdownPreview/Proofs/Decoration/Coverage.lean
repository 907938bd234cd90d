import MarkdownPreview.Proofs.Decoration.Reveal

/-! The filter over several selections. What is drawn depends on the selections only through the
positions that they cover, and shrinks as these grow; two lists of selections together leave what
each of them leaves. -/

namespace MarkdownPreview.Decoration

open Text Selection

variable {source : List Char} {S T : List Selection} {ds : List Decoration} {d : Decoration}
  {k : Kind}

/-! ### Revealed decorations -/

/-- More positions reveal more. -/
theorem Revealed.mono (h : Revealed source S ds d)
    (hST : ∀ p, Covered source.length S p → Covered source.length T p) :
    Revealed source T ds d := by
  simp only [Revealed] at *
  split at h
  · exact h
  · exact h
  · obtain ⟨line, hline, q, hq, hql⟩ := h
    exact ⟨line, hline, q, hST q hq, hql⟩
  · obtain ⟨s, hs, p, hp, hps⟩ := h
    exact ⟨s, hs, p, hST p hp, hps⟩

theorem revealed_congr (hST : ∀ p, Covered source.length S p ↔ Covered source.length T p) :
    Revealed source S ds d ↔ Revealed source T ds d :=
  ⟨fun h => h.mono fun p => (hST p).1, fun h => h.mono fun p => (hST p).2⟩

/-- A position that reveals is covered by one of the two lists of selections. -/
theorem revealed_append :
    Revealed source (S ++ T) ds d ↔ Revealed source S ds d ∨ Revealed source T ds d := by
  constructor
  · simp only [Revealed]
    split
    · exact .inl
    · exact .inl
    · rintro ⟨line, hline, q, hq, hql⟩
      exact (covered_append.1 hq).imp (⟨line, hline, q, ·, hql⟩) (⟨line, hline, q, ·, hql⟩)
    · rintro ⟨s, hs, p, hp, hps⟩
      exact (covered_append.1 hp).imp (⟨s, hs, p, ·, hps⟩) (⟨s, hs, p, ·, hps⟩)
  · rintro (h | h)
    · exact h.mono fun p hp => covered_append.2 (.inl hp)
    · exact h.mono fun p hp => covered_append.2 (.inr hp)

theorem not_revealed_nil : ¬ Revealed source [] ds d := by
  simp only [Revealed]
  split
  · exact id
  · exact id
  · rintro ⟨line, hline, q, hq, hql⟩
    exact not_covered_nil hq
  · rintro ⟨s, hs, p, hp, hps⟩
    exact not_covered_nil hp

/-- An extent starts no later than its marker. -/
theorem Extent.start_le {s : Span} (h : Extent ds d s) : s.start ≤ d.start := by
  cases h with
  | owned h =>
    obtain ⟨_, _, _, ⟨_, hstart, _⟩, _, _⟩ := h
    exact hstart
  | own => exact Nat.le_refl _

/-- Where everything is covered, all markers that can give way do so. -/
theorem revealed_whole (hcover : ∀ p ≤ source.length, Covered source.length S p)
    (hd : d.start ≤ d.stop ∧ d.stop ≤ source.length) : Revealed source S ds d ↔
      d.kind.revealScope ≠ .never ∧ d.kind.revealScope ≠ .pinned := by
  have hstart := hcover d.start (by omega)
  cases hscope : d.kind.revealScope with
  | never | pinned => simp [Revealed, hscope]
  | line =>
    simp only [Revealed, hscope]
    exact ⟨by simp, fun _ => ⟨_, ⟨d.start, d.span.occupies_start, rfl⟩, d.start, hstart, rfl⟩⟩
  | span =>
    simp only [Revealed, hscope]
    have hextent : Extent ds d (extent (ds.filter (·.kind.isOwner)) d) := extent_eq_iff.1 rfl
    have := hextent.start_le
    have := hextent.ordered hd.1
    refine ⟨by simp, fun _ => ⟨_, hextent, _, hcover _ ?_, Nat.le_refl _, this⟩⟩
    omega

/-! ### Drawn decorations -/

theorem drawn_append : drawn source (S ++ T) ds k =
    (drawn source S ds k).filter (· ∈ drawn source T ds k) := by
  have hS : drawn source S ds k = (inDocument source.length ds).filter (· ∈ drawn source S ds k) :=
    List.filter_congr fun d hd => by simp [mem_drawn, hd]
  rw [hS, List.filter_filter, drawn]
  refine List.filter_congr fun d hd => ?_
  rw [Bool.eq_iff_iff]
  simp only [Bool.and_eq_true, decide_eq_true_eq, mem_drawn, revealed_append, not_or]
  constructor
  · rintro ⟨hk, hS, hT⟩
    exact ⟨⟨hd, hk, hT⟩, hd, hk, hS⟩
  · rintro ⟨⟨-, hk, hT⟩, -, -, hS⟩
    exact ⟨hk, hS, hT⟩

theorem drawn_congr (hST : ∀ p, Covered source.length S p ↔ Covered source.length T p) :
    drawn source S ds k = drawn source T ds k := by
  rw [drawn, drawn]
  refine List.filter_congr fun d _ => decide_eq_decide.2 ?_
  exact and_congr_right fun _ => not_congr (revealed_congr hST)

/-- Where more is covered, less is drawn. -/
theorem drawn_sublist (hST : ∀ p, Covered source.length S p → Covered source.length T p) :
    (drawn source T ds k).Sublist (drawn source S ds k) := by
  have hboth : ∀ p, Covered source.length T p ↔ Covered source.length (S ++ T) p := fun p =>
    covered_append.trans ⟨(·.elim (hST p) id), .inr⟩ |>.symm
  rw [drawn_congr hboth, drawn_append]
  exact List.filter_sublist

theorem drawn_nil :
    drawn source [] ds k = (inDocument source.length ds).filter fun d => d.kind = k := by
  rw [drawn]
  refine List.filter_congr fun d _ => ?_
  simp [not_revealed_nil]

theorem drawn_whole (hcover : ∀ p ≤ source.length, Covered source.length S p) :
    drawn source S ds k = (inDocument source.length ds).filter fun d =>
      d.kind = k ∧ (d.kind.revealScope = .never ∨ d.kind.revealScope = .pinned) := by
  rw [drawn]
  refine List.filter_congr fun d hd => ?_
  rw [Bool.eq_iff_iff]
  simp only [decide_eq_true_eq, revealed_whole hcover (ordered_of_mem_inDocument hd)]
  cases d.kind.revealScope <;> simp

theorem filter_congr (hST : ∀ p, Covered source.length S p ↔ Covered source.length T p) :
    filter ds source S = filter ds source T := by
  rw [filter_eq, filter_eq]
  congr 1
  refine List.filter_congr fun d _ => decide_eq_decide.2 ?_
  exact not_congr (revealed_congr hST)

/-- The filter sees of the selections what they cover. It draws the same where the same is covered,
and less of each kind where more is. What it draws for two lists of selections together is what it
draws for each; without selections it draws everything that is not inverted, and with the whole
document selected just what no selection makes give way. -/
theorem filter_of_covered (ds : List Decoration) (source : List Char) :
    (∀ S T, (∀ p, Covered source.length S p ↔ Covered source.length T p) →
      filter ds source S = filter ds source T) ∧
    (∀ S T, (∀ p, Covered source.length S p → Covered source.length T p) →
      ∀ k, ((filter ds source T).get k).Sublist ((filter ds source S).get k)) ∧
    (∀ S T k, (filter ds source (S ++ T)).get k =
      ((filter ds source S).get k).filter (· ∈ (filter ds source T).get k)) ∧
    (∀ k, (filter ds source []).get k =
      (inDocument source.length ds).filter fun d => d.kind = k) ∧
    (∀ s : Selection, s.start = 0 → source.length ≤ s.stop → ∀ k,
      (filter ds source [s]).get k = (inDocument source.length ds).filter fun d =>
        d.kind = k ∧ (d.kind.revealScope = .never ∨ d.kind.revealScope = .pinned)) := by
  simp only [get_filter]
  refine ⟨fun S T => filter_congr, fun S T hST k => drawn_sublist hST, fun S T k => drawn_append,
    fun k => drawn_nil, fun s hstart hstop k => drawn_whole fun p hp => ?_⟩
  exact (covered_whole hstart hstop).2 hp

/-- Code between backticks and a rule below it: a selection that is split and turned round, a cursor
inside it, and the whole document. -/
theorem filter_of_covered_split :
    let source := ['`', 'b', '`', '\n', '-', '-', '-']
    let ds : List Decoration := [⟨0, 3, .code, none⟩, ⟨0, 1, .transparent, none⟩,
      ⟨2, 3, .transparent, none⟩, ⟨4, 7, .horizontalRule, none⟩]
    ((∀ p, Covered 7 [⟨0, 4⟩] p ↔ Covered 7 [⟨4, 2⟩, ⟨0, 2⟩] p) ∧
      filter ds source [⟨0, 4⟩] = filter ds source [⟨4, 2⟩, ⟨0, 2⟩]) ∧
    ((∀ p, Covered 7 [⟨1, 1⟩] p → Covered 7 [⟨0, 4⟩] p) ∧ ∀ k,
      ((filter ds source [⟨0, 4⟩]).get k).Sublist ((filter ds source [⟨1, 1⟩]).get k)) ∧
    ((Selection.mk 9 0).start = 0 ∧ 7 ≤ (Selection.mk 9 0).stop ∧ ∀ k,
      (filter ds source [⟨9, 0⟩]).get k = (inDocument 7 ds).filter fun d =>
        d.kind = k ∧ (d.kind.revealScope = .never ∨ d.kind.revealScope = .pinned)) := by
  intro source ds
  have hsplit : ∀ p, Covered 7 [⟨0, 4⟩] p ↔ Covered 7 [⟨4, 2⟩, ⟨0, 2⟩] p := by
    intro p
    simp [Covered, Covers, clamped, Selection.start, Selection.stop]
    omega
  have hcaret : ∀ p, Covered 7 [⟨1, 1⟩] p → Covered 7 [⟨0, 4⟩] p := by
    intro p
    simp [Covered, Covers, clamped, Selection.start, Selection.stop]
    omega
  obtain ⟨hcongr, hanti, -, -, hwhole⟩ := filter_of_covered ds source
  exact ⟨⟨hsplit, hcongr _ _ hsplit⟩, ⟨hcaret, hanti _ _ hcaret⟩, by decide, by decide,
    hwhole ⟨9, 0⟩ (by decide) (by decide)⟩

end MarkdownPreview.Decoration
