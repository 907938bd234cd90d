import MarkdownPreview.Decoration.Filter

/-! The construct that owns a marker. Among the decorations that enclose the marker and are of a
kind that owns it, the first of the shortest is chosen. That one is singled out by its place in the
list: all owners before it are longer, and none after it is shorter. -/

namespace MarkdownPreview.Decoration

open Text

/-! ### Shortest decorations -/

variable {ds : List Decoration} {d o : Decoration}

theorem shortest?_eq_none_iff : shortest? ds = none ↔ ds = [] := by
  cases ds with
  | nil => simp [shortest?]
  | cons d ds =>
    simp only [shortest?, reduceCtorEq, iff_false]
    split
    · simp
    · split <;> simp

/-- The first of the shortest of a list, by its place. -/
theorem shortest?_eq_some_iff : shortest? ds = some o ↔
    ∃ before after, ds = before ++ o :: after ∧ (∀ b ∈ before, o.length < b.length) ∧
      ∀ a ∈ after, o.length ≤ a.length := by
  induction ds generalizing o with
  | nil => simp [shortest?]
  | cons d ds ih =>
    simp only [shortest?]
    cases hds : shortest? ds with
    | none =>
      obtain rfl := shortest?_eq_none_iff.1 hds
      simp only [Option.some.injEq]
      constructor
      · rintro rfl
        exact ⟨[], [], rfl, by simp, by simp⟩
      · rintro ⟨before, after, h, -, -⟩
        obtain ⟨rfl, h⟩ | ⟨_, rfl, h⟩ := List.cons_eq_append_iff.1 h
        · exact (List.cons.inj h).1
        · simp at h
    | some e =>
      obtain ⟨front, back, rfl, hfront, hback⟩ := ih.1 hds
      have hmin : ∀ x ∈ front ++ e :: back, e.length ≤ x.length := by
        refine List.forall_mem_append.2 ⟨fun x hx => Nat.le_of_lt (hfront x hx), ?_⟩
        exact List.forall_mem_cons.2 ⟨Nat.le_refl _, hback⟩
      simp only
      constructor
      · intro h
        split at h
        next hle =>
          obtain rfl := Option.some.inj h
          exact ⟨[], _, rfl, by simp, fun a ha => Nat.le_trans hle (hmin a ha)⟩
        next hlt =>
          obtain rfl := Option.some.inj h
          exact ⟨d :: front, back, rfl,
            List.forall_mem_cons.2 ⟨Nat.not_le.1 hlt, hfront⟩, hback⟩
      · rintro ⟨before, after, h, hbefore, hafter⟩
        obtain ⟨rfl, h⟩ | ⟨before, rfl, h⟩ := List.cons_eq_append_iff.1 h
        · obtain ⟨rfl, rfl⟩ := List.cons.inj h
          rw [if_pos (hafter e (by simp))]
        · obtain ⟨hlt, hbefore⟩ := List.forall_mem_cons.1 hbefore
          obtain ⟨-, h⟩ := List.cons.inj h
          have he : some e = some o := hds ▸ ih.2 ⟨before, after, h, hbefore, hafter⟩
          obtain rfl := Option.some.inj he
          rw [if_neg (Nat.not_le.2 hlt)]

/-! ### Owners -/

/-- `o` is of a kind that owns `d`, and encloses it. -/
def Owns (o d : Decoration) : Prop :=
  o.kind ∈ d.kind.owners ∧ o.start ≤ d.start ∧ d.stop ≤ o.stop

/-- `o` stands in the list as the first of the shortest owners of `d`. -/
def ShortestOwner (ds : List Decoration) (d o : Decoration) : Prop :=
  ∃ before after, ds = before ++ o :: after ∧ Owns o d ∧
    (∀ b ∈ before, Owns b d → o.length < b.length) ∧
    ∀ a ∈ after, Owns a d → o.length ≤ a.length

/-- The span on which a marker depends: that of its shortest owner, or its own if it has none. -/
inductive Extent (ds : List Decoration) (d : Decoration) : Span → Prop
  | owned {o : Decoration} (h : ShortestOwner ds d o) : Extent ds d o.span
  | own (h : ∀ o ∈ ds, ¬ Owns o d) : Extent ds d d.span

theorem isOwner_of_mem_owners {k owner : Kind} (h : owner ∈ k.owners) : owner.isOwner = true :=
  List.any_eq_true.2 ⟨k, k.mem_all, List.contains_iff_mem.2 h⟩

theorem owns_iff : (d.kind.owners.contains o.kind && o.encloses d) = true ↔ Owns o d := by
  rw [Owns, encloses, Span.encloses, Bool.and_eq_true, Bool.and_eq_true, List.contains_iff_mem]
  exact and_congr_right fun _ => and_congr decide_eq_true_iff decide_eq_true_iff

/-- Nothing is lost by looking for owners only among the decorations that own some kind. -/
theorem filter_owners (ds : List Decoration) (d : Decoration) :
    (ds.filter (·.kind.isOwner)).filter
        (fun o => d.kind.owners.contains o.kind && o.encloses d) =
      ds.filter fun o => d.kind.owners.contains o.kind && o.encloses d := by
  rw [List.filter_filter]
  refine List.filter_congr fun o _ => ?_
  rw [Bool.and_eq_left_iff_imp]
  exact fun h => isOwner_of_mem_owners (owns_iff.1 h).1

theorem shortest?_owners_eq_some_iff :
    shortest? (ds.filter fun o => d.kind.owners.contains o.kind && o.encloses d) = some o ↔
      ShortestOwner ds d o := by
  rw [shortest?_eq_some_iff]
  constructor
  · rintro ⟨before, after, h, hbefore, hafter⟩
    obtain ⟨front, rest, rfl, rfl, hrest⟩ := List.filter_eq_append_iff.1 h
    obtain ⟨skipped, back, rfl, hskipped, ho, rfl⟩ := List.filter_eq_cons_iff.1 hrest
    refine ⟨front ++ skipped, back, by simp, owns_iff.1 ho,
      List.forall_mem_append.2 ⟨fun b hb hown => ?_, fun b hb hown => ?_⟩, fun a ha hown => ?_⟩
    · exact hbefore b (List.mem_filter.2 ⟨hb, owns_iff.2 hown⟩)
    · exact absurd (owns_iff.2 hown) (hskipped b hb)
    · exact hafter a (List.mem_filter.2 ⟨ha, owns_iff.2 hown⟩)
  · rintro ⟨before, after, rfl, ho, hbefore, hafter⟩
    refine ⟨_, _, by rw [List.filter_append, List.filter_cons, if_pos (owns_iff.2 ho)],
      fun b hb => ?_, fun a ha => ?_⟩
    · obtain ⟨hb, hown⟩ := List.mem_filter.1 hb
      exact hbefore b hb (owns_iff.1 hown)
    · obtain ⟨ha, hown⟩ := List.mem_filter.1 ha
      exact hafter a ha (owns_iff.1 hown)

/-- The span that is computed for a marker is the one on which it depends. -/
theorem extent_eq_iff {s : Span} :
    extent (ds.filter (·.kind.isOwner)) d = s ↔ Extent ds d s := by
  simp only [extent, filter_owners]
  cases h : shortest? (ds.filter fun o => d.kind.owners.contains o.kind && o.encloses d) with
  | some o =>
    have ho := shortest?_owners_eq_some_iff.1 h
    constructor
    · rintro rfl
      exact .owned ho
    · rintro (h' | h')
      next o' =>
        have := shortest?_owners_eq_some_iff.2 h'
        rw [h] at this
        rw [Option.some.inj this]
      next =>
        obtain ⟨before, after, rfl, hown, -, -⟩ := ho
        exact absurd hown (h' o (by simp))
  | none =>
    have hnone : ∀ o ∈ ds, ¬ Owns o d := fun o ho hown =>
      List.filter_eq_nil_iff.1 (shortest?_eq_none_iff.1 h) o ho (owns_iff.2 hown)
    constructor
    · rintro rfl
      exact .own hnone
    · rintro (h' | h')
      next o' =>
        obtain ⟨before, after, rfl, hown, -, -⟩ := h'
        exact absurd hown (hnone o' (by simp))
      next => rfl

/-- Where all owners of a marker cover one span, it depends on that span. -/
theorem Extent.eq_of_owners {s t : Span} (h : Extent ds d s) (hsome : ∃ o ∈ ds, Owns o d)
    (hall : ∀ o ∈ ds, Owns o d → o.span = t) : s = t := by
  cases h with
  | owned h =>
    obtain ⟨before, after, rfl, hown, -, -⟩ := h
    exact hall _ (by simp) hown
  | own h =>
    obtain ⟨o, ho, hown⟩ := hsome
    exact absurd hown (h o ho)

end MarkdownPreview.Decoration
