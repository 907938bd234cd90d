import MarkdownPreview.Proofs.Decoration.Extent
import MarkdownPreview.Proofs.Selection.Cover
import MarkdownPreview.Proofs.Text.Lines

/-! What the filter keeps, said in terms of sets. A selection is no more than the positions that it
covers; a marker of line scope gives way when a line holds both such a position and a part of the
marker, one of span scope when such a position is in the closed interval of its extent. The filter
works with the ends of intervals only, and agrees with this on every list of decorations. -/

namespace MarkdownPreview.Decoration

open Text Selection

/-! ### Revealed decorations -/

/-- The decorations that are not inverted, pulled into a document of `length` characters. -/
def inDocument (length : Nat) (ds : List Decoration) : List Decoration :=
  (ds.filter fun d => d.start ≤ d.stop).map fun d =>
    { d with start := min d.start length, stop := min d.stop length }

/-- Some line holds a part of the decoration and a position that the selections cover. -/
def RevealedByLine (source : List Char) (selections : List Selection) (d : Decoration) : Prop :=
  ∃ line, (∃ p, d.span.Occupies p ∧ lineOf source p = line) ∧
    ∃ q, Covered source.length selections q ∧ lineOf source q = line

/-- The selections cover a position in the closed interval of the decoration's extent. -/
def RevealedByExtent (source : List Char) (selections : List Selection) (ds : List Decoration)
    (d : Decoration) : Prop :=
  ∃ s, Extent ds d s ∧ ∃ p, Covered source.length selections p ∧ s.start ≤ p ∧ p ≤ s.stop

/-- The selections make a decoration of the list give way. -/
def Revealed (source : List Char) (selections : List Selection) (ds : List Decoration)
    (d : Decoration) : Prop :=
  match d.kind.revealScope with
  | .never | .pinned => False
  | .line => RevealedByLine source selections d
  | .span => RevealedByExtent source selections ds d

variable {source : List Char} {selections : List Selection} {ds : List Decoration}
  {d : Decoration} {k : Kind}

theorem filterMap_clamped? (length : Nat) (ds : List Decoration) :
    ds.filterMap (clamped? length) = inDocument length ds := by
  induction ds with
  | nil => rfl
  | cons d ds ih =>
    simp only [inDocument] at ih
    by_cases h : d.start ≤ d.stop <;> simp [inDocument, clamped?, h, ih]

theorem inDocument_eq_self {length : Nat} (h : ∀ d ∈ ds, d.start ≤ d.stop ∧ d.stop ≤ length) :
    inDocument length ds = ds := by
  have hordered : ds.filter (fun d => d.start ≤ d.stop) = ds :=
    List.filter_eq_self.2 fun d hd => decide_eq_true (h d hd).1
  rw [inDocument, hordered]
  refine List.map_congr_left (fun d hd => ?_) |>.trans (List.map_id ds)
  obtain ⟨hle, hlen⟩ := h d hd
  rw [Nat.min_eq_left (Nat.le_trans hle hlen), Nat.min_eq_left hlen]
  rfl

/-- A decoration that is in the document is not inverted and ends within it. -/
theorem ordered_of_mem_inDocument {length : Nat} (h : d ∈ inDocument length ds) :
    d.start ≤ d.stop ∧ d.stop ≤ length := by
  obtain ⟨e, he, rfl⟩ := List.mem_map.1 h
  have := of_decide_eq_true (List.mem_filter.1 he).2
  simp only
  omega

theorem Extent.ordered {s : Span} (h : Extent ds d s) (hd : d.start ≤ d.stop) :
    s.start ≤ s.stop := by
  cases h with
  | owned h =>
    obtain ⟨_, _, _, ⟨_, hstart, hstop⟩, _, _⟩ := h
    exact Nat.le_trans hstart (Nat.le_trans hd hstop)
  | own => exact hd

/-! ### Decisions -/

theorem any_lines_overlaps_iff {start stop : Nat} :
    (Focus.of source selections).lines.any (·.overlaps (lineSpan source start stop)) = true ↔
      ∃ line, (∃ p, (Span.mk start stop).Occupies p ∧ lineOf source p = line) ∧
        ∃ q, Covered source.length selections q ∧ lineOf source q = line := by
  simp only [Focus.of, List.any_map, List.any_eq_true, Function.comp_apply,
    closedLineSpan_overlaps_lineSpan (start_le_stop _)]
  constructor
  · rintro ⟨s, hs, line, hp, q, hfirst, hlast, hq⟩
    exact ⟨line, hp, q, ⟨s, hs, hfirst, hlast⟩, hq⟩
  · rintro ⟨line, hp, q, ⟨s, hs, hfirst, hlast⟩, hq⟩
    exact ⟨s, hs, line, hp, q, hfirst, hlast, hq⟩

theorem any_touches_iff {first last : Nat} (h : first ≤ last) :
    (Focus.of source selections).selections.any (·.touches first last) = true ↔
      ∃ p, Covered source.length selections p ∧ first ≤ p ∧ p ≤ last := by
  simp only [Focus.of, List.any_map, List.any_eq_true, Function.comp_apply]
  exact exists_touches_iff h

theorem revealedByLine_iff :
    (Focus.of source selections).lines.any (·.overlaps (lineSpan source d.start d.stop)) = true ↔
      RevealedByLine source selections d := any_lines_overlaps_iff

/-- The extent that is computed is the one that counts. -/
theorem revealedByExtent_iff_exists : RevealedByExtent source selections ds d ↔
    ∃ p, Covered source.length selections p ∧ (extent (ds.filter (·.kind.isOwner)) d).start ≤ p ∧
      p ≤ (extent (ds.filter (·.kind.isOwner)) d).stop := by
  constructor
  · rintro ⟨s, hs, p, hp⟩
    exact extent_eq_iff.2 hs ▸ ⟨p, hp⟩
  · rintro ⟨p, hp⟩
    exact ⟨_, extent_eq_iff.1 rfl, p, hp⟩

theorem revealedByExtent_iff (hd : d.start ≤ d.stop) :
    (Focus.of source selections).selections.any (·.touches
        (extent (ds.filter (·.kind.isOwner)) d).start
        (extent (ds.filter (·.kind.isOwner)) d).stop) = true ↔
      RevealedByExtent source selections ds d := by
  have hextent : Extent ds d (extent (ds.filter (·.kind.isOwner)) d) := extent_eq_iff.1 rfl
  rw [any_touches_iff (hextent.ordered hd), revealedByExtent_iff_exists]

/-- The filter finds a decoration revealed just when it is. -/
theorem revealed_iff (hd : d.start ≤ d.stop) :
    revealed source (Focus.of source selections) (ds.filter (·.kind.isOwner)) d = true ↔
      Revealed source selections ds d := by
  cases hscope : d.kind.revealScope with
  | never | pinned => simp [revealed, Revealed, hscope]
  | line =>
    simp only [revealed, Revealed, hscope]
    exact revealedByLine_iff
  | span =>
    simp only [revealed, Revealed, hscope]
    exact revealedByExtent_iff hd

/-! ### Drawn decorations -/

instance : Decidable (RevealedByLine source selections d) :=
  decidable_of_iff _ revealedByLine_iff

-- a decoration that is inverted may have an inverted extent, in which no position is
instance : Decidable (RevealedByExtent source selections ds d) :=
  let e := extent (ds.filter (·.kind.isOwner)) d
  decidable_of_iff (e.start ≤ e.stop ∧
      (Focus.of source selections).selections.any (·.touches e.start e.stop) = true)
    ⟨fun ⟨hle, htouches⟩ => revealedByExtent_iff_exists.2 ((any_touches_iff hle).1 htouches),
      fun h =>
        have ⟨p, hp, hstart, hstop⟩ := revealedByExtent_iff_exists.1 h
        have hle := Nat.le_trans hstart hstop
        ⟨hle, (any_touches_iff hle).2 ⟨p, hp, hstart, hstop⟩⟩⟩

instance : Decidable (Revealed source selections ds d) :=
  match h : d.kind.revealScope with
  | .never => isFalse (by simp [Revealed, h])
  | .pinned => isFalse (by simp [Revealed, h])
  | .line => decidable_of_iff (RevealedByLine source selections d) (by simp [Revealed, h])
  | .span => decidable_of_iff (RevealedByExtent source selections ds d) (by simp [Revealed, h])

/-- The decorations of one kind that do not give way, in the order of the list. -/
def drawn (source : List Char) (selections : List Selection) (ds : List Decoration)
    (k : Kind) : List Decoration :=
  (inDocument source.length ds).filter fun d =>
    d.kind = k ∧ ¬ Revealed source selections (inDocument source.length ds) d

theorem mem_drawn : d ∈ drawn source selections ds k ↔
    d ∈ inDocument source.length ds ∧ d.kind = k ∧
      ¬ Revealed source selections (inDocument source.length ds) d := by
  simp only [drawn, List.mem_filter, decide_eq_true_eq]

/-! ### Groups -/

section Groups

variable {β : Type} {f : Kind → Option (Kind × β)}

/-- In a table whose rows are made from their keys, a key has the row made from it. -/
theorem lookup_filterMap (hf : ∀ k row, f k = some row → row.1 = k) (ks : List Kind) (k : Kind) :
    (ks.filterMap f).lookup k = if k ∈ ks then (f k).map (·.2) else none := by
  induction ks with
  | nil => rfl
  | cons j ks ih =>
    cases hrow : f j with
    | none =>
      rw [List.filterMap_cons_none hrow, ih]
      by_cases hkj : k = j
      · simp [hkj, hrow]
      · simp [hkj]
    | some row =>
      obtain ⟨j', b⟩ := row
      obtain rfl : j' = j := hf j _ hrow
      rw [List.filterMap_cons_some hrow, List.lookup_cons]
      by_cases hkj : k = j'
      · simp [hkj, hrow]
      · simp [hkj, ih, beq_eq_false_iff_ne.2 hkj]

theorem map_fst_filterMap_sublist (hf : ∀ k row, f k = some row → row.1 = k) (ks : List Kind) :
    ((ks.filterMap f).map Prod.fst).Sublist ks := by
  induction ks with
  | nil => exact .slnil
  | cons j ks ih =>
    cases hrow : f j with
    | none => simpa [hrow] using ih.cons j
    | some row => simpa [hrow, hf j row hrow] using ih

end Groups

/-- The row of a kind in a grouping, if the kind has decorations. -/
def groupRow (ds : List Decoration) (k : Kind) : Option (Kind × List Decoration) :=
  if ds.filter (·.kind == k) = [] then none else some (k, ds.filter (·.kind == k))

theorem group_eq (ds : List Decoration) : ByKind.group ds = Kind.all.filterMap (groupRow ds) := by
  rw [ByKind.group]
  congr 1
  funext k
  simp only [groupRow]
  split
  next h => rw [h, if_pos rfl]
  next h => rw [if_neg h]

theorem fst_of_groupRow {ds : List Decoration} (k : Kind) (r : Kind × List Decoration)
    (h : groupRow ds k = some r) : r.1 = k := by
  simp only [groupRow] at h
  split at h
  · simp at h
  · exact (congrArg Prod.fst (Option.some.inj h)).symm

theorem lookup_group (ds : List Decoration) (k : Kind) :
    (ByKind.group ds).lookup k =
      if ds.filter (·.kind == k) = [] then none else some (ds.filter (·.kind == k)) := by
  rw [group_eq, lookup_filterMap fst_of_groupRow, if_pos k.mem_all, groupRow]
  split <;> rfl

theorem map_fst_group_sublist (ds : List Decoration) :
    ((ByKind.group ds).map Prod.fst).Sublist Kind.all := by
  rw [group_eq]
  exact map_fst_filterMap_sublist fst_of_groupRow Kind.all

theorem get_eq_lookup (m : ByKind) (k : Kind) : m.get k = (m.lookup k).getD [] := by
  induction m with
  | nil => rfl
  | cons row m ih =>
    obtain ⟨j, own⟩ := row
    by_cases h : k = j
    · simp [ByKind.get, h]
    · simpa [ByKind.get, List.lookup_cons, beq_eq_false_iff_ne.2 h,
        beq_eq_false_iff_ne.2 (Ne.symm h)] using ih

/-! ### The filter -/

theorem filter_eq (ds : List Decoration) (source : List Char) (selections : List Selection) :
    filter ds source selections = .group ((inDocument source.length ds).filter fun d =>
      ¬ Revealed source selections (inDocument source.length ds) d) := by
  simp only [filter, filterMap_clamped?]
  congr 1
  refine List.filter_congr fun d hd => ?_
  rw [Bool.eq_iff_iff, decide_eq_true_iff, ← revealed_iff (ordered_of_mem_inDocument hd).1]
  simp

theorem filter_kind_eq_drawn :
    ((inDocument source.length ds).filter fun d =>
      ¬ Revealed source selections (inDocument source.length ds) d).filter (·.kind == k) =
      drawn source selections ds k := by
  rw [List.filter_filter, drawn]
  refine List.filter_congr fun d _ => ?_
  rw [Bool.eq_iff_iff]
  simp

/-- The filter maps a kind to those of its decorations that do not give way, and does not mention a
kind of which none are left. No kind is mentioned twice. -/
theorem lookup_filter (ds : List Decoration) (source : List Char) (selections : List Selection) :
    (∀ k, (filter ds source selections).lookup k =
      if drawn source selections ds k = [] then none else some (drawn source selections ds k)) ∧
    ((filter ds source selections).map Prod.fst).Sublist Kind.all := by
  rw [filter_eq]
  refine ⟨fun k => ?_, map_fst_group_sublist _⟩
  rw [lookup_group, filter_kind_eq_drawn]

/-- A cursor just behind a code span reveals both of its backticks. -/
example : drawn ['`', 'b', '`', 'c'] [.caret 3]
    [⟨0, 3, .code, none⟩, ⟨0, 1, .transparent, none⟩, ⟨2, 3, .transparent, none⟩]
    .transparent = [] := by decide

theorem get_filter (ds : List Decoration) (source : List Char) (selections : List Selection)
    (k : Kind) : (filter ds source selections).get k = drawn source selections ds k := by
  rw [get_eq_lookup, filter_eq, lookup_group, filter_kind_eq_drawn]
  split
  next h => exact h.symm
  next => rfl

/-- Of decorations that fit the document, those are drawn that do not give way. -/
theorem mem_get_filter_iff (hfit : ∀ d ∈ ds, d.start ≤ d.stop ∧ d.stop ≤ source.length) :
    d ∈ (filter ds source selections).get d.kind ↔ d ∈ ds ∧ ¬ Revealed source selections ds d := by
  rw [get_filter, mem_drawn, inDocument_eq_self hfit]
  simp only [true_and]

end MarkdownPreview.Decoration
