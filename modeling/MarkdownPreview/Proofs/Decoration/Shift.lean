import MarkdownPreview.Decoration.Filter
import MarkdownPreview.Proofs.Text.Prefix

/-! The filter in a document that has another text before it. Decorations and selections that move
together keep their distances, and their lines keep theirs. So the same decorations are drawn, moved
like the rest. -/

namespace MarkdownPreview

open Text

/-! ### Selections -/

namespace Selection

def shift (s : Selection) (n : Nat) : Selection := ⟨s.anchor + n, s.head + n⟩

variable (s : Selection) (n : Nat)

@[simp] theorem start_shift : (s.shift n).start = s.start + n := Nat.add_min_add_right _ _ n

@[simp] theorem stop_shift : (s.shift n).stop = s.stop + n := Nat.add_max_add_right _ _ n

@[simp] theorem touches_shift (first last : Nat) :
    (s.shift n).touches (first + n) (last + n) = s.touches first last := by
  simp [touches]

/-- A selection of a document stays in the document when both are moved. -/
theorem clamped_shift (length : Nat) :
    ((s.clamped length).shift n).clamped (n + length) = (s.clamped length).shift n := by
  simp only [clamped, shift, mk.injEq]
  omega

end Selection

namespace Decoration

def shift (d : Decoration) (n : Nat) : Decoration :=
  { d with start := d.start + n, stop := d.stop + n }

/-- The decorations to draw, moved by `n` characters. -/
def ByKind.shift (m : ByKind) (n : Nat) : ByKind :=
  m.map fun row => (row.1, row.2.map (·.shift n))

variable (d e : Decoration) (ds owners : List Decoration) (n : Nat)

@[simp] theorem kind_shift : (d.shift n).kind = d.kind := rfl

@[simp] theorem length_shift : (d.shift n).length = d.length := Span.length_shift d.span n

@[simp] theorem encloses_shift : (d.shift n).encloses (e.shift n) = d.encloses e :=
  Span.encloses_shift d.span e.span n

/-! ### Extents -/

theorem clamped?_shift (length : Nat) :
    clamped? (n + length) (d.shift n) = (clamped? length d).map (·.shift n) := by
  have hmin (p : Nat) : min (p + n) (n + length) = min p length + n := by omega
  simp only [clamped?, shift, Nat.add_le_add_iff_right, hmin]
  split <;> rfl

theorem shortest?_shift : shortest? (ds.map (·.shift n)) = (shortest? ds).map (·.shift n) := by
  induction ds with
  | nil => rfl
  | cons d ds ih =>
    simp only [List.map_cons, shortest?, ih]
    cases shortest? ds with
    | none => rfl
    | some e =>
      simp only [Option.map_some, length_shift]
      split <;> rfl

theorem extent_shift : extent (owners.map (·.shift n)) (d.shift n) = (extent owners d).shift n := by
  simp only [extent, List.filter_map, Function.comp_def, kind_shift, encloses_shift,
    shortest?_shift]
  cases shortest? (owners.filter fun o => d.kind.owners.contains o.kind && o.encloses d) with
  | none => rfl
  | some o => rfl

/-! ### Groups -/

theorem group_shift : ByKind.group (ds.map (·.shift n)) = (ByKind.group ds).shift n := by
  simp only [ByKind.group, ByKind.shift, List.map_filterMap]
  congr 1
  funext k
  simp only [List.filter_map, Function.comp_def, kind_shift]
  cases ds.filter (·.kind == k) with
  | nil => rfl
  | cons d own => rfl

/-! ### The filter -/

variable (before text : List Char) (selections : List Selection)

/-- The selections of a document, pulled into it and moved behind another text. -/
def movedSelections : List Selection :=
  selections.map fun s => (s.clamped text.length).shift before.length

theorem revealed_behind :
    revealed (before ++ text) (Focus.of (before ++ text) (movedSelections before text selections))
        (owners.map (·.shift before.length)) (d.shift before.length) =
      revealed text (Focus.of text selections) owners d := by
  simp only [revealed, kind_shift]
  split
  · rfl
  · rfl
  · simp only [shift, lineSpan_append, Focus.of, movedSelections, List.map_map, List.any_map,
      Function.comp_def, List.length_append, Selection.clamped_shift, Selection.start_shift,
      Selection.stop_shift, closedLineSpan_append, LineSpan.overlaps_shift]
  · simp only [extent_shift, Focus.of, movedSelections, List.map_map, List.any_map,
      Function.comp_def, List.length_append, Selection.clamped_shift, Span.shift_start,
      Span.shift_stop, Selection.touches_shift]

/-- Behind another text, the same decorations are drawn. -/
theorem filter_behind :
    filter (ds.map (·.shift before.length)) (before ++ text)
        (movedSelections before text selections) =
      (filter ds text selections).shift before.length := by
  have hclamped : (ds.map (·.shift before.length)).filterMap
      (clamped? (before ++ text).length) =
        (ds.filterMap (clamped? text.length)).map (·.shift before.length) := by
    simp only [List.filterMap_map, List.map_filterMap, Function.comp_def, List.length_append,
      clamped?_shift]
  simp only [filter, hclamped, List.filter_map, Function.comp_def, kind_shift, revealed_behind,
    group_shift]

end Decoration

end MarkdownPreview
