import MarkdownPreview.Markdown.Marker
import MarkdownPreview.Syntax.Heading

/-! Where the reader gets to. Its moves pass over the text between two places, so what it has read
can be put together from its moves; and at the start of a line, before the text of a block, it
passes over spaces, tabs and quote markers only. -/

namespace MarkdownPreview.Markdown

open Syntax (isLinePrefix)

namespace Cursor

/-- Between the two places stands the text. -/
def Passes (c : Cursor) (text : List Char) (c' : Cursor) : Prop :=
  c.rest = text ++ c'.rest ∧ c'.pos = c.pos + text.length

namespace Passes

variable {c c' c'' : Cursor} {text text' : List Char}

theorem refl (c : Cursor) : c.Passes [] c := ⟨rfl, rfl⟩

theorem trans (h : c.Passes text c') (h' : c'.Passes text' c'') :
    c.Passes (text ++ text') c'' := by
  obtain ⟨hrest, hpos⟩ := h
  obtain ⟨hrest', hpos'⟩ := h'
  refine ⟨by rw [hrest, hrest', List.append_assoc], ?_⟩
  rw [hpos', hpos, List.length_append, Nat.add_assoc]

end Passes

/-! ### Places of one source -/

/-- The place is one of the source. -/
def On (source : List Char) (c : Cursor) : Prop := c.rest = source.drop c.pos

namespace On

variable {source text : List Char} {c c' : Cursor}

theorem of_passes (h : c.On source) (hc : c.Passes text c') : c'.On source := by
  obtain ⟨hrest, hpos⟩ := hc
  rw [On, hpos, ← List.drop_drop, ← h, hrest, List.drop_left]

theorem ofLine (h : c.On source) (n : Nat) :
    (Cursor.ofLine (c.pos + n) (c.rest.drop n)).On source := by
  rw [On, h, List.drop_drop]
  rfl

theorem advance (h : c.On source) (n : Nat) : (c.advance n).On source := h.ofLine n

theorem skipAll (h : c.On source) : c.skipAll.On source := h.advance _

end On

/-! ### Prefixes of lines -/

/-- Between the two places stands nothing but spaces, tabs and quote markers. -/
def PassesPrefix (c c' : Cursor) : Prop :=
  ∃ text, c.Passes text c' ∧ ∀ ch ∈ text, isLinePrefix ch = true

theorem PassesPrefix.refl (c : Cursor) : c.PassesPrefix c := ⟨[], .refl c, by simp⟩

theorem PassesPrefix.of_passes {c c' : Cursor} {ch : Char} (h : c.Passes [ch] c')
    (hch : isLinePrefix ch = true) : c.PassesPrefix c' :=
  ⟨[ch], h, List.forall_mem_singleton.2 hch⟩

theorem PassesPrefix.trans {c c' c'' : Cursor} (h : c.PassesPrefix c')
    (h' : c'.PassesPrefix c'') : c.PassesPrefix c'' := by
  obtain ⟨text, hpasses, htext⟩ := h
  obtain ⟨text', hpasses', htext'⟩ := h'
  exact ⟨text ++ text', hpasses.trans hpasses', List.forall_mem_append.2 ⟨htext, htext'⟩⟩

theorem On.of_passesPrefix {source : List Char} {c c' : Cursor} (h : c.On source)
    (hc : c.PassesPrefix c') : c'.On source :=
  have ⟨_, hpasses, _⟩ := hc
  h.of_passes hpasses

/-! ### Indentation -/

theorem skipFrom_passesPrefix (pos origin spaces origin' spaces' : Nat) (rest : List Char)
    (n : Nat) :
    PassesPrefix ⟨pos, rest, origin', spaces'⟩ (skipFrom pos origin spaces rest n).2 := by
  fun_induction skipFrom pos origin spaces rest n with
  | case1 => exact ⟨[], ⟨rfl, rfl⟩, by simp⟩
  | case2 pos origin spaces rest n ih =>
    have hspace : PassesPrefix ⟨pos, ' ' :: rest, origin', spaces'⟩
        ⟨pos + 1, rest, origin', spaces'⟩ := .of_passes (show Passes _ [' '] _ from ⟨rfl, rfl⟩) rfl
    exact hspace.trans ih
  | case3 pos origin spaces rest n width ih =>
    have htab : PassesPrefix ⟨pos, '\t' :: rest, origin', spaces'⟩
        ⟨pos + 1, rest, origin', spaces'⟩ := .of_passes (show Passes _ ['\t'] _ from ⟨rfl, rfl⟩) rfl
    exact htab.trans ih
  | case4 => exact ⟨[], ⟨rfl, rfl⟩, by simp⟩

theorem skipUpTo_passesPrefix {c : Cursor} {n : Nat} {r : Nat × Cursor} (h : c.skipUpTo n = r) :
    c.PassesPrefix r.2 := by
  subst h
  exact skipFrom_passesPrefix c.pos c.origin _ c.origin c.spaces c.rest _

theorem skipUpTo_fst_le (c : Cursor) (n : Nat) : (c.skipUpTo n).1 ≤ n := Nat.sub_le _ _

theorem skip_passesPrefix {c : Cursor} {n : Nat} {r : Bool × Cursor} (h : c.skip n = r) :
    c.PassesPrefix r.2 := by
  subst h
  exact skipUpTo_passesPrefix (r := c.skipUpTo n) rfl

/-! ### Containers -/

theorem char?_passes {c c' : Cursor} {ch : Char} (h : c.char? ch = some c') :
    c.Passes [ch] c' := by
  obtain ⟨pos, rest, origin, spaces⟩ := c
  cases rest with
  | nil => simp [char?] at h
  | cons d rest =>
    simp only [char?] at h
    split at h
    next hd =>
      obtain rfl := Option.some.inj h
      exact ⟨by rw [hd]; rfl, rfl⟩
    · simp at h

theorem quoteMarker?_passesPrefix {c c' : Cursor} (h : c.quoteMarker? = some c') :
    c.PassesPrefix c' := by
  obtain ⟨inner, hinner, rfl⟩ := Option.map_eq_some_iff.1 h
  exact .trans (.of_passes (char?_passes hinner) rfl) (skip_passesPrefix rfl)

end Cursor

theorem Container.continue?_passesPrefix {k : Container} {c c' : Cursor}
    (h : k.continue? c = some c') : c.PassesPrefix c' := by
  cases k with
  | blockquote =>
    exact (Cursor.skipUpTo_passesPrefix rfl).trans (Cursor.quoteMarker?_passesPrefix h)
  | indented columns =>
    simp only [continue?] at h
    split at h
    · exact Option.some.inj h ▸ Cursor.skip_passesPrefix rfl
    · simp at h
  | list => exact Option.some.inj h ▸ .refl c

theorem continueAll_passesPrefix (containers : List Container) (c : Cursor) :
    c.PassesPrefix (continueAll containers c).2 := by
  induction containers generalizing c with
  | nil => exact .refl c
  | cons k ks ih =>
    simp only [continueAll]
    cases hk : k.continue? c with
    | none => exact .refl c
    | some inner => exact (Container.continue?_passesPrefix hk).trans (ih inner)

theorem Place.continues_passesPrefix {p : Place} {c : Cursor} {r : Bool × Cursor}
    (h : p.continues c = r) : c.PassesPrefix r.2 := by
  subst h
  exact continueAll_passesPrefix p.containers c

/-! ### Runs -/

theorem countRun_le (c : Char) (text : List Char) : countRun c text ≤ text.length :=
  (List.takeWhile_prefix _).length_le

theorem mem_take_countRun {c d : Char} {text : List Char} (h : d ∈ text.take (countRun c text)) :
    d = c := by
  rw [countRun, ← List.prefix_iff_eq_take.1 (List.takeWhile_prefix _)] at h
  simpa using List.all_eq_true.1 List.all_takeWhile d h

/-! ### Lines -/

theorem lineLength_le (text : List Char) : lineLength text ≤ text.length := by
  induction text with
  | nil => exact Nat.le_refl _
  | cons c rest ih =>
    simp only [lineLength, List.length_cons]
    split <;> omega

theorem length_take_lineLength (text : List Char) :
    (text.take (lineLength text)).length = lineLength text := by
  rw [List.length_take, Nat.min_eq_left (lineLength_le text)]

/-- A line is the text before its line feed, and the line feed. -/
theorem take_lineLength (text : List Char) : text.take (lineLength text) =
    text.takeWhile (· != '\n') ++ (text.dropWhile (· != '\n')).take 1 := by
  induction text with
  | nil => rfl
  | cons c rest ih =>
    by_cases hc : c = '\n'
    · simp [lineLength, hc]
    · simp [lineLength, hc, Nat.add_comm 1, ih]

theorem drop_lineLength (text : List Char) :
    text.drop (lineLength text) = (text.dropWhile (· != '\n')).drop 1 := by
  induction text with
  | nil => rfl
  | cons c rest ih =>
    by_cases hc : c = '\n'
    · simp [lineLength, hc]
    · simpa [lineLength, hc, Nat.add_comm 1] using ih

/-- A line stays a line when the text after it is cut short. -/
theorem lineLength_append {text lines : List Char} (h : lines <+: text.drop (lineLength text)) :
    lineLength (text.take (lineLength text) ++ lines) = lineLength text := by
  induction text with
  | nil => simp [List.prefix_nil.1 h]
  | cons c rest ih =>
    by_cases hc : c = '\n'
    · simp [lineLength, hc]
    · rw [lineLength, if_neg hc, Nat.add_comm] at h ⊢
      rw [List.take_succ_cons, List.cons_append, lineLength, if_neg hc, ih h, Nat.add_comm]

/-- What follows a line follows its line feed. -/
theorem getLast?_take_lineLength {text : List Char} (h : text.drop (lineLength text) ≠ []) :
    (text.take (lineLength text)).getLast? = some '\n' := by
  induction text with
  | nil => simp at h
  | cons c rest ih =>
    by_cases hc : c = '\n'
    · simp [lineLength, hc]
    · rw [lineLength, if_neg hc, Nat.add_comm] at h ⊢
      rw [List.take_succ_cons, List.getLast?_cons, ih h]
      rfl

/-- The start of the line after the one at a place. -/
theorem nextLine_passes (c : Cursor) : c.Passes (c.rest.take (lineLength c.rest))
    (.ofLine (c.pos + lineLength c.rest) (c.rest.drop (lineLength c.rest))) := by
  refine ⟨(List.take_append_drop _ _).symm, ?_⟩
  rw [length_take_lineLength]
  rfl

end MarkdownPreview.Markdown
