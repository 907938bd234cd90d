import MarkdownPreview.Text.Offset
import MarkdownPreview.Text.Blank

/-! Where one text stands in another. A text that stands at a byte offset has its characters at the
corresponding character offset, and its parts stand where the parts before them end. A slice by
bytes is such a text, so positions inside a slice never have to be computed twice. -/

namespace MarkdownPreview.Text

/-! ### Lengths -/

theorem length_le_byteLength (text : List Char) : text.length ≤ byteLength text := by
  induction text with
  | nil => exact Nat.le_refl _
  | cons c cs ih =>
    have := c.utf8Size_pos
    simp only [List.length_cons, byteLength_cons]
    omega

theorem byteLength_pos {text : List Char} (h : text ≠ []) : 0 < byteLength text :=
  Nat.lt_of_lt_of_le (List.length_pos_iff.2 h) (length_le_byteLength text)

theorem byteLength_eq_zero_iff (text : List Char) : byteLength text = 0 ↔ text = [] := by
  constructor
  · intro h
    by_cases ht : text = []
    · exact ht
    · have := byteLength_pos ht
      omega
  · rintro rfl
    rfl

theorem byteLength_reverse (text : List Char) : byteLength text.reverse = byteLength text := by
  induction text with
  | nil => rfl
  | cons c cs ih =>
    rw [List.reverse_cons, byteLength_append, ih]
    simp [Nat.add_comm]

/-- A text of one-byte characters has as many bytes as characters. -/
theorem byteLength_eq_length {text : List Char} (h : ∀ c ∈ text, c.utf8Size = 1) :
    byteLength text = text.length := by
  induction text with
  | nil => rfl
  | cons c cs ih =>
    rw [byteLength_cons, h c List.mem_cons_self,
      ih fun d hd => h d (List.mem_cons_of_mem _ hd), List.length_cons, Nat.add_comm]

/-! ### Character offsets -/

/-- A prefix of a text has its length as the character offset of its end. -/
theorem charOffset_append (u v : List Char) : charOffset (u ++ v) (byteLength u) = u.length := by
  induction u with
  | nil =>
    cases v with
    | nil => rfl
    | cons c cs =>
      have := c.utf8Size_pos
      simp [charOffset]
      omega
  | cons c u ih => simp [charOffset, ih]

theorem byteOffset_mono (text : List Char) {a b : Nat} (h : a ≤ b) :
    byteOffset text a ≤ byteOffset text b := by
  induction text generalizing a b with
  | nil => exact Nat.le_refl _
  | cons c cs ih =>
    cases a with
    | zero => exact Nat.zero_le _
    | succ a =>
      obtain ⟨b, rfl⟩ := Nat.exists_eq_add_of_lt h
      exact Nat.add_le_add_left (ih (by omega)) _

/-- A character begins before what stands behind it. -/
theorem byteOffset_lt {text : List Char} {a b : Nat} (ha : a < text.length) (h : a < b) :
    byteOffset text a < byteOffset text b := by
  induction text generalizing a b with
  | nil => exact absurd ha (Nat.not_lt_zero a)
  | cons c cs ih =>
    obtain ⟨b, rfl⟩ := Nat.exists_eq_add_of_lt h
    cases a with
    | zero => exact Nat.lt_of_lt_of_le c.utf8Size_pos (Nat.le_add_right _ _)
    | succ a => exact Nat.add_lt_add_left (ih (Nat.lt_of_succ_lt_succ ha) (by omega)) _

/-- A prefix of a text has its length in bytes as the byte offset of its end. -/
theorem byteOffset_append (u v : List Char) : byteOffset (u ++ v) u.length = byteLength u := by
  induction u with
  | nil => cases v <;> rfl
  | cons c u ih => simp [byteOffset, ih]

/-- A byte before the end of a prefix lies in one of its characters. -/
theorem charOffset_lt_length {u : List Char} (v : List Char) {b : Nat} (h : b < byteLength u) :
    charOffset (u ++ v) b < u.length := by
  induction u generalizing b with
  | nil => simp at h
  | cons c u ih =>
    rw [byteLength_cons] at h
    simp only [List.cons_append, charOffset, List.length_cons]
    split
    · have := ih (b := b - c.utf8Size) (by omega)
      omega
    · omega

/-- A character starts at byte `b` of the text, or the text ends there. -/
def Boundary (text : List Char) (b : Nat) : Prop := ∃ u v, text = u ++ v ∧ byteLength u = b

/-- The span starts and stops between characters. -/
def Aligned (text : List Char) (bytes : Span) : Prop :=
  Boundary text bytes.start ∧ Boundary text bytes.stop

/-- The span reaches at neither end past the end of the text. -/
def Within (text : List Char) (bytes : Span) : Prop :=
  bytes.start ≤ byteLength text ∧ bytes.stop ≤ byteLength text

instance (text : List Char) (bytes : Span) : Decidable (Within text bytes) :=
  inferInstanceAs (Decidable (_ ∧ _))

/-- A character starts at the byte offset of its index. -/
theorem boundary_byteOffset (text : List Char) (n : Nat) : Boundary text (byteOffset text n) := by
  induction text generalizing n with
  | nil => exact ⟨[], [], rfl, rfl⟩
  | cons c cs ih =>
    cases n with
    | zero => exact ⟨[], c :: cs, rfl, rfl⟩
    | succ n =>
      obtain ⟨u, v, htext, hu⟩ := ih n
      refine ⟨c :: u, v, congrArg (c :: ·) htext, ?_⟩
      rw [byteLength_cons, hu, byteOffset]

theorem Boundary.le {text : List Char} {b : Nat} (h : Boundary text b) : b ≤ byteLength text := by
  obtain ⟨u, v, rfl, rfl⟩ := h
  rw [byteLength_append]
  omega

/-- Of two bytes, the later of which is between characters, there is a character from the first to
the second. -/
theorem charOffset_lt {text : List Char} {a b : Nat} (hb : Boundary text b) (h : a < b) :
    charOffset text a < charOffset text b := by
  obtain ⟨u, v, rfl, rfl⟩ := hb
  rw [charOffset_append]
  exact charOffset_lt_length v h

theorem charOffset_le_iff {text : List Char} {a b : Nat} (ha : Boundary text a) :
    charOffset text a ≤ charOffset text b ↔ a ≤ b := by
  refine ⟨fun h => Nat.le_of_not_lt fun hlt => ?_, charOffset_mono text⟩
  have := charOffset_lt ha hlt
  omega

/-! ### Standing in a text -/

/-- The text stands at byte `pos` of the source. An empty text stands anywhere. -/
def StandsAt (source : List Char) (pos : Nat) (text : List Char) : Prop :=
  text ≠ [] → ∃ before after, source = before ++ text ++ after ∧ byteLength before = pos

variable {source u v text : List Char} {pos : Nat}

theorem StandsAt.left (h : StandsAt source pos (u ++ v)) : StandsAt source pos u := by
  intro hu
  obtain ⟨before, after, hs, hp⟩ := h (by simp [hu])
  exact ⟨before, v ++ after, by simp [hs], hp⟩

theorem StandsAt.right (h : StandsAt source pos (u ++ v)) :
    StandsAt source (pos + byteLength u) v := by
  intro hv
  obtain ⟨before, after, hs, hp⟩ := h (by simp [hv])
  exact ⟨before ++ u, after, by simp [hs], by rw [byteLength_append, hp]⟩

theorem StandsAt.of_isPrefix (h : StandsAt source pos text) (hu : u <+: text) :
    StandsAt source pos u := by
  obtain ⟨v, rfl⟩ := hu
  exact h.left

/-- Where a text ends, a character ends. -/
theorem StandsAt.boundary_stop (h : StandsAt source pos text) (ht : text ≠ []) :
    Boundary source (pos + byteLength text) := by
  obtain ⟨before, after, hs, hp⟩ := h ht
  exact ⟨before ++ text, after, hs, by rw [byteLength_append, hp]⟩

/-- Where a text begins, a character begins. -/
theorem StandsAt.boundary_start (h : StandsAt source pos text) (ht : text ≠ []) :
    Boundary source pos := by
  obtain ⟨before, after, hs, hp⟩ := h ht
  exact ⟨before, text ++ after, by rw [hs, List.append_assoc], hp⟩

/-- Where a part of a text begins, a character begins. -/
theorem StandsAt.boundary_inside (h : StandsAt source pos (u ++ v)) (ht : u ++ v ≠ []) :
    Boundary source (pos + byteLength u) := by
  obtain ⟨before, after, hs, hp⟩ := h ht
  exact ⟨before ++ u, v ++ after, by simp [hs], by rw [byteLength_append, hp]⟩

/-- Of two prefixes of a text, the one with fewer bytes is a prefix of the other. -/
theorem isPrefix_of_byteLength_le (hu : u <+: source) (hv : v <+: source)
    (hle : byteLength u ≤ byteLength v) : u <+: v := by
  obtain h | ⟨piece, rfl⟩ := List.prefix_or_prefix_of_prefix hu hv
  · exact h
  · rw [byteLength_append] at hle
    obtain rfl : piece = [] := (byteLength_eq_zero_iff piece).1 (by omega)
    exact ⟨[], by simp⟩

/-- What stands within the bytes of a text is a piece of it. -/
theorem StandsAt.isInfix {pos' : Nat} (h : StandsAt source pos text) (hv : StandsAt source pos' v)
    (hstart : pos ≤ pos') (hstop : pos' + byteLength v ≤ pos + byteLength text) : v <:+: text := by
  by_cases hne : v = []
  · rw [hne]
    exact List.nil_infix
  have htext : text ≠ [] := by
    rintro rfl
    have := byteLength_pos hne
    rw [byteLength_nil] at hstop
    omega
  obtain ⟨before, after, hsource, rfl⟩ := h htext
  obtain ⟨before', after', hsource', rfl⟩ := hv hne
  have hbefore : before <+: source := ⟨text ++ after, by rw [hsource, List.append_assoc]⟩
  have hbefore' : before' <+: source := ⟨v ++ after', by rw [hsource', List.append_assoc]⟩
  have hlead : before <+: before' := isPrefix_of_byteLength_le hbefore hbefore' hstart
  obtain ⟨between, rfl⟩ := hlead
  have hpiece : before ++ between ++ v <+: before ++ text := by
    apply isPrefix_of_byteLength_le ⟨after', hsource'.symm⟩ ⟨after, hsource.symm⟩
    rw [byteLength_append, byteLength_append before text]
    exact hstop
  rw [List.append_assoc, List.prefix_append_right_inj] at hpiece
  exact (List.suffix_append between v).isInfix.trans hpiece.isInfix

/-- The characters of a text that stands at a byte offset follow one another from the corresponding
character offset on. -/
theorem StandsAt.charOffset_stop (h : StandsAt source pos text) (ht : text ≠ []) :
    charOffset source (pos + byteLength text) = charOffset source pos + text.length := by
  obtain ⟨before, after, rfl, rfl⟩ := h ht
  have hstart : charOffset (before ++ text ++ after) (byteLength before) = before.length := by
    rw [List.append_assoc]
    exact charOffset_append before (text ++ after)
  rw [hstart, ← byteLength_append, charOffset_append, List.length_append]

/-! ### Slices -/

theorem dropBytes?_eq_some_iff {b : Nat} :
    dropBytes? text b = some v ↔ ∃ u, text = u ++ v ∧ byteLength u = b := by
  induction text generalizing b with
  | nil =>
    cases b with
    | zero =>
      simp only [dropBytes?, Option.some.injEq, byteLength_eq_zero_iff]
      exact ⟨fun h => ⟨[], by simp [h], rfl⟩, by rintro ⟨u, h, rfl⟩; simpa using h⟩
    | succ b =>
      simp only [dropBytes?, reduceCtorEq, false_iff, not_exists, not_and]
      intro u h
      obtain ⟨rfl, -⟩ := List.append_eq_nil_iff.1 h.symm
      simp
  | cons c cs ih =>
    cases b with
    | zero =>
      simp only [dropBytes?, Option.some.injEq, byteLength_eq_zero_iff]
      exact ⟨fun h => ⟨[], by simp [h], rfl⟩, by rintro ⟨u, h, rfl⟩; simpa using h⟩
    | succ b =>
      simp only [dropBytes?]
      constructor
      · intro h
        split at h
        · obtain ⟨u, rfl, hu⟩ := ih.1 h
          exact ⟨c :: u, rfl, by rw [byteLength_cons]; omega⟩
        · simp at h
      · rintro ⟨u, h, hu⟩
        cases u with
        | nil => simp at hu
        | cons d u =>
          obtain ⟨rfl, rfl⟩ := List.cons.inj h
          rw [byteLength_cons] at hu
          rw [if_pos (by omega), ih]
          exact ⟨u, rfl, by omega⟩

theorem takeBytes?_eq_some_iff {b : Nat} :
    takeBytes? text b = some u ↔ ∃ v, text = u ++ v ∧ byteLength u = b := by
  induction text generalizing b u with
  | nil =>
    cases b with
    | zero =>
      simp only [takeBytes?, Option.some.injEq, byteLength_eq_zero_iff]
      exact ⟨fun h => ⟨[], by simp [← h]⟩, by rintro ⟨v, -, h⟩; exact h.symm⟩
    | succ b =>
      simp only [takeBytes?, reduceCtorEq, false_iff, not_exists, not_and]
      intro v h
      obtain ⟨rfl, -⟩ := List.append_eq_nil_iff.1 h.symm
      simp
  | cons c cs ih =>
    cases b with
    | zero =>
      simp only [takeBytes?, Option.some.injEq, byteLength_eq_zero_iff]
      exact ⟨fun h => ⟨c :: cs, by simp [← h]⟩, by rintro ⟨v, -, h⟩; exact h.symm⟩
    | succ b =>
      simp only [takeBytes?]
      constructor
      · intro h
        split at h
        · obtain ⟨w, hw, rfl⟩ := Option.map_eq_some_iff.1 h
          obtain ⟨v, rfl, hb⟩ := ih.1 hw
          exact ⟨v, rfl, by rw [byteLength_cons]; omega⟩
        · simp at h
      · rintro ⟨v, h, hu⟩
        cases u with
        | nil => simp at hu
        | cons d u =>
          obtain ⟨rfl, rfl⟩ := List.cons.inj h
          rw [byteLength_cons] at hu
          rw [if_pos (by omega), ih.2 ⟨v, rfl, by omega⟩, Option.map_some]

theorem boundary_iff_isSome {b : Nat} : Boundary text b ↔ (takeBytes? text b).isSome = true := by
  rw [Option.isSome_iff_exists]
  exact exists_congr fun u => takeBytes?_eq_some_iff.symm

instance (text : List Char) (b : Nat) : Decidable (Boundary text b) :=
  decidable_of_iff _ boundary_iff_isSome.symm

instance (text : List Char) (bytes : Span) : Decidable (Aligned text bytes) :=
  inferInstanceAs (Decidable (_ ∧ _))

/-- A slice of a text stands where the span starts and ends where it stops. -/
theorem byteSlice?_eq_some_iff {bytes : Span} :
    byteSlice? source bytes = some text ↔
      ∃ before after, source = before ++ text ++ after ∧ byteLength before = bytes.start ∧
        bytes.stop = bytes.start + byteLength text := by
  simp only [byteSlice?]
  constructor
  · intro h
    split at h
    · obtain ⟨rest, hd, ht⟩ := Option.bind_eq_some_iff.1 h
      obtain ⟨before, rfl, hb⟩ := dropBytes?_eq_some_iff.1 hd
      obtain ⟨after, rfl, hl⟩ := takeBytes?_eq_some_iff.1 ht
      exact ⟨before, after, by simp, hb, by omega⟩
    · simp at h
  · rintro ⟨before, after, rfl, hb, hs⟩
    rw [if_pos (by omega),
      dropBytes?_eq_some_iff.2 ⟨before, List.append_assoc before text after, hb⟩,
      Option.bind_some, takeBytes?_eq_some_iff]
    exact ⟨after, rfl, by omega⟩

/-- A span between characters that is not inverted has a slice. -/
theorem Aligned.exists_byteSlice? {bytes : Span} (h : Aligned source bytes)
    (hle : bytes.start ≤ bytes.stop) : ∃ text, byteSlice? source bytes = some text := by
  obtain ⟨⟨before, rest, hsource, hstart⟩, ⟨upto, after, hsource', hstop⟩⟩ := h
  have hprefix : before <+: upto := by
    apply isPrefix_of_byteLength_le ⟨rest, hsource.symm⟩ ⟨after, hsource'.symm⟩
    rwa [hstart, hstop]
  obtain ⟨text, rfl⟩ := hprefix
  refine ⟨text, byteSlice?_eq_some_iff.2 ⟨before, after, hsource', hstart, ?_⟩⟩
  rw [← hstop, byteLength_append, hstart]

end MarkdownPreview.Text
