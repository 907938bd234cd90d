import MarkdownPreview.Proofs.Selection.Notation

/-! The notation for selections apart from its reader. An offset is a numeral with white space
around it, and the first colon parts the offset of the anchor from that of the head. What is no
selection has a first part that is no offset, and the reader's error is about this part. -/

namespace MarkdownPreview.Selection

open Text

variable {input before part after : List Char} {n pos : Nat} {s : Selection}

/-! ### Offsets -/

/-- The part is a numeral of the offset, but for white space on both sides. -/
def IsOffset (part : List Char) (n : Nat) : Prop :=
  ∃ lead text trail, part = lead ++ text ++ trail ∧ (∀ c ∈ lead, isBlank c = true) ∧
    (∀ c ∈ trail, isBlank c = true) ∧ IsWord text n

theorem offset?_eq_ok_iff : offset? part = .ok n ↔ IsOffset part n := by
  constructor
  · intro h
    obtain ⟨lead, trail, hpart, hlead, htrail⟩ := exists_append_trim isBlank part
    exact ⟨lead, _, trail, hpart, hlead, htrail, word?_eq_some_iff.1 (word?_of_offset? h)⟩
  · rintro ⟨lead, text, trail, rfl, hlead, htrail, hword⟩
    have htext : offset? text = .ok n := offset?_of_word? (word?_eq_some_iff.2 hword)
    rw [offset?, trim_append_of_mem text hlead htrail]
    exact htext

theorem isOffset_decimal (h : n < UInt64.size) : IsOffset (decimal n) n :=
  ⟨[], decimal n, [], by simp, by simp, by simp, isWord_decimal h⟩

/-- What is no offset misses one when there is nothing in it but white space. -/
theorem offset?_eq_error_iff {fault : OffsetFault} : offset? part = .error fault ↔
    (∀ n, ¬ IsOffset part n) ∧ (fault = .missing ↔ ∀ c ∈ part, isBlank c = true) := by
  simp only [← offset?_eq_ok_iff, ← trim_eq_nil_iff, offset?]
  by_cases hblank : trim isBlank part = []
  · cases fault <;> simp [hblank]
  · cases hword : word? (trim isBlank part) <;> cases fault <;> simp [hblank]

theorem isOffset_or_not (part : List Char) : (∃ n, IsOffset part n) ∨ ∀ n, ¬ IsOffset part n :=
  (em _).imp_right not_exists.1

/-! ### Selections -/

/-- The input is the notation for the selection. -/
inductive Denotes : List Char → Selection → Prop
  | caret {input : List Char} {n : Nat} (hcolon : ':' ∉ input) (h : IsOffset input n) :
      Denotes input (caret n)
  | range {anchor head : List Char} {a b : Nat} (hcolon : ':' ∉ anchor) (ha : IsOffset anchor a)
      (hb : IsOffset head b) : Denotes (anchor ++ ':' :: head) ⟨a, b⟩

/-- The part is the first one that is no offset, in an input that has the other two texts before it
and behind it. -/
inductive FirstFault : List Char → List Char → List Char → Prop
  | caret {part : List Char} (hcolon : ':' ∉ part) (h : ∀ n, ¬ IsOffset part n) :
      FirstFault [] part []
  | anchor {part head : List Char} (hcolon : ':' ∉ part) (h : ∀ n, ¬ IsOffset part n) :
      FirstFault [] part (':' :: head)
  | head {anchor part : List Char} {a : Nat} (hcolon : ':' ∉ anchor) (ha : IsOffset anchor a)
      (h : ∀ n, ¬ IsOffset part n) : FirstFault (anchor ++ [':']) part []

theorem FirstFault.not_isOffset (h : FirstFault before part after) : ∀ n, ¬ IsOffset part n := by
  cases h <;> assumption

/-- Every input is the notation for a selection or has a first part that is no offset. -/
theorem denotes_or_firstFault (input : List Char) : (∃ s, Denotes input s) ∨
    ∃ before part after, input = before ++ part ++ after ∧ FirstFault before part after := by
  by_cases hcolon : ':' ∈ input
  · obtain ⟨anchor, head, rfl, hanchor⟩ := List.eq_append_cons_of_mem hcolon
    obtain ⟨a, ha⟩ | hno := isOffset_or_not anchor
    · obtain ⟨b, hb⟩ | hno := isOffset_or_not head
      · exact .inl ⟨⟨a, b⟩, .range hanchor ha hb⟩
      · exact .inr ⟨anchor ++ [':'], head, [], by simp, .head hanchor ha hno⟩
    · exact .inr ⟨[], anchor, ':' :: head, rfl, .anchor hanchor hno⟩
  · obtain ⟨n, hn⟩ | hno := isOffset_or_not input
    · exact .inl ⟨caret n, .caret hcolon hn⟩
    · exact .inr ⟨[], input, [], by simp, .caret hcolon hno⟩

theorem parse_of_denotes (h : Denotes input s) : parse input = .ok s := by
  cases h with
  | caret _ h => exact parse_offset (offset?_eq_ok_iff.2 h)
  | range _ ha hb => exact parse_offsets (offset?_eq_ok_iff.2 ha) (offset?_eq_ok_iff.2 hb)

theorem parse_of_firstFault (h : FirstFault before part after) {fault : OffsetFault}
    (hfault : offset? part = .error fault) : parse (before ++ part ++ after) =
      .error ⟨before ++ part ++ after, ⟨byteLength before, byteLength before + byteLength part⟩,
        fault⟩ := by
  cases h with
  | caret hcolon =>
    rw [List.nil_append, List.append_nil, parse_of_not_mem hcolon, offsetAt?, hfault]
    rfl
  | anchor hcolon =>
    rw [List.nil_append, parse_append_colon hcolon, offsetAt?, hfault]
    rfl
  | head hcolon ha =>
    rw [List.append_nil, List.append_assoc, List.singleton_append, parse_append_colon hcolon,
      offsetAt?, offset?_eq_ok_iff.2 ha, offsetAt?, hfault, byteLength_append]
    rfl

theorem parse_eq_ok_iff : parse input = .ok s ↔ Denotes input s := by
  refine ⟨fun h => ?_, parse_of_denotes⟩
  obtain ⟨t, ht⟩ | ⟨before, part, after, rfl, hfirst⟩ := denotes_or_firstFault input
  · rw [parse_of_denotes ht] at h
    exact Except.ok.inj h ▸ ht
  · cases hpart : offset? part with
    | ok n => exact absurd (offset?_eq_ok_iff.1 hpart) (hfirst.not_isOffset n)
    | error fault =>
      rw [parse_of_firstFault hfirst hpart] at h
      cases h

theorem parse_eq_error_iff {e : NotationError} : parse input = .error e ↔
    e.input = input ∧ ∃ before part after, FirstFault before part after ∧
      input = before ++ part ++ after ∧
      e.span = ⟨byteLength before, byteLength before + byteLength part⟩ ∧
      e.span.stop ≤ byteLength input ∧ (e.fault = .missing ↔ ∀ c ∈ part, isBlank c = true) := by
  constructor
  · intro h
    obtain ⟨t, ht⟩ | ⟨before, part, after, rfl, hfirst⟩ := denotes_or_firstFault input
    · rw [parse_of_denotes ht] at h
      cases h
    · cases hpart : offset? part with
      | ok n => exact absurd (offset?_eq_ok_iff.1 hpart) (hfirst.not_isOffset n)
      | error fault =>
        rw [parse_of_firstFault hfirst hpart] at h
        obtain rfl := Except.error.inj h
        refine ⟨rfl, before, part, after, hfirst, rfl, rfl, ?_, (offset?_eq_error_iff.1 hpart).2⟩
        rw [byteLength_append, byteLength_append]
        exact Nat.le_add_right _ _
  · rintro ⟨rfl, before, part, after, hfirst, hinput, hspan, -, hfault⟩
    have hpart := offset?_eq_error_iff.2 ⟨hfirst.not_isOffset, hfault⟩
    rw [hinput, parse_of_firstFault hfirst hpart, ← hinput, ← hspan]

/-- A selection is read from its notation and from nothing else. Everywhere else the error is about
the first part that is no offset, by its bytes in the input, and says whether that part is blank.
The decimal text of any two numbers of 64 bits denotes the selection between them. -/
theorem parse_denotes (input : List Char) :
    (∀ s, parse input = .ok s ↔ Denotes input s) ∧
    (∀ e, parse input = .error e ↔ e.input = input ∧ ∃ before part after,
      FirstFault before part after ∧ input = before ++ part ++ after ∧
      e.span = ⟨byteLength before, byteLength before + byteLength part⟩ ∧
      e.span.stop ≤ byteLength input ∧ (e.fault = .missing ↔ ∀ c ∈ part, isBlank c = true)) ∧
    ∀ anchor head : UInt64, parse (print ⟨anchor.toNat, head.toNat⟩) =
      .ok ⟨anchor.toNat, head.toNat⟩ := by
  refine ⟨fun s => parse_eq_ok_iff, fun e => parse_eq_error_iff, fun anchor head => ?_⟩
  have hanchor := isOffset_decimal anchor.toNat_lt_size
  have hhead := isOffset_decimal head.toNat_lt_size
  exact parse_offsets (offset?_eq_ok_iff.2 hanchor) (offset?_eq_ok_iff.2 hhead)

/-- The blank head, one character of three bytes, is the first bad part. -/
example : parse "+07:\u3000".toList = .error ⟨"+07:\u3000".toList, ⟨4, 7⟩, .missing⟩ := by decide

end MarkdownPreview.Selection
