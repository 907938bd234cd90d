import MarkdownPreview.Proofs.Syntax.FencedCode
import MarkdownPreview.Proofs.Writer.Hiding

/-! The marks of a fenced code block. They follow the pieces of its slice: those of the opening line
are before the body, the mark for code covers all of the body, and what closes the block is hidden
behind it. -/

namespace MarkdownPreview.Writer

open Text Syntax

variable {source run : List Char} {bytes : Span} {f : FencedCode} {pos : Nat}

/-! ### Covered bytes -/

/-- A decoration of the kind covers the byte. -/
def Covers (source : List Char) (ds : List Decoration) (kind : Decoration.Kind) (pos : Nat) :
    Prop :=
  ∃ d ∈ ds, d.kind = kind ∧ d.span.contains (charOffset source pos) = true

instance (source : List Char) (ds : List Decoration) (kind : Decoration.Kind) (pos : Nat) :
    Decidable (Covers source ds kind pos) :=
  inferInstanceAs (Decidable (∃ d ∈ ds, _ ∧ _))

/-! ### Marks of a block -/

/-- The pieces of the opening line with what they are drawn as. -/
def openingPieces (f : FencedCode) : List (List Char × List Decoration.Kind) :=
  [(f.lead, []), (f.fence, [.hide]), (f.gap, []), (f.language.getD [], [.codeBlockLanguage]),
    (f.openRest, [.hide])]

theorem openingPieces_text (f : FencedCode) : (openingPieces f).flatMap (·.1) = f.opening := by
  simp [openingPieces, FencedCode.opening]

/-- The bytes of a block's body, behind its opening line. -/
def bodyBytes (bytes : Span) (f : FencedCode) : Span :=
  ⟨bytes.start + byteLength f.opening, bytes.start + byteLength f.opening + byteLength f.body⟩

theorem raw_eq_opening_append (hf : fencedCode? (raw source bytes) = some f) :
    f.opening ++ f.lines = raw source bytes :=
  (FencedCode.text_eq_opening_append f).symm.trans (fencedCode?_text hf)

/-- The body is in the block. -/
theorem contains_of_bodyBytes (hf : fencedCode? (raw source bytes) = some f)
    (hpos : (bodyBytes bytes f).contains pos = true) : bytes.contains pos = true := by
  have hstop := stop_eq_of_raw_ne_nil (ne_nil_of_eq_some rfl hf)
  rw [← raw_eq_opening_append hf, FencedCode.lines] at hstop
  simp only [byteLength_append] at hstop
  simp only [bodyBytes, Span.contains_iff] at hpos ⊢
  omega

/-- The marks of the opening line, that of the body, and those of the closing line. -/
theorem fencedBlock_eq (hf : fencedCode? (raw source bytes) = some f) :
    fencedBlock source bytes = markPieces source bytes.start (openingPieces f) ++
      (mark source (bodyBytes bytes f) .codeBlock ++
      markPieces source (bodyBytes bytes f).stop
        [(f.closeLead, []), (f.close.getD [], [.hide])]) := by
  have hsplit := markPieces_append source bytes.start (openingPieces f)
    [(f.body, [.codeBlock]), (f.closeLead, []), (f.close.getD [], [.hide])]
  rw [openingPieces_text] at hsplit
  simp only [fencedBlock, hf]
  refine hsplit.trans ?_
  simp [markPieces, bodyBytes]

/-- A piece behind the opening line starts and stops between characters. -/
theorem aligned_behind_opening (hf : fencedCode? (raw source bytes) = some f) (u v w : List Char)
    (hpieces : u ++ v ++ w = f.lines) :
    Aligned source ⟨bytes.start + byteLength f.opening + byteLength u,
      bytes.start + byteLength f.opening + byteLength u + byteLength v⟩ := by
  have hends (t t' : List Char) (ht : t ++ t' = f.opening ++ f.lines) :
      Boundary source (bytes.start + byteLength t) := by
    have hstands := standsAt_raw source bytes
    have hne := ne_nil_of_eq_some rfl hf
    rw [← raw_eq_opening_append hf, ← ht] at hstands hne
    exact hstands.boundary_inside hne
  have hfirst := hends (f.opening ++ u) (v ++ w) (by rw [← hpieces]; simp)
  have hlast := hends (f.opening ++ u ++ v) w (by rw [← hpieces]; simp)
  rw [byteLength_append, ← Nat.add_assoc] at hfirst
  rw [byteLength_append, byteLength_append, ← Nat.add_assoc, ← Nat.add_assoc] at hlast
  exact ⟨hfirst, hlast⟩

/-- The body has a mark for code, and no other mark of the block covers any of it. -/
theorem fencedBlock_body (hf : fencedCode? (raw source bytes) = some f)
    (hpos : (bodyBytes bytes f).contains pos = true) :
    Covers source (fencedBlock source bytes) .codeBlock pos ∧
    ∀ d ∈ fencedBlock source bytes, d.span.contains (charOffset source pos) = true →
      d.kind = .codeBlock := by
  have ha : Aligned source (bodyBytes bytes f) := by
    have hbody := aligned_behind_opening hf [] f.body (f.closeLead ++ f.close.getD [] ++ f.rest)
      (by simp [FencedCode.lines])
    rwa [byteLength_nil, Nat.add_zero] at hbody
  rw [fencedBlock_eq hf]
  constructor
  · obtain ⟨d, hd, hcovers⟩ := (mark_contains_iff .codeBlock ha).2 hpos
    refine ⟨d, ?_, (ends_of_mem_mark hd).2.2, hcovers⟩
    exact List.mem_append_right _ (List.mem_append_left _ hd)
  · intro d hd hcovers
    rw [Span.contains_iff] at hpos hcovers
    obtain hd | hd := List.mem_append.1 hd
    · obtain ⟨-, hstop⟩ := markPieces_inside hd
      rw [openingPieces_text] at hstop
      exact absurd (Nat.lt_of_lt_of_le hcovers.2 hstop)
        (Nat.not_lt.2 (charOffset_mono source hpos.1))
    · obtain hd | hd := List.mem_append.1 hd
      · exact (ends_of_mem_mark hd).2.2
      · obtain ⟨hstart, -⟩ := markPieces_inside hd
        exact absurd (Nat.le_trans hstart hcovers.1) (Nat.not_le.2 (charOffset_lt ha.2 hpos.2))

/-- What closes a block is hidden, from its first byte on. -/
theorem fencedBlock_close (hf : fencedCode? (raw source bytes) = some f)
    (hclose : f.close = some run) (hne : run ≠ []) :
    Covers source (fencedBlock source bytes) .hide
      ((bodyBytes bytes f).stop + byteLength f.closeLead) := by
  have ha := aligned_behind_opening hf (f.body ++ f.closeLead) run f.rest
    (by simp [FencedCode.lines, hclose])
  rw [byteLength_append, ← Nat.add_assoc] at ha
  obtain ⟨d, hd, hcovers⟩ := (mark_contains_iff .hide ha).2
    (Span.contains_iff.2 ⟨Nat.le_refl _, Nat.lt_add_of_pos_right (byteLength_pos hne)⟩)
  refine ⟨d, ?_, (ends_of_mem_mark hd).2.2, hcovers⟩
  rw [fencedBlock_eq hf]
  refine List.mem_append_right _ (List.mem_append_right _ ?_)
  simpa [markPieces, hclose, bodyBytes] using hd

end MarkdownPreview.Writer
