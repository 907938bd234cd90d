import MarkdownPreview.Proofs.Latex.Placement
import MarkdownPreview.Proofs.Syntax.Pieces
import MarkdownPreview.Proofs.Writer.Slices

/-! Every decoration rule gives decorations that fit the document: not inverted, inside it, and with
a replacement just when they are math symbols. Where the ends of the rule's span are between
characters, none of them is empty. -/

namespace MarkdownPreview.Writer

open Text Syntax

/-- The decoration fits a document, and covers some of it if `aligned` holds. -/
structure Fits (source : List Char) (aligned : Prop) (d : Decoration) : Prop where
  ordered : d.start ≤ d.stop
  inside : d.stop ≤ source.length
  replaced : d.replacement.isSome = true ↔ d.kind = .mathSymbol
  nonempty : aligned → d.start < d.stop

def AllFit (source : List Char) (aligned : Prop) (ds : List Decoration) : Prop :=
  ∀ d ∈ ds, Fits source aligned d

variable {source : List Char} {aligned : Prop} {bytes : Span} {kind : Decoration.Kind}

theorem allFit_nil : AllFit source aligned [] := by simp [AllFit]

theorem AllFit.append {ds es : List Decoration} (hd : AllFit source aligned ds)
    (he : AllFit source aligned es) : AllFit source aligned (ds ++ es) :=
  List.forall_mem_append.2 ⟨hd, he⟩

/-- The decoration lies within the characters of a span of bytes. -/
def Inside (source : List Char) (bytes : Span) (d : Decoration) : Prop :=
  charOffset source bytes.start ≤ d.start ∧ d.stop ≤ charOffset source bytes.stop

/-- The two spans share no position. -/
def Apart (s t : Span) : Prop := ∀ p, ¬ (s.contains p = true ∧ t.contains p = true)

theorem Apart.symm {s t : Span} (h : Apart s t) : Apart t s := fun p hp => h p hp.symm

theorem apart_of_stop_le {s t : Span} (h : s.stop ≤ t.start) : Apart s t := by
  intro p
  simp only [Span.contains_iff]
  omega

/-- A decoration that covers something is not inside two spans of bytes without a byte in common. -/
theorem Apart.not_inside {s t : Span} {d : Decoration} (h : Apart s t) (hlt : d.start < d.stop)
    (hs : Inside source s d) : ¬ Inside source t d := by
  intro ht
  have hsep : s.stop ≤ s.start ∨ t.stop ≤ t.start ∨ s.stop ≤ t.start ∨ t.stop ≤ s.start := by
    have := h (max s.start t.start)
    simp only [Span.contains_iff] at this
    omega
  obtain ⟨hs1, hs2⟩ := hs
  obtain ⟨ht1, ht2⟩ := ht
  obtain h | h | h | h := hsep <;> have := charOffset_mono source h <;> omega

/-! ### Marks -/

/-- A span that is not empty has one mark, over its characters. -/
theorem mem_mark {d : Decoration} : d ∈ mark source bytes kind ↔
    bytes.start < bytes.stop ∧
      d = ⟨charOffset source bytes.start, charOffset source bytes.stop, kind, none⟩ := by
  simp only [mark, Span.isEmpty, decide_eq_true_eq]
  split
  next h =>
    simp only [List.not_mem_nil, false_iff, not_and]
    intro hlt
    omega
  next h => simp [Nat.not_le.1 h]

theorem ends_of_mem_mark {d : Decoration} (hd : d ∈ mark source bytes kind) :
    d.start = charOffset source bytes.start ∧ d.stop = charOffset source bytes.stop ∧
      d.kind = kind := by
  obtain ⟨-, rfl⟩ := mem_mark.1 hd
  exact ⟨rfl, rfl, rfl⟩

theorem mem_flatMap_mark {kinds : List Decoration.Kind} {d : Decoration} :
    d ∈ kinds.flatMap (mark source bytes) ↔ d.kind ∈ kinds ∧ d ∈ mark source bytes d.kind := by
  rw [List.mem_flatMap]
  constructor
  · rintro ⟨k, hk, hd⟩
    obtain rfl := (ends_of_mem_mark hd).2.2
    exact ⟨hk, hd⟩
  · rintro ⟨hk, hd⟩
    exact ⟨_, hk, hd⟩

theorem mark_inside {whole : Span} {d : Decoration} (hd : d ∈ mark source bytes kind)
    (hstart : whole.start ≤ bytes.start) (hstop : bytes.stop ≤ whole.stop) :
    Inside source whole d := by
  obtain ⟨hdstart, hdstop, -⟩ := ends_of_mem_mark hd
  rw [Inside, hdstart, hdstop]
  exact ⟨charOffset_mono source hstart, charOffset_mono source hstop⟩

theorem surround_inside {content : Span} (hstart : bytes.start ≤ content.start)
    (hmid : content.start ≤ content.stop) (hstop : content.stop ≤ bytes.stop) {d : Decoration}
    (hd : d ∈ surround source bytes content kind) : Inside source bytes d := by
  simp only [surround, List.mem_append] at hd
  rcases hd with (hd | hd) | hd
  · exact mark_inside hd (Nat.le_refl _) (Nat.le_trans hmid hstop)
  · exact mark_inside hd hstart hstop
  · exact mark_inside hd (Nat.le_trans hstart hmid) (Nat.le_refl _)

/-- A mark between characters covers the bytes of its span. -/
theorem mark_contains_iff (kind : Decoration.Kind) (ha : Aligned source bytes) {pos : Nat} :
    (∃ d ∈ mark source bytes kind, d.span.contains (charOffset source pos) = true) ↔
      bytes.contains pos = true := by
  have hfirst := charOffset_le_iff (b := pos) ha.1
  have hlast := charOffset_le_iff (b := pos) ha.2
  simp only [mem_mark, and_assoc, exists_and_left, exists_eq_left, Span.contains_iff,
    Decoration.span]
  omega

theorem mark_fits (hk : kind ≠ .mathSymbol)
    (hb : aligned → bytes.start < bytes.stop → Boundary source bytes.stop) :
    AllFit source aligned (mark source bytes kind) := by
  intro d hd
  obtain ⟨h, rfl⟩ := mem_mark.1 hd
  exact ⟨charOffset_mono source (Nat.le_of_lt h), charOffset_le _ _, by simp [hk],
    fun ha => charOffset_lt (hb ha h) h⟩

theorem mark_standsAt_fits {pos : Nat} {piece : List Char} (hk : kind ≠ .mathSymbol)
    (h : StandsAt source pos piece) :
    AllFit source aligned (mark source ⟨pos, pos + byteLength piece⟩ kind) := by
  refine mark_fits hk fun _ hlt => h.boundary_stop ?_
  rintro rfl
  simp at hlt

theorem markPieces_fits {pos : Nat} {pieces : List (List Char × List Decoration.Kind)}
    (hk : ∀ p ∈ pieces, .mathSymbol ∉ p.2) (h : StandsAt source pos (pieces.flatMap (·.1))) :
    AllFit source aligned (markPieces source pos pieces) := by
  induction pieces generalizing pos with
  | nil => exact allFit_nil
  | cons p rest ih =>
    obtain ⟨piece, kinds⟩ := p
    obtain ⟨hkinds, hrest⟩ := List.forall_mem_cons.1 hk
    rw [List.flatMap_cons] at h
    refine .append ?_ (ih hrest h.right)
    intro d hd
    obtain ⟨k, hkm, hd⟩ := List.mem_flatMap.1 hd
    exact mark_standsAt_fits (by rintro rfl; exact hkinds hkm) h.left d hd

theorem surround_fits {content : Span} (hk : kind ≠ .mathSymbol)
    (hstart : aligned → Boundary source content.start)
    (hstop : aligned → Boundary source content.stop) (hend : aligned → Boundary source bytes.stop) :
    AllFit source aligned (surround source bytes content kind) :=
  .append (.append (mark_fits (by decide) fun ha _ => hstart ha)
    (mark_fits hk fun ha _ => hstop ha)) (mark_fits (by decide) fun ha _ => hend ha)

/-! ### Delimited text -/

theorem emphasis_fits {p : Char → Bool} (hp : OneByte p) (most : Nat) (hk : kind ≠ .mathSymbol)
    (ha : aligned → Aligned source bytes) :
    ∃ ds, emphasis source bytes p most kind = .ok ds ∧ AllFit source aligned ds := by
  refine ⟨_, emphasis_eq source bytes p most kind, ?_⟩
  split
  · exact mark_fits hk fun h _ => (ha h).2
  · exact surround_fits hk (fun h => boundary_opening (ha h) hp _)
      (fun h => boundary_closing (ha h) hp _) fun h => (ha h).2

/-- The symbols of a text lie within it. -/
theorem mathSymbols_inside (options : Options) (content : Span) {d : Decoration}
    (hd : d ∈ mathSymbols source options content) :
    d.kind = .mathSymbol ∧ d.replacement.isSome = true ∧ d.start < d.stop ∧
      Inside source content d := by
  simp only [mathSymbols] at hd
  split at hd
  · obtain ⟨s, hs, rfl⟩ := List.mem_map.1 hd
    have hcovers := Latex.findSubstitutions_covers _ _ s (Latex.mem_of_mem_nonOverlapping hs)
    have hlt := hcovers.start_lt_stop
    have hne : raw source content ≠ [] := by
      intro h
      have := hcovers.stop_le
      have := hcovers.le_start
      simp only [h, List.length_nil] at *
      omega
    refine ⟨rfl, rfl, hlt, hcovers.le_start, ?_⟩
    rw [stop_eq_of_raw_ne_nil hne, (standsAt_raw source content).charOffset_stop hne]
    exact hcovers.stop_le
  · simp at hd

theorem mathSymbols_fits (options : Options) (content : Span) :
    AllFit source aligned (mathSymbols source options content) := by
  intro d hd
  obtain ⟨hk, hr, hlt, hin⟩ := mathSymbols_inside options content hd
  exact ⟨Nat.le_of_lt hlt, Nat.le_trans hin.2 (charOffset_le _ _), by simp [hk, hr], fun _ => hlt⟩

theorem mathBetween_fits (options : Options) {opening closing : Nat} (hk : kind ≠ .mathSymbol)
    (hstart : aligned → Boundary source (bytes.start + opening))
    (hstop : aligned → Boundary source (bytes.stop - closing))
    (hend : aligned → Boundary source bytes.stop) :
    ∃ ds, mathBetween source options bytes opening closing kind = .ok ds ∧
      AllFit source aligned ds := by
  refine ⟨_, mathBetween_eq source options bytes opening closing kind, ?_⟩
  split
  · exact .append (surround_fits hk hstart hstop hend) (mathSymbols_fits options _)
  · exact allFit_nil

theorem oneByte_isDollar : OneByte isDollar := oneByte_beq rfl

theorem dollarMath_fits (options : Options) (most : Nat) (hk : kind ≠ .mathSymbol)
    (ha : aligned → Aligned source bytes) :
    ∃ ds, dollarMath source options bytes most kind = .ok ds ∧ AllFit source aligned ds :=
  mathBetween_fits options hk (fun h => boundary_opening (ha h) oneByte_isDollar _)
    (fun h => boundary_closing (ha h) oneByte_isDollar _) fun h => (ha h).2

theorem oneByte_isBacktick : OneByte isBacktick := oneByte_beq rfl

theorem codeSpan_fits (ha : aligned → Aligned source bytes) :
    ∃ ds, codeSpan source bytes = .ok ds ∧ AllFit source aligned ds := by
  refine ⟨_, codeSpan_eq source bytes, ?_⟩
  have hcode : AllFit source aligned (mark source bytes .code) :=
    mark_fits (by decide) fun h _ => (ha h).2
  split
  · exact hcode
  · refine (hcode.append (mark_fits (by decide) fun h _ => ?_)).append
      (mark_fits (by decide) fun h _ => (ha h).2)
    -- the whole run of backticks is a run that is not cut short
    have := boundary_opening (ha h) oneByte_isBacktick
      ((raw source bytes).takeWhile isBacktick).length
    rwa [runLength, Nat.min_self] at this

/-! ### Blocks -/

/-- The kinds that the content of a heading takes. -/
def headingStyles (level : Nat) : List Decoration.Kind :=
  .heading :: (Decoration.Kind.ofHeadingLevel? level).toList

theorem revealScope_of_mem_headingStyles {level : Nat} (hk : kind ∈ headingStyles level) :
    kind.revealScope = .line ∧ kind ≠ .hide := by
  obtain rfl | hk := List.mem_cons.1 hk
  · decide
  · rw [Option.mem_toList] at hk
    simp only [Decoration.Kind.ofHeadingLevel?] at hk
    split at hk <;> simp at hk <;> subst hk <;> decide

theorem heading_fits (level : Nat) : AllFit source aligned (heading source bytes level) := by
  have hstyles : Decoration.Kind.mathSymbol ∉
      Decoration.Kind.heading :: (Decoration.Kind.ofHeadingLevel? level).toList := fun h =>
    absurd (revealScope_of_mem_headingStyles h).1 (by decide)
  have hstands := standsAt_raw source bytes
  simp only [heading]
  split
  · split
    · exact allFit_nil
    next h hh =>
      rw [← setextHeading?_text hh, SetextHeading.text] at hstands
      refine .append (markPieces_fits (by simp) ?_) (markPieces_fits (by simp [hstyles]) ?_)
      · simpa using hstands.left.right
      · simpa using hstands.left.left.left.left
  · split
    · exact allFit_nil
    next h hh =>
      rw [← atxHeading?_text hh, AtxHeading.text] at hstands
      refine .append (.append (markPieces_fits (by simp) ?_) (markPieces_fits (by simp) ?_))
        (markPieces_fits (by simp [hstyles]) ?_)
      · simpa using hstands.left.left.left
      · simpa using hstands.left.right
      · simpa using hstands.left.left.right

theorem listItem_fits : AllFit source aligned (listItem source bytes) := by
  simp only [listItem]
  split
  · exact allFit_nil
  next m hm =>
    refine markPieces_fits (by simp) ?_
    simpa using (standsAt_raw source bytes).of_isPrefix (listMarker?_isPrefix hm)

theorem taskMarker_fits (checked : Bool) :
    AllFit source aligned (taskMarker source bytes checked) := by
  simp only [taskMarker]
  split
  · exact allFit_nil
  next c hc =>
    refine markPieces_fits (by cases checked <;> simp) ?_
    simpa using (standsAt_raw source bytes).of_isPrefix (checkbox?_isPrefix hc)

theorem blockquote_fits : AllFit source aligned (blockquote source bytes) := by
  intro d hd
  obtain ⟨marker, hm, hd⟩ := List.mem_flatMap.1 hd
  obtain ⟨before, run, after, hraw, rfl⟩ := quoteMarkersFrom_piece hm
  rw [flatten_linesOf] at hraw
  have hstands := hraw ▸ standsAt_raw source bytes
  have hspan : Span.shift ⟨0 + byteLength before, 0 + byteLength before + byteLength run⟩
      bytes.start = ⟨bytes.start + byteLength before,
        bytes.start + byteLength before + byteLength run⟩ := by
    simp only [Span.shift, Span.mk.injEq]
    omega
  rw [hspan] at hd
  exact mark_standsAt_fits (by decide) hstands.left.right d hd

theorem fencedBlock_fits (ha : aligned → Aligned source bytes) :
    AllFit source aligned (fencedBlock source bytes) := by
  simp only [fencedBlock]
  split
  · exact mark_fits (by decide) fun h _ => (ha h).2
  next f hf =>
    have hstands := standsAt_raw source bytes
    rw [← fencedCode?_text hf, FencedCode.text] at hstands
    refine markPieces_fits (by simp) ?_
    simpa using hstands.left

theorem indentedBlock_fits : AllFit source aligned (indentedBlock source bytes) := by
  refine markPieces_fits (by simp) ?_
  simpa using (standsAt_raw source bytes).of_isPrefix (withoutLineEnding_isPrefix _)

theorem rule_fits (hin : Within source bytes) (ha : aligned → Aligned source bytes) :
    ∃ ds, rule source bytes = .ok ds ∧ AllFit source aligned ds := by
  refine ⟨_, rule_eq hin.1, mark_fits (by decide) fun h _ => ?_⟩
  by_cases hne : withoutLineEnding (raw source bytes) = []
  · simpa [hne] using (ha h).1
  · exact ((standsAt_raw source bytes).of_isPrefix (withoutLineEnding_isPrefix _)).boundary_stop hne

end MarkdownPreview.Writer
