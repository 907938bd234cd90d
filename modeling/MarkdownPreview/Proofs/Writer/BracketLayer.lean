import MarkdownPreview.Proofs.Syntax.BracketScan
import MarkdownPreview.Proofs.Writer.Fits
import MarkdownPreview.Writer.Basic

/-! Bracket math laid over decorations. A bracketed span has room for its delimiters, so laying it
cannot fail; and as the spans of a scan follow one another, none of them takes away what another one
has brought. What remains are the decorations that no span encloses and those of the spans. -/

namespace MarkdownPreview.Writer

open Text Syntax

/-- What is left of a bracketed span between its delimiters. -/
def bracketContent (s : Span) : Span := ⟨s.start + 2, s.stop - 2⟩

/-- The decorations of a span of bracket math. -/
def bracketMarks (source : List Char) (options : Options) (s : Span) : List Decoration :=
  surround source s (bracketContent s) .displayMath ++
    mathSymbols source options (bracketContent s)

variable {source : List Char} {aligned : Prop} {options : Options} {s : Span}

/-! ### One span -/

theorem start_add_four_lt (h : Bracketed source s) : s.start + 4 < s.stop := by
  obtain ⟨before, body, after, -, hne, rfl⟩ := h
  have := byteLength_pos hne
  simp only
  omega

theorem layMath_of_bracketed (h : Bracketed source s) (ds : List Decoration) :
    layMath source options ds s = .ok
      (ds.filter (! (charSpan source s).encloses ·.span) ++ bracketMarks source options s) := by
  have hroom : holdsDelimiters s 2 2 = true := by
    have := start_add_four_lt h
    refine decide_eq_true ?_
    simp only [Span.length]
    omega
  rw [layMath, mathBetween_eq, if_pos hroom]
  rfl

theorem bracketMarks_fits (h : Bracketed source s) :
    AllFit source aligned (bracketMarks source options s) := by
  obtain ⟨before, body, after, hs, -, rfl⟩ := h
  have hopen : '\\'.utf8Size = 1 ∧ '['.utf8Size = 1 ∧ ']'.utf8Size = 1 := ⟨rfl, rfl, rfl⟩
  have hboundary (u v : List Char) (hu : source = u ++ v) : Boundary source (byteLength u) :=
    ⟨u, v, hu, rfl⟩
  refine .append (surround_fits (by decide) (fun _ => ?_) (fun _ => ?_) fun _ => ?_)
    (mathSymbols_fits options _)
  · have := hboundary (before ++ ['\\', '[']) (body ++ '\\' :: ']' :: after) (by simp [hs])
    simpa [byteLength_append, bracketContent, hopen] using this
  · have := hboundary (before ++ '\\' :: '[' :: body) ('\\' :: ']' :: after) (by simp [hs])
    simp only [byteLength_append, byteLength_cons, hopen] at this
    have heq : (bracketContent
        ⟨byteLength before, byteLength before + 4 + byteLength body⟩).stop =
        byteLength before + (1 + (1 + byteLength body)) := by
      simp only [bracketContent]
      omega
    rwa [heq]
  · have := hboundary (before ++ '\\' :: '[' :: (body ++ ['\\', ']'])) after (by simp [hs])
    simp only [byteLength_append, byteLength_cons, byteLength_nil, hopen] at this
    have heq : byteLength before + 4 + byteLength body =
        byteLength before + (1 + (1 + (byteLength body + (1 + (1 + 0))))) := by omega
    simp only
    rwa [heq]

theorem bracketMarks_inside (h : Bracketed source s) {d : Decoration}
    (hd : d ∈ bracketMarks source options s) : Inside source s d := by
  have hlt := start_add_four_lt h
  have hle : s.start ≤ (bracketContent s).start ∧
      (bracketContent s).start ≤ (bracketContent s).stop ∧ (bracketContent s).stop ≤ s.stop := by
    simp only [bracketContent]
    omega
  rcases List.mem_append.1 hd with hd | hd
  · exact surround_inside hle.1 hle.2.1 hle.2.2 hd
  · obtain ⟨-, -, -, hin⟩ := mathSymbols_inside options _ hd
    exact ⟨Nat.le_trans (charOffset_mono source hle.1) hin.1,
      Nat.le_trans hin.2 (charOffset_mono source hle.2.2)⟩

/-! ### All spans -/

/-- Bracket math laid over decorations span by span, where every span has room for its
delimiters. -/
def overlay (source : List Char) (options : Options) (spans : List Span) (ds : List Decoration) :
    List Decoration :=
  spans.foldl (fun ds s =>
    ds.filter (! (charSpan source s).encloses ·.span) ++ bracketMarks source options s) ds

variable (options)

theorem foldlM_layMath {spans : List Span} (h : ∀ s ∈ spans, Bracketed source s)
    (ds : List Decoration) :
    spans.foldlM (layMath source options) ds = .ok (overlay source options spans ds) := by
  induction spans generalizing ds with
  | nil => rfl
  | cons s spans ih =>
    obtain ⟨hs, hrest⟩ := List.forall_mem_cons.1 h
    rw [List.foldlM_cons, layMath_of_bracketed hs]
    exact ih hrest _

theorem overlay_fits {spans : List Span} (h : ∀ s ∈ spans, Bracketed source s)
    {ds : List Decoration} (hds : AllFit source aligned ds) :
    AllFit source aligned (overlay source options spans ds) := by
  induction spans generalizing ds with
  | nil => exact hds
  | cons s spans ih =>
    obtain ⟨hs, hrest⟩ := List.forall_mem_cons.1 h
    exact ih hrest (.append (fun d hd => hds d (List.mem_filter.1 hd).1) (bracketMarks_fits hs))

theorem encloses_charSpan_iff {d : Decoration} :
    (charSpan source s).encloses d.span = true ↔ Inside source s d := by
  rw [Span.encloses, Bool.and_eq_true]
  exact and_congr decide_eq_true_iff decide_eq_true_iff

/-- What one span brings is not taken away by another one that is apart from it. -/
theorem not_inside_of_apart {t : Span} (h : Bracketed source s) (hst : Apart s t)
    {d : Decoration} (hd : d ∈ bracketMarks source options s) : ¬ Inside source t d :=
  hst.not_inside ((bracketMarks_fits h d hd).nonempty trivial) (bracketMarks_inside h hd)

/-- Laid over decorations, spans that follow one another leave what none of them encloses, and bring
what is theirs. -/
theorem overlay_eq {spans : List Span} (h : ∀ s ∈ spans, Bracketed source s)
    (hasc : spans.Pairwise fun s t => s.stop ≤ t.start) (ds : List Decoration) :
    overlay source options spans ds =
      ds.filter (fun d => spans.all fun s => ! (charSpan source s).encloses d.span) ++
        spans.flatMap (bracketMarks source options) := by
  induction spans generalizing ds with
  | nil =>
    have hall : ds.filter (fun _ => true) = ds := List.filter_eq_self.2 fun _ _ => rfl
    simp [overlay, hall]
  | cons s spans ih =>
    obtain ⟨hs, hrest⟩ := List.forall_mem_cons.1 h
    obtain ⟨hafter, hasc⟩ := List.pairwise_cons.1 hasc
    have hstep : overlay source options (s :: spans) ds = overlay source options spans
        (ds.filter (! (charSpan source s).encloses ·.span) ++ bracketMarks source options s) := rfl
    have hkeep : (bracketMarks source options s).filter
        (fun d => spans.all fun t => ! (charSpan source t).encloses d.span) =
          bracketMarks source options s := by
      refine List.filter_eq_self.2 fun d hd => List.all_eq_true.2 fun t ht => ?_
      rw [Bool.not_eq_true', ← Bool.not_eq_true, encloses_charSpan_iff]
      exact not_inside_of_apart options hs (apart_of_stop_le (hafter t ht)) hd
    rw [hstep, ih hrest hasc, List.filter_append, List.filter_filter, hkeep, List.flatMap_cons,
      List.append_assoc]
    congr 1
    refine List.filter_congr fun d _ => ?_
    rw [List.all_cons, Bool.and_comm]

theorem mem_overlay {spans : List Span} (h : ∀ s ∈ spans, Bracketed source s)
    (hasc : spans.Pairwise fun s t => s.stop ≤ t.start) {ds : List Decoration} {d : Decoration} :
    d ∈ overlay source options spans ds ↔
      (d ∈ ds ∧ ∀ s ∈ spans, ¬ Inside source s d) ∨
        ∃ s ∈ spans, d ∈ bracketMarks source options s := by
  have hfree : (spans.all fun s => ! (charSpan source s).encloses d.span) = true ↔
      ∀ s ∈ spans, ¬ Inside source s d := by
    simp only [List.all_eq_true, Bool.not_eq_true', ← encloses_charSpan_iff, Bool.not_eq_true]
  rw [overlay_eq options h hasc, List.mem_append, List.mem_filter, hfree, List.mem_flatMap]

end MarkdownPreview.Writer
