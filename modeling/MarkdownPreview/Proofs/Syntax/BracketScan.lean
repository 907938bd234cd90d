import MarkdownPreview.Proofs.Text.Occurrence
import MarkdownPreview.Syntax.BracketMath

/-! The scan for bracket math. As long as no excluded span reaches past the end of the source, the
scan gets through, and what it finds are bracketed texts outside the excluded spans, one after
another. -/

namespace MarkdownPreview.Syntax

open Text

/-! ### Bodies -/

theorem eq_append_of_untilClose? {text body : List Char} (h : untilClose? text = some body) :
    ∃ after, text = body ++ '\\' :: ']' :: after := by
  fun_induction untilClose? text generalizing body with
  | case1 => simp at h
  | case2 after =>
    obtain rfl := Option.some.inj h
    exact ⟨after, rfl⟩
  | case3 c rest _ ih =>
    obtain ⟨inner, hinner, rfl⟩ := Option.map_eq_some_iff.1 h
    obtain ⟨after, rfl⟩ := ih hinner
    exact ⟨after, rfl⟩

theorem eq_append_of_mathBody? {text body : List Char} (h : mathBody? text = some body) :
    body ≠ [] ∧ ∃ after, text = body ++ '\\' :: ']' :: after := by
  cases text with
  | nil => simp [mathBody?] at h
  | cons c rest =>
    obtain ⟨inner, hinner, rfl⟩ := Option.map_eq_some_iff.1 h
    obtain ⟨after, rfl⟩ := eq_append_of_untilClose? hinner
    exact ⟨List.cons_ne_nil _ _, after, rfl⟩

/-- Opening and closing brackets stand at the two ends of the span, around at least one
character. -/
def Bracketed (source : List Char) (s : Span) : Prop :=
  ∃ before body after, source = before ++ '\\' :: '[' :: (body ++ '\\' :: ']' :: after) ∧
    body ≠ [] ∧ s = ⟨byteLength before, byteLength before + 4 + byteLength body⟩

/-! ### Excluded spans -/

theorem ExcludedSpans.mem_add {spans : ExcludedSpans} {s t : Span} :
    t ∈ spans.add s ↔ t ∈ spans ∨ t = s ∧ s.isEmpty = false := by
  simp only [add]
  split <;> simp_all

theorem ExcludedSpans.mem_foldl_add {spans acc : List Span} {s : Span} :
    s ∈ spans.foldl ExcludedSpans.add acc ↔ s ∈ acc ∨ s ∈ spans ∧ s.isEmpty = false := by
  induction spans generalizing acc with
  | nil => simp
  | cons t rest ih =>
    rw [List.foldl_cons, ih, mem_add, List.mem_cons]
    constructor
    · rintro ((h | ⟨rfl, h⟩) | ⟨h, hne⟩)
      · exact .inl h
      · exact .inr ⟨.inl rfl, h⟩
      · exact .inr ⟨.inr h, hne⟩
    · rintro (h | ⟨rfl | h, hne⟩)
      · exact .inl (.inl h)
      · exact .inl (.inr ⟨rfl, hne⟩)
      · exact .inr ⟨h, hne⟩

theorem ExcludedSpans.exists_of_endAt? {spans : ExcludedSpans} {pos stop : Nat}
    (h : spans.endAt? pos = some stop) : ∃ s ∈ spans, s.contains pos = true ∧ s.stop = stop := by
  obtain ⟨s, hs, rfl⟩ := List.mem_map.1 (List.max?_mem h)
  exact ⟨s, (List.mem_filter.1 hs).1, (List.mem_filter.1 hs).2, rfl⟩

/-! ### The scan -/

theorem exists_of_map_eq_ok {α β ε : Type} {f : α → β} {x : Except ε α} {b : β}
    (h : x.map f = .ok b) : ∃ a, x = .ok a ∧ f a = b := by
  cases x with
  | error err => cases h
  | ok a => exact ⟨a, rfl, Except.ok.inj h⟩

/-- The scan goes on behind the opener, and where it takes the opener's span, behind the span. It
takes no span that overlaps an excluded one or has a blank line in its body. -/
theorem free_of_judgeOpener {excluded : ExcludedSpans} {pos resume : Nat} {body : List Char}
    {found : Option Span} (h : judgeOpener excluded pos body = (resume, found)) :
    pos < resume ∧ ∀ s, found = some s →
      s = ⟨pos, pos + 4 + byteLength body⟩ ∧ s.stop = resume ∧ excluded.overlap s = false ∧
        spansBlankLine body = false := by
  simp only [judgeOpener] at h
  split at h
  · obtain ⟨rfl, rfl⟩ := Prod.mk.inj h
    exact ⟨by omega, by simp⟩
  · split at h
    · obtain ⟨rfl, rfl⟩ := Prod.mk.inj h
      exact ⟨by omega, by simp⟩
    next hfree =>
      obtain ⟨rfl, rfl⟩ := Prod.mk.inj h
      simp only [Bool.or_eq_true, not_or, Bool.not_eq_true] at hfree
      refine ⟨by omega, fun s hs => ?_⟩
      obtain rfl := Option.some.inj hs
      exact ⟨rfl, rfl, hfree⟩

/-- Neither an excluded span inside the text nor the opener's own sends the scan past the end. -/
theorem judgeOpener_fst_le {excluded : ExcludedSpans} {pos length : Nat} {body : List Char}
    (hex : ∀ s ∈ excluded, s.stop ≤ length) (hfit : pos + 4 + byteLength body ≤ length) :
    (judgeOpener excluded pos body).1 ≤ length := by
  simp only [judgeOpener]
  split
  next stop hstop =>
    obtain ⟨s, hs, -, rfl⟩ := ExcludedSpans.exists_of_endAt? hstop
    exact Nat.max_le.2 ⟨hex s hs, by omega⟩
  · split
    · omega
    · exact hfit

/-- The spans of bracket math that a scan has found from byte `resume` on. -/
structure Found (source : List Char) (excluded : ExcludedSpans) (resume : Nat)
    (spans : List Span) : Prop where
  bracketed : ∀ s ∈ spans, Bracketed source s
  free : ∀ s ∈ spans, excluded.overlap s = false
  resume_le : ∀ s ∈ spans, resume ≤ s.start
  ascending : spans.Pairwise fun s t => s.stop ≤ t.start

namespace Found

variable {source : List Char} {excluded : ExcludedSpans} {resume : Nat} {spans : List Span}

theorem nil : Found source excluded resume [] :=
  ⟨by simp, by simp, by simp, .nil⟩

theorem mono {earlier : Nat} (h : Found source excluded resume spans) (hle : earlier ≤ resume) :
    Found source excluded earlier spans :=
  ⟨h.bracketed, h.free, fun s hs => Nat.le_trans hle (h.resume_le s hs), h.ascending⟩

/-- A span in front of what a scan finds from the span's end on. -/
theorem cons {s : Span} (h : Found source excluded s.stop spans) (hb : Bracketed source s)
    (hf : excluded.overlap s = false) : Found source excluded s.start (s :: spans) := by
  have hle : s.start ≤ s.stop := by
    obtain ⟨_, _, _, _, _, rfl⟩ := hb
    simp only
    omega
  refine ⟨?_, ?_, ?_, List.pairwise_cons.2 ⟨h.resume_le, h.ascending⟩⟩
  · exact List.forall_mem_cons.2 ⟨hb, h.bracketed⟩
  · exact List.forall_mem_cons.2 ⟨hf, h.free⟩
  · exact List.forall_mem_cons.2 ⟨Nat.le_refl _, fun t ht => Nat.le_trans hle (h.resume_le t ht)⟩

end Found

/-- A bracketed text ends within the source that it stands in. -/
theorem opener_fits {source before body after : List Char} {pos : Nat}
    (hs : source = before ++ '\\' :: '[' :: (body ++ '\\' :: ']' :: after))
    (hpos : byteLength before = pos) : pos + 4 + byteLength body ≤ byteLength source := by
  simp only [hs, byteLength_append, byteLength_cons, hpos]
  have h1 : '\\'.utf8Size = 1 := rfl
  have h2 : '['.utf8Size = 1 := rfl
  have h3 : ']'.utf8Size = 1 := rfl
  omega

/-- Whatever is excluded, a scan that gets through has found bracketed texts clear of it, one after
another. -/
theorem found_of_bracketMathFrom {source : List Char} {excluded : ExcludedSpans} {length : Nat}
    {before text : List Char} {pos resume : Nat} {spans : List Span}
    (h : bracketMathFrom excluded length pos resume text = .ok spans)
    (hs : source = before ++ text) (hpos : byteLength before = pos) :
    Found source excluded (max resume pos) spans := by
  fun_induction bracketMathFrom excluded length pos resume text generalizing before spans with
  | case1 pos resume rest hlt ih =>
    have hrest := ih h (hs.trans (List.append_cons _ _ _)) (by rw [byteLength_append, hpos]; rfl)
    exact hrest.mono (by omega)
  | case2 =>
    obtain rfl := Except.ok.inj h
    exact .nil
  | case3 => cases h
  | case4 pos resume rest hlt body hbody resume' found hjudge hover ih =>
    obtain ⟨later, hlater, rfl⟩ := exists_of_map_eq_ok h
    have hrest := ih hlater (hs.trans (List.append_cons _ _ _))
      (by rw [byteLength_append, hpos]; rfl)
    obtain ⟨hbehind, hfree⟩ := free_of_judgeOpener hjudge
    cases found with
    | none => exact hrest.mono (by omega)
    | some s =>
      obtain ⟨rfl, rfl, hclear, -⟩ := hfree s rfl
      obtain ⟨hne, after, rfl⟩ := eq_append_of_mathBody? hbody
      have hbracketed : Bracketed source ⟨pos, pos + 4 + byteLength body⟩ :=
        ⟨before, body, after, hs, hne, by rw [hpos]⟩
      exact ((hrest.mono (Nat.le_max_left _ _)).cons hbracketed hclear).mono
        (by simp only; omega)
  | case5 pos resume c rest _ ih =>
    have hrest := ih h (hs.trans (List.append_cons _ _ _)) (by rw [byteLength_append, hpos]; rfl)
    exact hrest.mono (by omega)
  | case6 =>
    obtain rfl := Except.ok.inj h
    exact .nil

theorem found_of_bracketMath {source : List Char} {excluded : ExcludedSpans} {spans : List Span}
    (h : bracketMath source excluded = .ok spans) : Found source excluded 0 spans :=
  found_of_bracketMathFrom h (List.nil_append source).symm rfl

/-- The scan of a source that holds all excluded spans gets through. -/
theorem exists_bracketMathFrom {source : List Char} {excluded : ExcludedSpans}
    (hex : ∀ s ∈ excluded, s.stop ≤ byteLength source) {before text : List Char} {pos : Nat}
    (hs : source = before ++ text) (hpos : byteLength before = pos) (resume : Nat) :
    ∃ spans, bracketMathFrom excluded (byteLength source) pos resume text = .ok spans := by
  fun_induction bracketMathFrom excluded (byteLength source) pos resume text
    generalizing before with
  | case1 pos resume rest hlt ih =>
    exact ih (hs.trans (List.append_cons _ _ _)) (by rw [byteLength_append, hpos]; rfl)
  | case2 => exact ⟨[], rfl⟩
  | case3 pos resume rest hlt body hbody resume' found hjudge hover =>
    obtain ⟨-, after, rfl⟩ := eq_append_of_mathBody? hbody
    have hle := judgeOpener_fst_le hex (opener_fits hs hpos)
    rw [hjudge] at hle
    omega
  | case4 pos resume rest hlt body hbody resume' found hjudge hover ih =>
    obtain ⟨spans, hrun⟩ := ih (hs.trans (List.append_cons _ _ _))
      (by rw [byteLength_append, hpos]; rfl)
    exact ⟨found.toList ++ spans, by rw [hrun]; rfl⟩
  | case5 pos resume c rest _ ih =>
    exact ih (hs.trans (List.append_cons _ _ _)) (by rw [byteLength_append, hpos]; rfl)
  | case6 => exact ⟨[], rfl⟩

theorem bracketMath_found {source : List Char} {excluded : ExcludedSpans}
    (hex : ∀ s ∈ excluded, s.stop ≤ byteLength source) :
    ∃ spans, bracketMath source excluded = .ok spans ∧ Found source excluded 0 spans := by
  obtain ⟨spans, hrun⟩ := exists_bracketMathFrom hex (List.nil_append source).symm rfl 0
  exact ⟨spans, hrun, found_of_bracketMath hrun⟩

end MarkdownPreview.Syntax
