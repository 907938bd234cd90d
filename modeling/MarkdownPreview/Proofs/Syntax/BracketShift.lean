import MarkdownPreview.Proofs.Syntax.BracketScan
import MarkdownPreview.Proofs.Text.Prefix

/-! The scan for bracket math in a text that has another text before it. As long as no opening
delimiter stands in the text before, nor at the seam, the scan passes over it, and from there on it
finds what it finds in the text alone, moved by the bytes before. -/

namespace MarkdownPreview.Syntax

open Text

variable (n : Nat)

/-! ### Excluded spans -/

namespace ExcludedSpans

variable (spans : ExcludedSpans)

theorem add_shift (s : Span) :
    add (spans.map (·.shift n)) (s.shift n) = (spans.add s).map (·.shift n) := by
  simp only [add, Span.isEmpty_shift]
  split <;> simp

theorem overlap_shift (s : Span) :
    overlap (spans.map (·.shift n)) (s.shift n) = spans.overlap s := by
  simp only [overlap, List.any_map, Function.comp_def, Span.overlaps_shift]

theorem endAt?_shift (pos : Nat) :
    endAt? (spans.map (·.shift n)) (pos + n) = (spans.endAt? pos).map (· + n) := by
  have hmax (stops : List Nat) : (stops.map (· + n)).max? = stops.max?.map (· + n) := by
    cases stops with
    | nil => rfl
    | cons stop rest =>
      simp only [List.map_cons, List.max?_cons', Option.map_some, List.foldl_map,
        Option.some.injEq]
      exact List.foldl_hom (· + n) fun x y => Nat.add_max_add_right x y n
  simp only [endAt?, List.filter_map, Function.comp_def, Span.contains_shift, List.map_map,
    Span.shift_stop]
  rw [← hmax, List.map_map]
  rfl

end ExcludedSpans

/-! ### The scan -/

theorem judgeOpener_shift (excluded : ExcludedSpans) (pos : Nat) (body : List Char) :
    judgeOpener (excluded.map (·.shift n)) (pos + n) body =
      ((judgeOpener excluded pos body).1 + n,
        (judgeOpener excluded pos body).2.map (·.shift n)) := by
  have hstop : pos + n + 4 + byteLength body = pos + 4 + byteLength body + n := by omega
  have hspan : (⟨pos + n, pos + n + 4 + byteLength body⟩ : Span) =
      Span.shift ⟨pos, pos + 4 + byteLength body⟩ n := congrArg (Span.mk (pos + n)) hstop
  simp only [judgeOpener, hspan, ExcludedSpans.endAt?_shift, ExcludedSpans.overlap_shift]
  cases excluded.endAt? pos with
  | some stop =>
    have hnext : max (stop + n) (pos + n + 2) = max stop (pos + 2) + n := by omega
    exact Prod.ext hnext rfl
  | none =>
    simp only [Option.map_none]
    split
    · exact Prod.ext (Nat.add_right_comm pos n 2) rfl
    · exact Prod.ext hstop rfl

/-- The scan goes on in the same way at another place. Of the byte to go on from, only what lies
ahead of the scan matters. -/
theorem bracketMathFrom_shift {excluded : ExcludedSpans} {length pos resume resume' : Nat}
    {text : List Char} {spans : List Span}
    (h : bracketMathFrom excluded length pos resume text = .ok spans)
    (hresume : max resume' (pos + n) = max resume pos + n) :
    bracketMathFrom (excluded.map (·.shift n)) (length + n) (pos + n) resume' text =
      .ok (spans.map (·.shift n)) := by
  fun_induction bracketMathFrom excluded length pos resume text generalizing resume' spans with
  | case1 pos resume rest hlt ih =>
    -- an opener is skipped here just when it is skipped there, as the maxima agree
    rw [bracketMathFrom, if_pos (by omega), Nat.add_right_comm]
    exact ih h (by omega)
  | case2 pos resume rest hlt hbody =>
    obtain rfl := Except.ok.inj h
    rw [bracketMathFrom, if_neg (by omega), hbody]
    rfl
  | case3 => cases h
  | case4 pos resume rest hlt body hbody next found hjudge hover ih =>
    obtain ⟨later, hlater, rfl⟩ := exists_of_map_eq_ok h
    have hnext : max (next + n) (pos + 1 + n) = max next (pos + 1) + n :=
      Nat.add_max_add_right _ _ _
    have hrest := ih hlater hnext
    rw [bracketMathFrom, if_neg (by omega), hbody]
    simp only [judgeOpener_shift, hjudge]
    rw [if_neg (by omega), Nat.add_right_comm, hrest]
    cases found <;> simp [Except.map]
  | case5 pos resume c rest hno ih =>
    rw [bracketMathFrom, Nat.add_right_comm]
    · exact ih h (by omega)
    · exact hno
  | case6 =>
    obtain rfl := Except.ok.inj h
    rfl

/-- No opening delimiter stands in the text or straddles its end, whatever follows. -/
def EndsBeforeOpener (text : List Char) : Prop :=
  ∀ before after, text = before ++ '\\' :: after → ∃ c rest, after = c :: rest ∧ c ≠ '['

theorem endsBeforeOpener_of_lineFeed {text : List Char} (hend : text.getLast? = some '\n')
    (hopen : ¬ ['\\', '['] <:+: text) : EndsBeforeOpener text := by
  rintro before after rfl
  cases after with
  | nil => simp at hend
  | cons c rest =>
    refine ⟨c, rest, rfl, ?_⟩
    rintro rfl
    exact hopen ⟨before, rest, by simp⟩

/-- The scan passes over a text without an opening delimiter. -/
theorem bracketMathFrom_append {excluded : ExcludedSpans} {length pos resume : Nat}
    {before : List Char} (h : EndsBeforeOpener before) (text : List Char) :
    bracketMathFrom excluded length pos resume (before ++ text) =
      bracketMathFrom excluded length (pos + byteLength before) resume text := by
  induction before generalizing pos with
  | nil => rfl
  | cons c before ih =>
    have hrest : EndsBeforeOpener before := fun u v huv => h (c :: u) v (by rw [huv]; rfl)
    rw [List.cons_append, bracketMathFrom, ih hrest, byteLength_cons, Nat.add_assoc]
    rintro rest rfl heq
    obtain ⟨d, after, rfl, hd⟩ := h [] before rfl
    exact hd (List.cons.inj heq).1

/-- What the scan finds in a text, it finds behind another text, moved by that text's bytes. -/
theorem bracketMath_append {excluded : ExcludedSpans} {before text : List Char}
    {spans : List Span} (hbefore : EndsBeforeOpener before)
    (h : bracketMath text excluded = .ok spans) :
    bracketMath (before ++ text) (excluded.map (·.shift (byteLength before))) =
      .ok (spans.map (·.shift (byteLength before))) := by
  rw [bracketMath, bracketMathFrom_append hbefore, byteLength_append,
    Nat.add_comm _ (byteLength text)]
  exact bracketMathFrom_shift _ h (by omega)

end MarkdownPreview.Syntax
