import MarkdownPreview.Proofs.Latex.Overlaps
import MarkdownPreview.Proofs.Latex.Placement
import MarkdownPreview.Proofs.Latex.Shift

/-! What a text is drawn as. The substitutions that are left once overlaps are resolved follow one
another inside the text, so the single pass that draws them replaces the characters of each and
copies all others, gap by gap. Counted from another offset they are the same replacements. -/

namespace MarkdownPreview.Latex

open Text

/-! ### Replacing spans of a text -/

/-- The text, whose first character has the offset `pos`, with the characters of every span replaced
by another text. The spans follow one another. -/
def splice (pos : Nat) : List (Span × List Char) → List Char → List Char
  | [], text => text
  | (s, new) :: later, text =>
    text.take (s.start - pos) ++ new ++ splice s.stop later (text.drop (s.stop - pos))

/-- Offsets may be counted from anywhere. -/
theorem splice_shift (n pos : Nat) (edits : List (Span × List Char)) (text : List Char) :
    splice (pos + n) (edits.map fun e => (e.1.shift n, e.2)) text = splice pos edits text := by
  induction edits generalizing pos text with
  | nil => rfl
  | cons e later ih =>
    simp only [List.map_cons, splice, Span.shift_start, Span.shift_stop, Nat.add_sub_add_right, ih]

/-- Up to the first span, characters are copied. -/
theorem splice_cons {pos : Nat} {s : Span} (new : List Char) (later : List (Span × List Char))
    (c : Char) (text : List Char) (hstart : pos < s.start) (hstop : pos < s.stop) :
    splice pos ((s, new) :: later) (c :: text) =
      c :: splice (pos + 1) ((s, new) :: later) text := by
  have hbefore : s.start - pos = s.start - (pos + 1) + 1 := by omega
  have hbehind : s.stop - pos = s.stop - (pos + 1) + 1 := by omega
  simp only [splice, hbefore, hbehind, List.take_succ_cons, List.drop_succ_cons, List.cons_append]

/-- A span at the head of the text is replaced. -/
theorem splice_head (s : Span) (new : List Char) (later : List (Span × List Char))
    (text : List Char) : splice s.start ((s, new) :: later) text =
      new ++ splice s.stop later (text.drop s.length) := by
  simp [splice, Span.length]

/-! ### Application -/

/-- The substitutions of a text that are left follow one another inside it. -/
theorem follow_findSubstitutions (text : List Char) (offset : Nat) :
    Follow offset (offset + text.length) (nonOverlapping (findSubstitutions text offset)) :=
  nonOverlapping_follow (fun s hs => (findSubstitutions_covers text offset s hs).start_lt_stop)
    (fun s hs => (findSubstitutions_covers text offset s hs).le_start)
    fun s hs => (findSubstitutions_covers text offset s hs).stop_le

/-- What a substitution replaces, and by what. -/
def Substitution.edit (s : Substitution) : Span × List Char := (s.span, s.display)

namespace Follow

variable {pos stop : Nat} {s : Substitution} {subs : List Substitution}

theorem cons_iff : Follow pos stop (s :: subs) ↔
    pos ≤ s.start ∧ s.start < s.stop ∧ s.stop ≤ stop ∧ Follow s.stop stop subs := by
  constructor
  · rintro ⟨hlt, hle, hstop, hasc⟩
    obtain ⟨hbehind, hasc⟩ := List.pairwise_cons.1 hasc
    obtain ⟨hs, hlt⟩ := List.forall_mem_cons.1 hlt
    obtain ⟨hstop, hstops⟩ := List.forall_mem_cons.1 hstop
    exact ⟨hle s List.mem_cons_self, hs, hstop, hlt, hbehind, hstops, hasc⟩
  · rintro ⟨hle, hs, hstop, hlt, hbehind, hstops, hasc⟩
    refine ⟨List.forall_mem_cons.2 ⟨hs, hlt⟩, List.forall_mem_cons.2 ⟨hle, fun t ht => ?_⟩,
      List.forall_mem_cons.2 ⟨hstop, hstops⟩, List.pairwise_cons.2 ⟨hbehind, hasc⟩⟩
    have := hbehind t ht
    omega

/-- Nothing follows within no room. -/
theorem eq_nil (h : Follow pos stop subs) (hroom : stop ≤ pos) : subs = [] := by
  cases subs with
  | nil => rfl
  | cons s rest =>
    obtain ⟨hle, hlt, hstop, -⟩ := cons_iff.1 h
    omega

end Follow

/-- The pass draws each substitution once, and skips the characters that it covers. -/
theorem applyFrom_eq_splice {subs : List Substitution} {pos skip stop : Nat} {text : List Char}
    (h : Follow (pos + skip) stop subs) (hstop : stop ≤ pos + text.length) :
    applyFrom subs pos skip text = splice (pos + skip) (subs.map (·.edit)) (text.drop skip) := by
  fun_induction applyFrom subs pos skip text with
  | case1 subs pos skip =>
    obtain rfl := h.eq_nil (Nat.le_trans hstop (Nat.le_add_right pos skip))
    rw [List.drop_nil]
    rfl
  | case2 subs pos c rest skip ih =>
    have hpos : pos + (skip + 1) = pos + 1 + skip := by omega
    rw [hpos] at h ⊢
    exact ih h (by rw [List.length_cons] at hstop; omega)
  | case3 pos c rest ih =>
    rw [ih ⟨by simp, by simp, by simp, .nil⟩ (by rw [List.length_cons] at hstop; omega)]
    rfl
  | case4 c rest s later ih =>
    obtain ⟨-, hlt, -, hlater⟩ := Follow.cons_iff.1 h
    have hend : s.start + 1 + (s.stop - s.start - 1) = s.stop := by omega
    have hlength : s.span.length = s.stop - s.start - 1 + 1 :=
      (Nat.sub_add_cancel (Nat.sub_pos_of_lt hlt)).symm
    rw [ih (hend.symm ▸ hlater) (by rw [List.length_cons] at hstop; omega), hend]
    refine .trans ?_ (splice_head s.span s.display (later.map (·.edit)) (c :: rest)).symm
    rw [hlength, List.drop_succ_cons]
    rfl
  | case5 pos c rest s later hstart ih =>
    obtain ⟨hle, hlt, hs, hlater⟩ := Follow.cons_iff.1 h
    have hnext : Follow (pos + 1 + 0) stop (s :: later) :=
      Follow.cons_iff.2 ⟨by omega, hlt, hs, hlater⟩
    rw [ih hnext (by rw [List.length_cons] at hstop; omega)]
    refine (splice_cons s.display (later.map (·.edit)) c rest ?_ ?_).symm
    · change pos < s.start
      omega
    · change pos < s.stop
      omega

/-- What is drawn is the text with every substitution that is left put in place, wherever its
offsets are counted from. -/
theorem splice_findSubstitutions (text : List Char) (offset : Nat) :
    splice offset ((nonOverlapping (findSubstitutions text offset)).map (·.edit)) text =
      renderUnicode text := by
  have hdraw : renderUnicode text = splice (0 + 0) _ (text.drop 0) :=
    applyFrom_eq_splice (follow_findSubstitutions text 0) (Nat.le_refl _)
  have hshift : (nonOverlapping (findSubstitutions text offset)).map (·.edit) =
      ((nonOverlapping (findSubstitutions text 0)).map (·.edit)).map
        fun e => (e.1.shift offset, e.2) := by
    have hsubs := findSubstitutions_shift offset text 0
    rw [Nat.zero_add] at hsubs
    rw [hsubs, nonOverlapping_shift, List.map_map, List.map_map]
    rfl
  calc splice offset ((nonOverlapping (findSubstitutions text offset)).map (·.edit)) text
      = splice (0 + offset) (((nonOverlapping (findSubstitutions text 0)).map (·.edit)).map
          fun e => (e.1.shift offset, e.2)) text := by rw [hshift, Nat.zero_add]
    _ = splice 0 ((nonOverlapping (findSubstitutions text 0)).map (·.edit)) text :=
        splice_shift offset 0 _ text
    _ = renderUnicode text := hdraw.symm

/-! ### Gap by gap -/

/-- One text out of another, whose first character has the offset `pos`, by substitutions: a gap is
copied, the source of a substitution stands at its offsets and is replaced by what it draws, and so
on in turn up to a last gap. -/
inductive Replaces : Nat → List Substitution → List Char → List Char → Prop
  | last (pos : Nat) (gap : List Char) : Replaces pos [] gap gap
  | next {pos : Nat} {gap rest drawn : List Char} {s : Substitution} {later : List Substitution}
      (hstart : s.start = pos + gap.length) (hstop : s.stop = s.start + s.source.length)
      (hrest : Replaces s.stop later rest drawn) :
      Replaces pos (s :: later) (gap ++ s.source ++ rest) (gap ++ s.display ++ drawn)

theorem splice_gap {pos : Nat} {gap rest : List Char} {s : Substitution}
    {later : List Substitution} (hstart : s.start = pos + gap.length)
    (hstop : s.stop = s.start + s.source.length) :
    splice pos ((s :: later).map (·.edit)) (gap ++ s.source ++ rest) =
      gap ++ s.display ++ splice s.stop (later.map (·.edit)) rest := by
  have hgap : s.start - pos = gap.length := by omega
  have hfront : s.stop - pos = (gap ++ s.source).length := by
    rw [List.length_append]
    omega
  change (gap ++ s.source ++ rest).take (s.start - pos) ++ s.display ++
    splice s.stop (later.map (·.edit)) ((gap ++ s.source ++ rest).drop (s.stop - pos)) = _
  rw [hgap, hfront, List.drop_left, List.append_assoc gap, List.take_left]

variable {pos : Nat} {subs : List Substitution} {text drawn : List Char}

/-- A gap before a text is copied along with its first one. -/
theorem Replaces.gap_append {gap : List Char} (h : Replaces (pos + gap.length) subs text drawn) :
    Replaces pos subs (gap ++ text) (gap ++ drawn) := by
  cases h with
  | last => exact .last pos _
  | @next _ gap' rest drawn s later hstart hstop hrest =>
    have hgap : s.start = pos + (gap ++ gap').length := by
      rw [hstart, List.length_append, Nat.add_assoc]
    simpa only [List.append_assoc] using Replaces.next hgap hstop hrest

/-- What is replaced in one text and in another is replaced in the two put together. -/
theorem Replaces.append {v out : List Char} {later : List Substitution}
    (h : Replaces pos subs text drawn) (hv : Replaces (pos + text.length) later v out) :
    Replaces pos (subs ++ later) (text ++ v) (drawn ++ out) := by
  induction h with
  | last pos gap => exact hv.gap_append
  | @next pos gap rest drawn s subs hstart hstop _ ih =>
    have hpos : pos + (gap ++ s.source ++ rest).length = s.stop + rest.length := by
      simp only [List.length_append]
      omega
    rw [List.append_assoc _ rest, List.append_assoc _ drawn]
    exact .next hstart hstop (ih (hpos ▸ hv))

theorem Replaces.eq_splice (h : Replaces pos subs text drawn) :
    drawn = splice pos (subs.map (·.edit)) text := by
  induction h with
  | last pos gap => rfl
  | next hstart hstop _ ih => rw [splice_gap hstart hstop, ← ih]

/-- Substitutions that follow one another in the text can be replaced. -/
theorem replaces_splice (hcovers : ∀ s ∈ subs, Covers pos text s)
    (hascending : subs.Pairwise fun s t => s.stop ≤ t.start) :
    Replaces pos subs text (splice pos (subs.map (·.edit)) text) := by
  induction subs generalizing pos text with
  | nil => exact .last pos text
  | cons s later ih =>
    obtain ⟨hs, hlater⟩ := List.forall_mem_cons.1 hcovers
    obtain ⟨hbehind, hascending⟩ := List.pairwise_cons.1 hascending
    obtain ⟨gap, rest, rfl, hstart, hstop, -⟩ := hs
    have hpos : s.stop = pos + (gap ++ s.source).length := by
      rw [List.length_append]
      omega
    rw [splice_gap hstart hstop]
    refine .next hstart hstop (ih (fun t ht => ?_) hascending)
    rw [hpos]
    exact (hlater t ht).behind (hpos ▸ hbehind t ht)

/-- The substitutions of a text that are left can be replaced, and that gives what is drawn. -/
theorem replaces_renderUnicode (text : List Char) (offset : Nat) :
    Replaces offset (nonOverlapping (findSubstitutions text offset)) text (renderUnicode text) := by
  rw [← splice_findSubstitutions text offset]
  refine replaces_splice (fun s hs => ?_) (follow_findSubstitutions text offset).ascending
  exact findSubstitutions_covers text offset s (mem_of_mem_nonOverlapping hs)

theorem Replaces.eq_renderUnicode {offset : Nat}
    (h : Replaces offset (nonOverlapping (findSubstitutions text offset)) text drawn) :
    drawn = renderUnicode text :=
  h.eq_splice.trans (splice_findSubstitutions text offset)

/-- A text is drawn gap by gap: what stands between the substitutions that are left is copied, each
character once, and each of them is replaced by what it draws. Nothing else comes out of that. -/
theorem replaces_iff_eq_renderUnicode (text drawn : List Char) (offset : Nat) :
    Replaces offset (nonOverlapping (findSubstitutions text offset)) text drawn ↔
      drawn = renderUnicode text := by
  constructor
  · exact Replaces.eq_renderUnicode
  · rintro rfl
    exact replaces_renderUnicode text offset

end MarkdownPreview.Latex
