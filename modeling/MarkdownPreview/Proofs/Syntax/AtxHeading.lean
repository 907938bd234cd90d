import MarkdownPreview.Proofs.Text.Trimming
import MarkdownPreview.Syntax.Heading

/-! Heading lines with number signs, and the pieces that they are cut into. Which lines open a
heading is said apart from the pieces, and the rules for the pieces leave no choice: a line has one
cut that keeps to them, and that is the one found. -/

namespace MarkdownPreview.Syntax

open Text

variable {raw line indent signs gap tail body before run : List Char} {h : AtxHeading}

/-! ### Opening a heading -/

/-- The line opens a heading: spaces and tabs, a run of one to six number signs, and then a space, a
tab or the line's end, so that the run is as long as can be. -/
def OpensHeading (line : List Char) : Prop :=
  ∃ indent signs after, line = indent ++ signs ++ after ∧
    (∀ c ∈ indent, isSpaceOrTab c = true) ∧ signs ≠ [] ∧ signs.length ≤ 6 ∧
    (∀ c ∈ signs, c = '#') ∧ ∀ c, after.head? = some c → isSpaceOrTab c = true

/-- A line parted at the number signs that open a heading, with the spaces and tabs behind them. -/
structure AtxOpening (line indent signs gap tail : List Char) : Prop where
  line : line = indent ++ (signs ++ (gap ++ tail))
  parted : gap = [] → tail = []
  indent : ∀ c ∈ indent, isSpaceOrTab c = true
  signs : signs ≠ [] ∧ signs.length ≤ 6 ∧ ∀ c ∈ signs, c = '#'
  gap : ∀ c ∈ gap, isSpaceOrTab c = true
  tail : ∀ c, tail.head? = some c → isSpaceOrTab c = false

theorem opensHeading_iff :
    OpensHeading line ↔ ∃ indent signs gap tail, AtxOpening line indent signs gap tail := by
  constructor
  · rintro ⟨indent, signs, after, rfl, hindent, hne, hlength, hsigns, hafter⟩
    refine ⟨indent, signs, after.takeWhile isSpaceOrTab, after.dropWhile isSpaceOrTab, ?_, ?_,
      hindent, ⟨hne, hlength, hsigns⟩, fun c hc => List.mem_takeWhile_imp hc,
      fun c hc => head?_dropWhile_ne _ _ hc⟩
    · rw [List.takeWhile_append_dropWhile, List.append_assoc]
    · intro hgap
      cases after with
      | nil => rfl
      | cons c after =>
        rw [List.takeWhile_cons_of_pos (hafter c rfl)] at hgap
        cases hgap
  · rintro ⟨indent, signs, gap, tail, rfl, hparted, hindent, ⟨hne, hlength, hsigns⟩, hgap, -⟩
    refine ⟨indent, signs, gap ++ tail, by rw [List.append_assoc], hindent, hne, hlength, hsigns,
      fun c hc => ?_⟩
    cases gap with
    | nil =>
      rw [hparted rfl] at hc
      cases hc
    | cons d gap => exact Option.some.inj hc ▸ hgap d List.mem_cons_self

theorem ne_numberSign_of_isSpaceOrTab {c : Char} (h : isSpaceOrTab c = true) :
    (c == '#') = false := by
  rw [beq_eq_false_iff_ne]
  rintro rfl
  exact absurd h (by decide)

/-! ### The closing run -/

/-- The run of number signs closes a heading: it is all of the text, or a space or tab stands before
it. -/
def ClosingRun (before run : List Char) : Prop :=
  run ≠ [] ∧ (∀ c ∈ run, c = '#') ∧ ∀ c, before.getLast? = some c → isSpaceOrTab c = true

/-- What is left behind the marker of a heading is its content, which does not end in white space,
and its closing run with all white space before that, if it ends in such a run. -/
structure ClosingCut (content : List Char) (closing : Option (List Char)) : Prop where
  contentEnd : ∀ c, content.getLast? = some c → isBlank c = false
  closes : closing.isSome = true ↔
    ∃ before run, content ++ closing.getD [] = before ++ run ∧ ClosingRun before run
  closing : ∀ piece, closing = some piece → ∃ blanks run, piece = blanks ++ run ∧
    (∀ c ∈ blanks, isBlank c = true) ∧ ClosingRun (content ++ blanks) run

/-- The content and the closing run of a text that does not end in white space. -/
def cutClosing (body : List Char) : List Char × Option (List Char) :=
  let before := trimEnd (· == '#') body
  if before.length < body.length ∧ closesHeading before then
    (trimEnd isBlank before, some (body.drop (trimEnd isBlank before).length))
  else (body, none)

theorem closesHeading_iff :
    closesHeading before = true ↔ ∀ c, before.getLast? = some c → isSpaceOrTab c = true := by
  rw [closesHeading]
  split <;> simp [*]

theorem trimEnd_of_closingRun (h : ClosingRun before run) :
    trimEnd (· == '#') (before ++ run) = before := by
  obtain ⟨-, hrun, hbefore⟩ := h
  rw [trimEnd_append_of_mem before fun c hc => beq_iff_eq.2 (hrun c hc)]
  exact trimEnd_eq_self fun c hc => ne_numberSign_of_isSpaceOrTab (hbefore c hc)

variable {content blanks : List Char} {closing : Option (List Char)}

theorem cutClosing_of_closingRun (hcontent : ∀ c, content.getLast? = some c → isBlank c = false)
    (hblanks : ∀ c ∈ blanks, isBlank c = true) (hrun : ClosingRun (content ++ blanks) run) :
    cutClosing (content ++ (blanks ++ run)) = (content, some (blanks ++ run)) := by
  have hshorter : (content ++ blanks).length < (content ++ blanks ++ run).length := by
    have := List.length_pos_iff.2 hrun.1
    simp only [List.length_append]
    omega
  rw [cutClosing, ← List.append_assoc, trimEnd_of_closingRun hrun,
    if_pos ⟨hshorter, closesHeading_iff.2 hrun.2.2⟩, trimEnd_append_of_mem content hblanks,
    trimEnd_eq_self hcontent, List.append_assoc, List.drop_left]

theorem cutClosing_of_not_closingRun
    (h : ¬ ∃ before run, body = before ++ run ∧ ClosingRun before run) :
    cutClosing body = (body, none) := by
  refine if_neg fun hcut => h ⟨trimEnd (· == '#') body, body.drop (trimEnd (· == '#') body).length,
    ?_, ?_, fun c hc => ?_, closesHeading_iff.1 hcut.2⟩
  · exact (List.prefix_iff_eq_append.1 (trimEnd_isPrefix (· == '#') body)).symm
  · rw [ne_eq, List.drop_eq_nil_iff]
    omega
  · exact beq_iff_eq.1 (of_mem_drop_trimEnd (p := (· == '#')) hc)

/-- A text that does not end in white space is cut in one way only. -/
theorem cutClosing_eq_iff (hbody : ∀ c, body.getLast? = some c → isBlank c = false) :
    cutClosing body = (content, closing) ↔
      content ++ closing.getD [] = body ∧ ClosingCut content closing := by
  constructor
  · intro h
    by_cases hclosed : ∃ before run, body = before ++ run ∧ ClosingRun before run
    · obtain ⟨before, run, rfl, hrun⟩ := hclosed
      obtain ⟨blanks, hbefore, hblanks⟩ := exists_append_trimEnd isBlank before
      have hend : ∀ c, (trimEnd isBlank before).getLast? = some c → isBlank c = false :=
        fun c hc => getLast?_trimEnd_ne isBlank before hc
      generalize trimEnd isBlank before = content' at *
      subst hbefore
      rw [List.append_assoc, cutClosing_of_closingRun hend hblanks hrun] at h
      obtain ⟨rfl, rfl⟩ := Prod.mk.inj h
      refine ⟨(List.append_assoc _ _ _).symm, hend, ?_, ?_⟩
      · exact iff_of_true rfl ⟨_, run, (List.append_assoc _ _ _).symm, hrun⟩
      · rintro _ ⟨⟩
        exact ⟨blanks, run, rfl, hblanks, hrun⟩
    · rw [cutClosing_of_not_closingRun hclosed] at h
      obtain ⟨rfl, rfl⟩ := Prod.mk.inj h
      refine ⟨List.append_nil _, hbody, iff_of_false Bool.false_ne_true ?_, ?_⟩
      · rwa [Option.getD_none, List.append_nil]
      · rintro _ ⟨⟩
  · rintro ⟨rfl, hend, hcloses, hclosing⟩
    cases closing with
    | none =>
      rw [Option.getD_none, List.append_nil] at hcloses ⊢
      exact cutClosing_of_not_closingRun (mt hcloses.2 Bool.false_ne_true)
    | some piece =>
      obtain ⟨blanks, run, rfl, hblanks, hrun⟩ := hclosing piece rfl
      exact cutClosing_of_closingRun hend hblanks hrun

/-! ### Pieces -/

variable {rest : List Char}

theorem atxHeading?_of_opening (ho : AtxOpening (withoutLineEnding raw) indent signs gap tail)
    (hbody : trimEnd isBlank tail = body) (hcut : cutClosing body = (content, closing))
    (hraw : raw = indent ++ (signs ++ gap) ++ body ++ rest) :
    atxHeading? raw = some ⟨indent, signs ++ gap, content, closing, rest⟩ := by
  obtain ⟨hline, hparted, hindent, ⟨hne, hlength, hsigns⟩, hgap, htail⟩ := ho
  have hsignsHead : ∀ c, (signs ++ (gap ++ tail)).head? = some c → isSpaceOrTab c = false := by
    intro c hc
    rw [hsigns c (mem_of_head?_append hne hc)]
    rfl
  have hsignsAll : ∀ c ∈ signs, (c == '#') = true := fun c hc => beq_iff_eq.2 (hsigns c hc)
  have hgapHead : ∀ c, (gap ++ tail).head? = some c → (c == '#') = false := by
    intro c hc
    by_cases hnil : gap = []
    · rw [hnil, hparted hnil] at hc
      cases hc
    · exact ne_numberSign_of_isSpaceOrTab (hgap c (mem_of_head?_append hnil hc))
  have hcount : ¬ (signs.length = 0 ∨ 6 < signs.length) := by
    have := List.length_pos_iff.2 hne
    omega
  have hend : ¬ (gap = [] ∧ gap ++ tail ≠ []) := fun h => h.2 (by rw [h.1, hparted h.1]; rfl)
  have hrest : raw.drop (indent.length + (signs ++ gap).length + body.length) = rest := by
    rw [hraw, ← List.length_append, ← List.length_append, List.drop_left]
  simp only [atxHeading?, hline, takeWhile_append_of_head? hindent hsignsHead,
    dropWhile_append_of_head? hindent hsignsHead, takeWhile_append_of_head? hsignsAll hgapHead,
    dropWhile_append_of_head? hsignsAll hgapHead, takeWhile_append_of_head? hgap htail,
    dropWhile_append_of_head? hgap htail, if_neg hcount, if_neg hend, hbody, hrest]
  simp only [cutClosing] at hcut
  split at hcut
  next hclosed =>
    obtain ⟨rfl, rfl⟩ := Prod.mk.inj hcut
    rw [if_pos hclosed]
  next hopen =>
    obtain ⟨rfl, rfl⟩ := Prod.mk.inj hcut
    rw [if_neg hopen]

theorem opensHeading_of_atxHeading? (hh : atxHeading? raw = some h) :
    OpensHeading (withoutLineEnding raw) := by
  simp only [atxHeading?] at hh
  split at hh
  · cases hh
  next hcount =>
    split at hh
    · cases hh
    next hend =>
      generalize withoutLineEnding raw = line at *
      clear hh
      refine ⟨line.takeWhile isSpaceOrTab, (line.dropWhile isSpaceOrTab).takeWhile (· == '#'),
        (line.dropWhile isSpaceOrTab).dropWhile (· == '#'), ?_,
        fun c hc => List.mem_takeWhile_imp hc, ?_, by omega,
        fun c hc => beq_iff_eq.1 (List.mem_takeWhile_imp (p := (· == '#')) hc), fun c hc => ?_⟩
      · rw [List.append_assoc, List.takeWhile_append_dropWhile, List.takeWhile_append_dropWhile]
      · rintro hnil
        exact hcount (.inl (List.length_eq_zero_iff.2 hnil))
      · generalize (line.dropWhile isSpaceOrTab).dropWhile (· == '#') = after at *
        cases after with
        | nil => cases hc
        | cons d after =>
          obtain rfl := Option.some.inj hc
          by_contra hd
          exact hend ⟨List.takeWhile_cons_of_neg hd, List.cons_ne_nil d after⟩

/-- What stands behind the marker. -/
def AtxHeading.behind (h : AtxHeading) : List Char := h.content ++ h.closing.getD [] ++ h.rest

/-- The pieces of a heading line: its indentation, a run of one to six number signs with all spaces
and tabs behind it, and what is left, cut into content and closing run, but for white space at the
end. -/
structure AtxHeading.Cuts (h : AtxHeading) (raw : List Char) : Prop
    extends ClosingCut h.content h.closing where
  text : h.text = raw
  indent : ∀ c ∈ h.indent, isSpaceOrTab c = true
  marker : ∃ signs gap, h.marker = signs ++ gap ∧ signs ≠ [] ∧ signs.length ≤ 6 ∧
    (∀ c ∈ signs, c = '#') ∧ (∀ c ∈ gap, isSpaceOrTab c = true) ∧
    (gap = [] → ∀ c ∈ h.behind, isLineEnding c = true)
  behind : ∀ c, h.behind.head? = some c → isSpaceOrTab c = false
  contentStart : ∀ c, h.content.head? = some c → isSpaceOrTab c = false
  rest : ∀ c ∈ h.rest, isBlank c = true

theorem AtxHeading.text_eq (h : AtxHeading) : h.text = h.indent ++ h.marker ++ h.behind := by
  simp only [text, behind, List.append_assoc]

theorem cuts_of_opening (ho : AtxOpening (withoutLineEnding raw) indent signs gap tail) :
    ∃ h, atxHeading? raw = some h ∧ h.Cuts raw := by
  obtain ⟨ending, hraw, hending⟩ := exists_append_trimEnd isLineEnding raw
  obtain ⟨blanks, htail, hblanks⟩ := exists_append_trimEnd isBlank tail
  have hbody : ∀ c, (trimEnd isBlank tail).getLast? = some c → isBlank c = false :=
    fun c hc => getLast?_trimEnd_ne isBlank tail hc
  obtain ⟨⟨content, closing⟩, hcut⟩ : ∃ pieces, cutClosing (trimEnd isBlank tail) = pieces :=
    ⟨_, rfl⟩
  obtain ⟨htext, hclosing⟩ := (cutClosing_eq_iff hbody).1 hcut
  have hbehind : content ++ closing.getD [] ++ (blanks ++ ending) = tail ++ ending := by
    rw [htext, ← List.append_assoc, ← htail]
  have hpieces : raw = indent ++ (signs ++ gap) ++ (tail ++ ending) :=
    calc raw = withoutLineEnding raw ++ ending := hraw
      _ = indent ++ (signs ++ gap) ++ (tail ++ ending) := by
        rw [ho.line]
        simp only [List.append_assoc]
  have hhead : ∀ c, (tail ++ ending).head? = some c → isSpaceOrTab c = false := by
    intro c hc
    cases tail with
    | nil => exact isSpaceOrTab_of_isLineEnding (hending c (List.mem_of_mem_head? hc))
    | cons d tail => exact ho.tail c hc
  refine ⟨⟨indent, signs ++ gap, content, closing, blanks ++ ending⟩,
    atxHeading?_of_opening ho rfl hcut ?_, ?_⟩
  · rw [hpieces, ← hbehind, htext]
    simp only [List.append_assoc]
  · refine { hclosing with
      text := ?_, indent := ho.indent, marker := ?_, behind := ?_, contentStart := ?_, rest := ?_ }
    · rw [AtxHeading.text_eq, AtxHeading.behind, hbehind, hpieces]
    · refine ⟨signs, gap, rfl, ho.signs.1, ho.signs.2.1, ho.signs.2.2, ho.gap, fun hgap => ?_⟩
      rw [AtxHeading.behind, hbehind, ho.parted hgap]
      exact hending
    · rwa [AtxHeading.behind, hbehind]
    · intro c hc
      refine hhead c ?_
      rw [← hbehind, List.append_assoc, List.head?_append, hc, Option.some_or]
    · exact List.forall_mem_append.2 ⟨hblanks, fun c hc => isBlank_of_isLineEnding (hending c hc)⟩

theorem ClosingCut.getLast? (h : ClosingCut content closing) :
    ∀ c, (content ++ closing.getD []).getLast? = some c → isBlank c = false := by
  intro c hc
  cases closing with
  | none =>
    rw [Option.getD_none, List.append_nil] at hc
    exact h.contentEnd c hc
  | some piece =>
    obtain ⟨blanks, run, rfl, -, hne, hrun, -⟩ := h.closing piece rfl
    rw [Option.getD_some, ← List.append_assoc] at hc
    rw [hrun c (mem_of_getLast?_append hne hc)]
    decide

/-- Up to the rest of a heading line, no line ends. -/
theorem isLineEnding_of_getLast? (hne : signs ≠ []) (hsigns : ∀ c ∈ signs, c = '#')
    (hgap : ∀ c ∈ gap, isSpaceOrTab c = true)
    (hbody : ∀ c, body.getLast? = some c → isBlank c = false) :
    ∀ c, (indent ++ (signs ++ gap) ++ body).getLast? = some c → isLineEnding c = false := by
  intro c hc
  rw [Bool.eq_false_iff]
  intro hending
  by_cases hnil : body = []
  · rw [hnil, List.append_nil] at hc
    obtain hc | hc := List.mem_append.1 (mem_of_getLast?_append (by simp [hne]) hc)
    · rw [hsigns c hc] at hending
      exact absurd hending (by decide)
    · exact absurd (hgap c hc) (Bool.eq_false_iff.1 (isSpaceOrTab_of_isLineEnding hending))
  · rw [List.getLast?_append, List.getLast?_eq_some_getLast hnil, Option.some_or,
      ← List.getLast?_eq_some_getLast hnil] at hc
    exact absurd (isBlank_of_isLineEnding hending) (Bool.eq_false_iff.1 (hbody c hc))

/-- A heading line is cut in one way only. -/
theorem atxHeading?_of_cuts (hc : h.Cuts raw) : atxHeading? raw = some h := by
  obtain ⟨hclosing, htext, hindent, ⟨signs, gap, hmarker, hne, hlength, hsigns, hgap, hgapEnd⟩,
    hbehind, -, hrest⟩ := hc
  obtain ⟨indent, marker, content, closing, rest⟩ := h
  dsimp only at hclosing htext hindent hmarker hbehind hrest
  subst hmarker
  have hbody := hclosing.getLast?
  have hcut := (cutClosing_eq_iff hbody).2 ⟨rfl, hclosing⟩
  simp only [AtxHeading.behind, AtxHeading.text] at htext hbehind hgapEnd
  rw [List.append_assoc _ content] at htext
  generalize content ++ closing.getD [] = body at *
  have hraw : withoutLineEnding raw =
      indent ++ (signs ++ gap) ++ body ++ withoutLineEnding rest := by
    rw [← htext]
    exact trimEnd_append_of_getLast? (isLineEnding_of_getLast? hne hsigns hgap hbody) rest
  have hparted : gap = [] → body ++ withoutLineEnding rest = [] := by
    intro hnil
    obtain ⟨hbodyEnding, hrestEnding⟩ := List.forall_mem_append.1 (hgapEnd hnil)
    have hbodyNil : body = [] := by
      by_contra hbodyNe
      have hlast := hbody _ (List.getLast?_eq_some_getLast hbodyNe)
      rw [isBlank_of_isLineEnding (hbodyEnding _ (List.getLast_mem hbodyNe))] at hlast
      cases hlast
    rw [hbodyNil, List.nil_append]
    exact trimEnd_append_of_mem [] hrestEnding
  have htail : ∀ c, (body ++ withoutLineEnding rest).head? = some c → isSpaceOrTab c = false := by
    intro c hc
    apply hbehind
    obtain ⟨ending, hline⟩ := withoutLineEnding_isPrefix rest
    rw [← hline, ← List.append_assoc, List.head?_append, hc, Option.some_or]
  have ho : AtxOpening (withoutLineEnding raw) indent signs gap (body ++ withoutLineEnding rest) :=
    ⟨by rw [hraw]; simp only [List.append_assoc], hparted, hindent, ⟨hne, hlength, hsigns⟩, hgap,
      htail⟩
  have hblank : ∀ c ∈ withoutLineEnding rest, isBlank c = true :=
    fun c hc => hrest c ((withoutLineEnding_isPrefix rest).subset hc)
  refine atxHeading?_of_opening ho ?_ hcut htext.symm
  rw [trimEnd_append_of_mem body hblank]
  exact trimEnd_eq_self hbody

theorem atxHeading?_eq_some_iff : atxHeading? raw = some h ↔ h.Cuts raw := by
  refine ⟨fun hh => ?_, atxHeading?_of_cuts⟩
  obtain ⟨indent, signs, gap, tail, ho⟩ := opensHeading_iff.1 (opensHeading_of_atxHeading? hh)
  obtain ⟨h', hh', hcuts⟩ := cuts_of_opening ho
  rw [hh] at hh'
  exact Option.some.inj hh' ▸ hcuts

theorem atxHeading?_text (hh : atxHeading? raw = some h) : h.text = raw :=
  (atxHeading?_eq_some_iff.1 hh).text

theorem mem_indent_of_atxHeading? (hh : atxHeading? raw = some h) :
    ∀ c ∈ h.indent, isSpaceOrTab c = true :=
  (atxHeading?_eq_some_iff.1 hh).indent

theorem mem_marker_of_atxHeading? (hh : atxHeading? raw = some h) :
    ∀ c ∈ h.marker, c = '#' ∨ isSpaceOrTab c = true := by
  obtain ⟨signs, gap, hmarker, -, -, hsigns, hgap, -⟩ := (atxHeading?_eq_some_iff.1 hh).marker
  rw [hmarker]
  exact fun c hc => (List.mem_append.1 hc).imp (hsigns c) (hgap c)

/-- Behind the content of a heading line there are only number signs and white space. -/
theorem mem_closing_of_atxHeading? (hh : atxHeading? raw = some h) :
    ∀ c ∈ h.closing.getD [] ++ h.rest, c = '#' ∨ isBlank c = true := by
  have hcuts := atxHeading?_eq_some_iff.1 hh
  refine List.forall_mem_append.2 ⟨?_, fun c hc => .inr (hcuts.rest c hc)⟩
  cases hclosing : h.closing with
  | none => exact List.forall_mem_nil _
  | some piece =>
    obtain ⟨blanks, run, rfl, hblanks, -, hrun, -⟩ := hcuts.closing piece hclosing
    exact fun c hc => (List.mem_append.1 hc).elim (.inr ∘ hblanks c) (.inl ∘ hrun c)

theorem exists_atxHeading?_iff :
    (∃ h, atxHeading? raw = some h) ↔ OpensHeading (withoutLineEnding raw) := by
  constructor
  · rintro ⟨h, hh⟩
    exact opensHeading_of_atxHeading? hh
  · intro hopens
    obtain ⟨indent, signs, gap, tail, ho⟩ := opensHeading_iff.1 hopens
    obtain ⟨h, hh, -⟩ := cuts_of_opening ho
    exact ⟨h, hh⟩

/-- Without the line endings behind it, a line is a heading exactly when number signs open one, and
its pieces are those that the rules for a heading line allow, which are its only ones. -/
theorem atxHeading?_cut (raw : List Char) :
    ((∃ h, atxHeading? raw = some h) ↔ ∃ line ending, raw = line ++ ending ∧
      (∀ c ∈ ending, isLineEnding c = true) ∧
      (∀ c, line.getLast? = some c → isLineEnding c = false) ∧ OpensHeading line) ∧
    ∀ h, atxHeading? raw = some h ↔ h.Cuts raw := by
  refine ⟨?_, fun h => atxHeading?_eq_some_iff⟩
  rw [exists_atxHeading?_iff]
  constructor
  · intro hopens
    obtain ⟨⟨ending, hraw, hending⟩, hline⟩ := trimEnd_eq_iff.1 (rfl : withoutLineEnding raw = _)
    exact ⟨_, ending, hraw, hending, hline, hopens⟩
  · rintro ⟨line, ending, hraw, hending, hline, hopens⟩
    have htrim : withoutLineEnding raw = line := trimEnd_eq_iff.2 ⟨⟨ending, hraw, hending⟩, hline⟩
    rwa [htrim]

/-- The last number sign of the content is glued to it, and other white space goes with the closing
run before which it stands. -/
example : atxHeading? "##\t C#\u3000 ##\u00a0\r\n".toList = some ⟨[], "##\t ".toList, "C#".toList,
    some "\u3000 ##".toList, "\u00a0\r\n".toList⟩ := by decide

end MarkdownPreview.Syntax
