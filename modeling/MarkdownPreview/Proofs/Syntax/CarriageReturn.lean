import MarkdownPreview.Proofs.Syntax.BracketOrigin
import MarkdownPreview.Proofs.Syntax.QuoteMarkers
import MarkdownPreview.Proofs.Text.CarriageReturn

/-! Constructs with their line feeds replaced by carriage returns. The syntax of a construct that
stands in one line is cut out of it as before, because wherever a line may end, either of the two
characters ends it or counts as white space. Only lines are told apart by line feeds alone; so code
blocks and quotations of more lines than one are left out here, and so is bracket math that a blank
line breaks. -/

namespace MarkdownPreview.Syntax

open Text

/-! ### Headings -/

def AtxHeading.withReturns (h : AtxHeading) : AtxHeading :=
  ⟨Text.withReturns h.indent, Text.withReturns h.marker, Text.withReturns h.content,
    h.closing.map Text.withReturns, Text.withReturns h.rest⟩

theorem closesHeading_withReturns (before : List Char) :
    closesHeading (withReturns before) = closesHeading before := by
  simp only [closesHeading, withReturns, List.getLast?_map]
  cases before.getLast? with
  | none => rfl
  | some c => exact apply_asReturn c (p := isSpaceOrTab) rfl

theorem atxHeading?_withReturns (raw : List Char) :
    atxHeading? (withReturns raw) = (atxHeading? raw).map (·.withReturns) := by
  have hgap := fun text => takeWhile_withReturns text (p := isSpaceOrTab) rfl
  have hafter := fun text => dropWhile_withReturns text (p := isSpaceOrTab) rfl
  have hsigns := fun text => takeWhile_withReturns text (p := (· == '#')) rfl
  have hbody := fun text => dropWhile_withReturns text (p := (· == '#')) rfl
  have hblank := fun text => trimEnd_withReturns text (p := isBlank) rfl
  have hclose := fun text => trimEnd_withReturns text (p := (· == '#')) rfl
  simp only [atxHeading?, withoutLineEnding_withReturns, hgap, hafter, hsigns, hbody, hblank,
    hclose, length_withReturns, closesHeading_withReturns, withReturns_eq_nil_iff, ne_eq,
    ← withReturns_append, withReturns_drop]
  split
  · rfl
  split
  · rfl
  split <;> rfl

/-! ### Markers -/

theorem bulletOrNumber?_withReturns (text : List Char) :
    bulletOrNumber? (withReturns text) = (bulletOrNumber? text).map withReturns := by
  have hdigits := takeWhile_withReturns text (p := isDigit) rfl
  have hafter := dropWhile_withReturns text (p := isDigit) rfl
  cases text with
  | nil => rfl
  | cons c rest =>
    rw [withReturns_cons] at *
    simp only [bulletOrNumber?, apply_asReturn c (p := isBullet) rfl, hdigits, hafter,
      length_withReturns]
    split
    · rfl
    split
    · rfl
    cases (c :: rest).dropWhile isDigit with
    | nil => rfl
    | cons d tail =>
      have hsign : asReturn d = '.' ∨ asReturn d = ')' ↔ d = '.' ∨ d = ')' :=
        or_congr (asReturn_eq_iff d (by decide) (by decide))
          (asReturn_eq_iff d (by decide) (by decide))
      simp only [withReturns_cons, hsign]
      split
      · simp
      · rfl

def ListMarker.withReturns (m : ListMarker) : ListMarker :=
  ⟨Text.withReturns m.indent, Text.withReturns m.marker⟩

theorem listMarker?_withReturns (raw : List Char) :
    listMarker? (withReturns raw) = (listMarker? raw).map (·.withReturns) := by
  have hgap := fun text => takeWhile_withReturns text (p := isSpaceOrTab) rfl
  have hafter := fun text => dropWhile_withReturns text (p := isSpaceOrTab) rfl
  simp only [listMarker?, hgap, hafter, bulletOrNumber?_withReturns, Option.map_map]
  congr 1
  funext marker
  simp only [Function.comp_apply, length_withReturns, withReturns_drop]
  cases (raw.dropWhile isSpaceOrTab).drop marker.length with
  | nil => simp [ListMarker.withReturns]
  | cons c rest =>
    simp only [withReturns_cons, apply_asReturn c (p := isSpaceOrTab) rfl]
    split <;> simp [ListMarker.withReturns]

def Checkbox.withReturns (c : Checkbox) : Checkbox :=
  ⟨Text.withReturns c.lead, Text.withReturns c.box⟩

theorem checkbox?_withReturns (raw : List Char) :
    checkbox? (withReturns raw) = (checkbox? raw).map (·.withReturns) := by
  simp only [checkbox?, takeWhile_withReturns raw (p := (· != '[')) rfl,
    dropWhile_withReturns raw (p := (· != '[')) rfl]
  rw [contains_withReturns _ (by decide) (by decide), takeWhile_withReturns _ rfl]
  split
  · simp [Checkbox.withReturns]
    rfl
  · rfl

/-! ### Quoted lines -/

theorem quoteRun_withReturns (text : List Char) :
    quoteRun (withReturns text) = withReturns (quoteRun text) := by
  have hsign : asReturn '>' = '>' := rfl
  fun_induction quoteRun text with
  | case1 c rest hc ih =>
    simp only [withReturns_cons, hsign, quoteRun, apply_asReturn c (p := isSpaceOrTab) rfl, hc,
      if_true, ih]
  | case2 c rest hc ih =>
    rw [withReturns_cons] at ih
    simp only [withReturns_cons, hsign, quoteRun, apply_asReturn c (p := isSpaceOrTab) rfl, hc,
      Bool.false_eq_true, if_false, ih]
  | case3 => rfl
  | case4 text hmore hone =>
    cases text with
    | nil => rfl
    | cons c rest =>
      have hc : c ≠ '>' := by
        rintro rfl
        cases rest with
        | nil => exact hone rfl
        | cons d rest => exact hmore d rest rfl
      have hnone (d : Char) (hd : d ≠ '>') (text : List Char) : quoteRun (d :: text) = [] := by
        simp [quoteRun, hd]
      exact hnone _ (mt (asReturn_eq_iff c (by decide) (by decide)).1 hc) _

theorem quoteMarker?_withReturns (pos : Nat) (line : List Char) :
    quoteMarker? pos (withReturns line) = quoteMarker? pos line := by
  simp only [quoteMarker?, takeWhile_withReturns line (p := isSpaceOrTab) rfl,
    dropWhile_withReturns line (p := isSpaceOrTab) rfl, quoteRun_withReturns,
    withReturns_eq_nil_iff, byteLength_withReturns]

theorem oneLine_withReturns (text : List Char) : OneLine (withReturns text) := fun h =>
  lineFeed_not_mem_withReturns text (List.dropLast_subset _ h)

theorem quoteMarkers_withReturns {raw : List Char} (h : OneLine raw) :
    quoteMarkers (withReturns raw) = quoteMarkers raw := by
  by_cases hne : raw = []
  · rw [hne, withReturns_nil]
  · rw [quoteMarkers, quoteMarkers, linesOf_of_oneLine h hne,
      linesOf_of_oneLine (oneLine_withReturns raw) (mt (withReturns_eq_nil_iff raw).1 hne)]
    simp only [quoteMarkersFrom, quoteMarker?_withReturns]

/-! ### Code blocks -/

def FencedCode.withReturns (f : FencedCode) : FencedCode :=
  ⟨Text.withReturns f.lead, Text.withReturns f.fence, Text.withReturns f.gap,
    f.language.map Text.withReturns, Text.withReturns f.openRest, Text.withReturns f.body,
    Text.withReturns f.closeLead, f.close.map Text.withReturns, Text.withReturns f.rest⟩

theorem takeWhile_concat {p : Char → Bool} {d : Char} (h : p d = false) (u : List Char) :
    (u ++ [d]).takeWhile p = u.takeWhile p := by
  induction u with
  | nil => simp [h]
  | cons c u ih =>
    simp only [List.cons_append, List.takeWhile_cons, ih]

theorem dropWhile_concat {p : Char → Bool} {d : Char} (h : p d = false) (u : List Char) :
    (u ++ [d]).dropWhile p = u.dropWhile p ++ [d] := by
  induction u with
  | nil => simp [h]
  | cons c u ih =>
    simp only [List.cons_append, List.dropWhile_cons, ih]
    split <;> rfl

/-- In one line, a cut at the first line feed leaves nothing behind it. -/
theorem OneLine.cut {text : List Char} (h : OneLine text) :
    text = text.takeWhile (· != '\n') ++ (text.dropWhile (· != '\n')).take 1 ∧
      (text.dropWhile (· != '\n')).drop 1 = [] ∧
      ((text.dropWhile (· != '\n')).take 1 = [] ∨
        (text.dropWhile (· != '\n')).take 1 = ['\n']) := by
  have hsplit := List.takeWhile_append_dropWhile (p := (· != '\n')) (l := text)
  cases hd : text.dropWhile (· != '\n') with
  | nil =>
    rw [hd] at hsplit
    exact ⟨hsplit.symm, rfl, .inl rfl⟩
  | cons c rest =>
    obtain rfl : c = '\n' := by
      have := List.head_dropWhile_not (· != '\n') (l := text) (by simp [hd])
      simpa [hd] using this
    rw [hd] at hsplit
    cases rest with
    | nil => exact ⟨hsplit.symm, rfl, .inr rfl⟩
    | cons d rest =>
      rw [OneLine, ← hsplit, List.dropLast_append_cons,
        List.dropLast_cons_of_ne_nil (List.cons_ne_nil d rest)] at h
      simp at h

theorem OneLine.of_suffix {u v : List Char} (h : OneLine (u ++ v)) : OneLine v := by
  cases v with
  | nil => simp [OneLine]
  | cons c v =>
    rw [OneLine, List.dropLast_append_cons, List.mem_append, not_or] at h
    exact h.2

theorem fencedBody_nil (c : Char) {n : Nat} (hn : n ≠ 0) :
    fencedBody c n [] = ⟨[], [], none, []⟩ := by
  simp [fencedBody, withoutLineEnding, trimEnd, lastLine, hn]

/-- A code block of one line is cut behind its language. -/
theorem fencedCode?_of_oneLine {raw : List Char} (h : OneLine raw) :
    fencedCode? raw =
      match raw.dropWhile (! isFenceChar ·) with
      | [] => none
      | c :: afterLead =>
        let fence := (c :: afterLead).takeWhile (· == c)
        if fence.length < 3 then none
        else
          let info := (c :: afterLead).dropWhile (· == c)
          let word := (info.dropWhile isSpaceOrTab).takeWhile (! isBlank ·)
          let lead := raw.takeWhile (! isFenceChar ·)
          if word = [] then some ⟨lead, fence, [], none, info, [], [], none, []⟩
          else
            let gap := info.takeWhile isSpaceOrTab
            some ⟨lead, fence, gap, some word, info.drop (gap.length + word.length), [], [], none,
              []⟩ := by
  have hsplit := List.takeWhile_append_dropWhile (p := (! isFenceChar ·)) (l := raw)
  simp only [fencedCode?]
  cases hd : raw.dropWhile (! isFenceChar ·) with
  | nil => rfl
  | cons c afterLead =>
    have hfence := List.takeWhile_append_dropWhile (p := (· == c)) (l := c :: afterLead)
    have hline : OneLine ((c :: afterLead).dropWhile (· == c)) := by
      rw [← hsplit, hd, ← hfence] at h
      exact h.of_suffix.of_suffix
    simp only
    split
    · rfl
    next hlength =>
      generalize (c :: afterLead).dropWhile (· == c) = info at *
      obtain ⟨hinfo, hlines, hending⟩ := hline.cut
      rw [hlines, fencedBody_nil c (by omega)]
      generalize info.takeWhile (· != '\n') = line at *
      generalize (info.dropWhile (· != '\n')).take 1 = ending at *
      subst hinfo
      obtain rfl | rfl := hending
      · simp only [List.append_nil]
      · have hword : line.takeWhile isSpaceOrTab ++
            (line.dropWhile isSpaceOrTab).takeWhile (! isBlank ·) <+: line :=
          takeWhile_append_isPrefix _ (List.takeWhile_prefix _)
        have hlength := hword.length_le
        rw [List.length_append] at hlength
        simp only [takeWhile_concat (p := isSpaceOrTab) (d := '\n') rfl,
          dropWhile_concat (p := isSpaceOrTab) (d := '\n') rfl,
          takeWhile_concat (p := (! isBlank ·)) (d := '\n') rfl,
          List.drop_append_of_le_length hlength]

theorem fencedCode?_withReturns {raw : List Char} (h : OneLine raw) :
    fencedCode? (withReturns raw) = (fencedCode? raw).map (·.withReturns) := by
  have hlead := takeWhile_withReturns raw (p := (! isFenceChar ·)) rfl
  have hfences := dropWhile_withReturns raw (p := (! isFenceChar ·)) rfl
  rw [fencedCode?_of_oneLine h, fencedCode?_of_oneLine (oneLine_withReturns raw), hlead, hfences]
  cases hd : raw.dropWhile (! isFenceChar ·) with
  | nil => rfl
  | cons c afterLead =>
    have hchar : isFenceChar c = true := by
      have := List.head_dropWhile_not (! isFenceChar ·) (l := raw) (by simp [hd])
      simpa [hd] using this
    have hreturn : asReturn c = c := asReturn_of_ne (by rintro rfl; simp [isFenceChar] at hchar)
    have hsame : ('\n' == c) = ('\r' == c) := by
      simp only [isFenceChar, Bool.or_eq_true, beq_iff_eq] at hchar
      rcases hchar with rfl | rfl <;> rfl
    have hfence := takeWhile_withReturns (c :: afterLead) (p := (· == c)) hsame
    have hinfo := dropWhile_withReturns (c :: afterLead) (p := (· == c)) hsame
    simp only [withReturns_cons, hreturn] at hfence hinfo ⊢
    simp only [hfence, hinfo, length_withReturns]
    split
    · rfl
    · generalize (c :: afterLead).dropWhile (· == c) = info
      simp only [takeWhile_withReturns info (p := isSpaceOrTab) rfl,
        dropWhile_withReturns info (p := isSpaceOrTab) rfl,
        takeWhile_withReturns _ (p := (! isBlank ·)) rfl, length_withReturns,
        withReturns_eq_nil_iff, withReturns_drop]
      split <;> rfl

/-! ### Bracket math -/

theorem untilClose?_withReturns (text : List Char) :
    untilClose? (withReturns text) = (untilClose? text).map withReturns := by
  fun_induction untilClose? text with
  | case1 => rfl
  | case2 => rfl
  | case3 c rest hclose ih =>
    rw [withReturns_cons, untilClose?, ih, Option.map_map, Option.map_map]
    · rfl
    · intro tail hc hrest
      obtain ⟨tail, rfl⟩ := exists_of_withReturns_eq_cons (by decide) (by decide) hrest
      exact hclose tail ((asReturn_eq_iff c (by decide) (by decide)).1 hc) rfl

theorem mathBody?_withReturns (text : List Char) :
    mathBody? (withReturns text) = (mathBody? text).map withReturns := by
  cases text with
  | nil => rfl
  | cons c rest =>
    rw [withReturns_cons, mathBody?, mathBody?, untilClose?_withReturns, Option.map_map,
      Option.map_map]
    rfl

/-- Without line feeds there is one line, and it is the first. -/
theorem spansBlankLine_withReturns (body : List Char) :
    spansBlankLine (withReturns body) = false := by
  rw [Bool.eq_false_iff, ne_eq, spansBlankLine_iff]
  rintro ⟨before, line, after, h, -⟩
  exact lineFeed_not_mem_withReturns body (h ▸ by simp)

theorem judgeOpener_withReturns (excluded : ExcludedSpans) (pos : Nat) {body : List Char}
    (h : ¬ HoldsBlankLine body) :
    judgeOpener excluded pos (withReturns body) = judgeOpener excluded pos body := by
  rw [← spansBlankLine_iff, Bool.not_eq_true] at h
  simp only [judgeOpener, byteLength_withReturns, spansBlankLine_withReturns, h]

theorem bracketMathFrom_withReturns (excluded : ExcludedSpans) (length pos resume : Nat)
    {text : List Char} (h : ¬ HoldsBlankLine text) :
    bracketMathFrom excluded length pos resume (withReturns text) =
      bracketMathFrom excluded length pos resume text := by
  have hopener (rest : List Char) :
      withReturns ('\\' :: '[' :: rest) = '\\' :: '[' :: withReturns rest := rfl
  have htail {c : Char} {rest : List Char} (h : ¬ HoldsBlankLine (c :: rest)) :
      ¬ HoldsBlankLine rest := fun hrest => h (hrest.of_infix (List.suffix_cons c rest).isInfix)
  have hin {rest body : List Char} (hbody : mathBody? rest = some body)
      (h : ¬ HoldsBlankLine rest) : ¬ HoldsBlankLine body := by
    obtain ⟨-, after, rfl⟩ := eq_append_of_mathBody? hbody
    exact fun hblank => h (hblank.of_infix (List.prefix_append body _).isInfix)
  fun_induction bracketMathFrom excluded length pos resume text with
  | case1 pos resume rest hlt ih =>
    rw [hopener, bracketMathFrom, if_pos hlt]
    exact ih (htail h)
  | case2 pos resume rest hlt hbody =>
    rw [hopener, bracketMathFrom, if_neg hlt, mathBody?_withReturns, hbody]
    rfl
  | case3 pos resume rest hlt body hbody next found hjudge hover =>
    have hjudge' := judgeOpener_withReturns excluded pos (hin hbody (htail (htail h)))
    rw [hopener, bracketMathFrom, if_neg hlt, mathBody?_withReturns, hbody]
    simp only [Option.map_some, hjudge', hjudge, if_pos hover]
  | case4 pos resume rest hlt body hbody next found hjudge hover ih =>
    have hjudge' := judgeOpener_withReturns excluded pos (hin hbody (htail (htail h)))
    rw [hopener, bracketMathFrom, if_neg hlt, mathBody?_withReturns, hbody]
    simp only [Option.map_some, hjudge', hjudge, if_neg hover]
    exact congrArg _ (ih (htail h))
  | case5 pos resume c rest hno ih =>
    rw [withReturns_cons, bracketMathFrom, utf8Size_asReturn]
    · exact ih (htail h)
    · intro tail hc hrest
      obtain ⟨tail, rfl⟩ := exists_of_withReturns_eq_cons (by decide) (by decide) hrest
      exact hno tail ((asReturn_eq_iff c (by decide) (by decide)).1 hc) rfl
  | case6 => rfl

/-- Where no line is blank, the same bracket math is found. -/
theorem bracketMath_withReturns (excluded : ExcludedSpans) {source : List Char}
    (h : ¬ HoldsBlankLine source) :
    bracketMath (withReturns source) excluded = bracketMath source excluded := by
  rw [bracketMath, byteLength_withReturns, bracketMathFrom_withReturns _ _ _ _ h, bracketMath]

end MarkdownPreview.Syntax
