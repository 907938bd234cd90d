import MarkdownPreview.Proofs.Decoration.Shift
import MarkdownPreview.Proofs.Latex.Shift
import MarkdownPreview.Proofs.Writer.Links

/-! The rules of the writer in a text that has another text before it. A rule reads its slice, which
is the same as before, and counts from where the slice starts; so its decorations are those in the
text alone, moved by the characters before. Only a rule of dashes looks at what stands in front of
it, back to the start of its line, and a line feed at the end of the text before stops it there. -/

namespace MarkdownPreview.Writer

open Text Syntax

variable (before text : List Char) (options : Options) (bytes : Span) (kind : Decoration.Kind)

/-! ### Marks -/

theorem raw_behind : raw (before ++ text) (bytes.shift (byteLength before)) = raw text bytes := by
  rw [raw, byteSlice?_append, raw]

theorem mark_behind : mark (before ++ text) (bytes.shift (byteLength before)) kind =
    (mark text bytes kind).map (·.shift before.length) := by
  simp only [mark, Span.isEmpty_shift, Span.shift_start, Span.shift_stop, charOffset_append_add]
  split <;> rfl

theorem markPieces_behind (pos : Nat) (pieces : List (List Char × List Decoration.Kind)) :
    markPieces (before ++ text) (pos + byteLength before) pieces =
      (markPieces text pos pieces).map (·.shift before.length) := by
  induction pieces generalizing pos with
  | nil => rfl
  | cons p rest ih =>
    obtain ⟨piece, kinds⟩ := p
    simp only [markPieces, List.map_append, List.map_flatMap]
    rw [Nat.add_right_comm, ih]
    congr 2
    funext kind
    exact mark_behind before text ⟨pos, pos + byteLength piece⟩ kind

theorem surround_behind (content : Span) :
    surround (before ++ text) (bytes.shift (byteLength before))
        (content.shift (byteLength before)) kind =
      (surround text bytes content kind).map (·.shift before.length) := by
  simp only [surround, List.map_append, ← mark_behind]
  rfl

/-- What is left of a moved span between delimiters. -/
theorem inner_shift {closing : Nat} (opening n : Nat) (h : closing ≤ bytes.stop) :
    (⟨(bytes.shift n).start + opening, (bytes.shift n).stop - closing⟩ : Span) =
      Span.shift ⟨bytes.start + opening, bytes.stop - closing⟩ n := by
  simp only [Span.shift, Span.mk.injEq]
  omega

theorem opening_shift (opening n : Nat) :
    (⟨(bytes.shift n).start, (bytes.shift n).start + opening⟩ : Span) =
      Span.shift ⟨bytes.start, bytes.start + opening⟩ n := by
  simp only [Span.shift, Nat.add_right_comm]

theorem closing_shift {closing : Nat} (n : Nat) (h : closing ≤ bytes.stop) :
    (⟨(bytes.shift n).stop - closing, (bytes.shift n).stop⟩ : Span) =
      Span.shift ⟨bytes.stop - closing, bytes.stop⟩ n := by
  simp only [Span.shift, Span.mk.injEq, and_true]
  omega

/-! ### Delimited text -/

theorem emphasis_behind (isDelimiter : Char → Bool) (most : Nat) :
    emphasis (before ++ text) (bytes.shift (byteLength before)) isDelimiter most kind =
      (emphasis text bytes isDelimiter most kind).map (·.map (·.shift before.length)) := by
  have hstop := byteLength_raw_le_stop text bytes
  rw [emphasis_eq, emphasis_eq, Except.map, raw_behind]
  split
  · rw [mark_behind]
  next h =>
    have hroom := Nat.not_lt.1 (not_or.1 h).2
    rw [inner_shift bytes _ _ (by omega), surround_behind]

theorem mathSymbols_behind (content : Span) :
    mathSymbols (before ++ text) options (content.shift (byteLength before)) =
      (mathSymbols text options content).map (·.shift before.length) := by
  simp only [mathSymbols, raw_behind, Span.shift_start, charOffset_append_add,
    Latex.findSubstitutions_shift, Latex.nonOverlapping_shift, List.map_map]
  split <;> simp [Decoration.shift]

theorem holdsDelimiters_shift (opening closing n : Nat) :
    holdsDelimiters (bytes.shift n) opening closing = holdsDelimiters bytes opening closing := by
  simp only [holdsDelimiters, Span.length_shift]

theorem mathBetween_behind (opening closing : Nat) :
    mathBetween (before ++ text) options (bytes.shift (byteLength before)) opening closing kind =
      (mathBetween text options bytes opening closing kind).map
        (·.map (·.shift before.length)) := by
  rw [mathBetween_eq, mathBetween_eq, Except.map, holdsDelimiters_shift]
  split
  next h =>
    have hroom := of_decide_eq_true h
    simp only [Span.length] at hroom
    rw [inner_shift bytes _ _ (by omega), surround_behind, mathSymbols_behind, List.map_append]
  · rfl

theorem dollarRuns_behind (most : Nat) :
    dollarRuns (before ++ text) (bytes.shift (byteLength before)) most =
      dollarRuns text bytes most := by
  simp only [dollarRuns, raw_behind]

theorem dollarMath_behind (most : Nat) :
    dollarMath (before ++ text) options (bytes.shift (byteLength before)) most kind =
      (dollarMath text options bytes most kind).map (·.map (·.shift before.length)) := by
  simp only [dollarMath, dollarRuns_behind, mathBetween_behind]

theorem displayKind_behind : displayKind (before ++ text) (bytes.shift (byteLength before)) =
    displayKind text bytes := by
  simp only [displayKind, raw_behind]

theorem codeSpan_behind : codeSpan (before ++ text) (bytes.shift (byteLength before)) =
    (codeSpan text bytes).map (·.map (·.shift before.length)) := by
  have hstop := byteLength_raw_le_stop text bytes
  rw [codeSpan_eq, codeSpan_eq, Except.map, raw_behind]
  split
  · rw [mark_behind]
  next h =>
    have hroom := Nat.not_lt.1 (not_or.1 h).2
    rw [opening_shift, closing_shift bytes _ (by omega), List.map_append, List.map_append,
      mark_behind, mark_behind, mark_behind]

/-! ### Blocks -/

theorem heading_behind (level : Nat) :
    heading (before ++ text) (bytes.shift (byteLength before)) level =
      (heading text bytes level).map (·.shift before.length) := by
  have hcomm (n : Nat) :
      bytes.start + byteLength before + n = bytes.start + n + byteLength before :=
    Nat.add_right_comm _ _ n
  simp only [heading, raw_behind, Span.shift_start, hcomm, markPieces_behind]
  split
  · split
    · rfl
    · rw [List.map_append]
  · split
    · rfl
    · rw [List.map_append, List.map_append]

theorem listItem_behind : listItem (before ++ text) (bytes.shift (byteLength before)) =
    (listItem text bytes).map (·.shift before.length) := by
  simp only [listItem, raw_behind, Span.shift_start]
  split
  · rfl
  · exact markPieces_behind before text _ _

theorem taskMarker_behind (checked : Bool) :
    taskMarker (before ++ text) (bytes.shift (byteLength before)) checked =
      (taskMarker text bytes checked).map (·.shift before.length) := by
  simp only [taskMarker, raw_behind, Span.shift_start]
  split
  · rfl
  · exact markPieces_behind before text _ _

theorem blockquote_behind : blockquote (before ++ text) (bytes.shift (byteLength before)) =
    (blockquote text bytes).map (·.shift before.length) := by
  simp only [blockquote, raw_behind, List.map_flatMap]
  congr 1
  funext marker
  have hmarker : marker.shift (bytes.shift (byteLength before)).start =
      (marker.shift bytes.start).shift (byteLength before) := by
    simp only [Span.shift, Nat.add_assoc]
  rw [hmarker, mark_behind]

theorem fencedBlock_behind : fencedBlock (before ++ text) (bytes.shift (byteLength before)) =
    (fencedBlock text bytes).map (·.shift before.length) := by
  simp only [fencedBlock, raw_behind, Span.shift_start]
  split
  · exact mark_behind before text bytes .codeBlock
  · exact markPieces_behind before text _ _

theorem indentedBlock_behind : indentedBlock (before ++ text) (bytes.shift (byteLength before)) =
    (indentedBlock text bytes).map (·.shift before.length) := by
  simp only [indentedBlock, raw_behind, Span.shift_start]
  exact markPieces_behind before text _ _

/-! ### Rules -/

variable {before}

/-- Spaces are counted back to a line feed and no further. -/
theorem trailingIndent_append (hend : before.getLast? = some '\n') (u : List Char) :
    trailingIndent (before ++ u) = trailingIndent u := by
  obtain ⟨v, rfl⟩ := List.getLast?_eq_some_iff.1 hend
  have hreverse : (v ++ ['\n'] ++ u).reverse = u.reverse ++ '\n' :: v.reverse := by simp
  have hsplit := List.takeWhile_append_dropWhile (p := (· == ' ')) (l := u.reverse)
  simp only [trailingIndent, hreverse, List.dropWhile_append, List.takeWhile_append]
  cases hdrop : u.reverse.dropWhile (· == ' ') with
  | nil =>
    -- there are only spaces, and the line feed that stops the count is that of `before`
    rw [hdrop, List.append_nil] at hsplit
    simp [hsplit]
  | cons c rest =>
    have hlength : (u.reverse.takeWhile (· == ' ')).length ≠ u.length := by
      intro h
      have := congrArg List.length hsplit
      rw [hdrop, List.length_append, List.length_cons, List.length_reverse] at this
      omega
    simp [hlength]

theorem indentBefore_behind (hend : before.getLast? = some '\n') (pos : Nat) :
    indentBefore (before ++ text) (pos + byteLength before) = indentBefore text pos := by
  simp only [indentBefore, takeBytes?_append, Option.map_map]
  congr 2
  funext u
  exact trailingIndent_append hend u

theorem rule_behind (hend : before.getLast? = some '\n') (h : bytes.start ≤ byteLength text) :
    rule (before ++ text) (bytes.shift (byteLength before)) =
      (rule text bytes).map (·.map (·.shift before.length)) := by
  have hindent := indentBefore_le text bytes.start
  have hin : (bytes.shift (byteLength before)).start ≤ byteLength (before ++ text) := by
    rw [byteLength_append, Span.shift_start]
    omega
  have hspan : (⟨bytes.start + byteLength before - indentBefore text bytes.start,
      bytes.start + byteLength before + byteLength (withoutLineEnding (raw text bytes))⟩ : Span) =
        Span.shift ⟨bytes.start - indentBefore text bytes.start,
          bytes.start + byteLength (withoutLineEnding (raw text bytes))⟩ (byteLength before) := by
    simp only [Span.shift, Span.mk.injEq]
    omega
  rw [rule_eq hin, rule_eq h, Except.map, raw_behind, Span.shift_start,
    indentBefore_behind text hend, hspan, mark_behind]

/-! ### Links -/

def LinkFrame.shift (f : LinkFrame) (n : Nat) : LinkFrame :=
  { f with span := f.span.shift n, contentStop := f.contentStop + n }

theorem finishLink_behind (f : LinkFrame) :
    finishLink (before ++ text) (f.shift (byteLength before)) =
      (finishLink text f).map (·.map (·.shift before.length)) := by
  have hstop := byteLength_raw_le_stop text f.span
  have hcontent (n : Nat) : (⟨f.span.start + byteLength before + n,
      min (max (f.contentStop + byteLength before) (f.span.start + byteLength before + n))
        (f.span.stop + byteLength before)⟩ : Span) =
      Span.shift ⟨f.span.start + n, min (max f.contentStop (f.span.start + n)) f.span.stop⟩
        (byteLength before) := by
    simp only [Span.shift, Span.mk.injEq]
    omega
  rw [finishLink_eq, finishLink_eq, Except.map]
  simp only [LinkFrame.shift, raw_behind]
  split
  next h =>
    rw [inner_shift f.span _ _ (by omega), surround_behind]
    rfl
  next =>
    split
    next =>
      simp only [Span.shift_start, Span.shift_stop, hcontent]
      rw [surround_behind]
      rfl
    next =>
      rw [mark_behind]
      rfl

end MarkdownPreview.Writer
