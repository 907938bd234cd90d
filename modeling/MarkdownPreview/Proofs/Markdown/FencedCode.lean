import MarkdownPreview.Markdown.Block
import MarkdownPreview.Proofs.Markdown.Cursor
import MarkdownPreview.Proofs.Syntax.FencedCode

/-! What the reader takes for a fenced code block. After the opening line come lines of code, each
behind the prefixes of its containers, and then perhaps a line with nothing but a prefix, a fence
and spaces. The text events are all within the lines of code; without a closing line the last of
them ends where the block ends. -/

namespace MarkdownPreview.Markdown

open Text (Span isLineEnding)
open Syntax (isLinePrefix isFenceChar isLinePrefix_of_isFenceChar)

variable {place : Place} {indent : Nat} {f : Fence} {here : Cursor} {text : List Char}

/-! ### Fences -/

theorem fence?_eq_some (h : fence? text = some f) :
    ∃ rest, text = f.char :: rest ∧ isFenceChar f.char = true ∧
      f.length = countRun f.char text ∧ 3 ≤ f.length := by
  simp only [fence?] at h
  split at h
  next c rest =>
    split at h
    next hc =>
      split at h
      · simp at h
      · obtain rfl := Option.some.inj h
        refine ⟨rest, rfl, ?_, rfl, hc.2⟩
        obtain ⟨rfl | rfl, -⟩ := hc <;> rfl
    · simp at h
  · simp at h

/-- A character that no line ends at. -/
theorem isLineEnding_of_isFenceChar {c : Char} (h : isFenceChar c = true) :
    isLineEnding c = false := by
  simp only [isFenceChar, Bool.or_eq_true, beq_iff_eq] at h
  obtain rfl | rfl := h <;> rfl

theorem isLineEnding_of_isLinePrefix {c : Char} (h : isLinePrefix c = true) :
    isLineEnding c = false := by
  simp only [isLinePrefix, Bool.or_eq_true, beq_iff_eq] at h
  obtain (rfl | rfl) | rfl := h <;> rfl

/-- A closing fence is on one line. -/
theorem closingFence?_eq_some {n : Nat} (hf : isFenceChar f.char = true)
    (h : closingFence? f text = some n) :
    n ≤ text.length ∧ ∀ c ∈ text.take n, isLineEnding c = false := by
  simp only [closingFence?] at h
  split at h
  · obtain rfl := Option.some.inj h
    simp
  · split at h
    · simp at h
    · obtain ⟨_, -, rfl⟩ := Option.map_eq_some_iff.1 h
      have hle := countRun_le f.char text
      have hle' := countRun_le ' ' (text.drop (countRun f.char text))
      rw [List.length_drop] at hle'
      refine ⟨by omega, fun c hc => ?_⟩
      rw [List.take_add] at hc
      obtain hc | hc := List.mem_append.1 hc
      · exact mem_take_countRun hc ▸ isLineEnding_of_isFenceChar hf
      · exact mem_take_countRun hc ▸ rfl

/-! ### Text events -/

theorem mem_codeText {spaces pos : Nat} {line : List Char} {e : Event}
    (he : e ∈ codeText spaces pos line) :
    e.kind = .text ∧ pos ≤ e.span.start ∧ e.span.stop ≤ pos + line.length := by
  simp only [codeText] at he
  split at he
  next heq =>
    have hlen := congrArg List.length heq
    simp only [List.length_reverse, List.length_cons] at hlen
    grind
  · grind

/-- The text of a line goes to its end. -/
theorem exists_mem_codeText {spaces : Nat} (pos : Nat) {line : List Char}
    (h : spaces ≠ 0 ∨ line ≠ []) :
    ∃ e ∈ codeText spaces pos line, e.span.stop = pos + line.length := by
  simp only [codeText]
  split
  next heq =>
    have hlen := congrArg List.length heq
    simp only [List.length_reverse, List.length_cons] at hlen
    refine ⟨⟨.text, ⟨pos + line.length - 1, pos + line.length⟩⟩, List.mem_append_right _ ?_, rfl⟩
    rw [if_pos (by omega)]
    exact List.mem_singleton_self _
  · cases line with
    | nil =>
      refine ⟨⟨.text, ⟨pos, pos⟩⟩, List.mem_append_left _ ?_, rfl⟩
      rw [if_neg (by simpa using h)]
      exact List.mem_singleton_self _
    | cons c rest =>
      refine ⟨⟨.text, ⟨pos, pos + (c :: rest).length⟩⟩, List.mem_append_right _ ?_, rfl⟩
      rw [if_pos (by simp)]
      exact List.mem_singleton_self _

/-- Only a carriage return is left out of the text of a line. -/
theorem exists_codeText_contains (spaces pos : Nat) {i : Nat} {c : Char} {text : List Char}
    (hi : text[i]? = some c) (hc : c ≠ '\r') :
    ∃ e ∈ codeText spaces pos text, e.span.contains (pos + i) = true := by
  have hlt : i < text.length := (List.getElem?_eq_some_iff.1 hi).1
  have hcovered (first last : Nat) (hfirst : first ≤ pos + i) (hlast : pos + i < last) :
      ∃ e ∈ (if first < last then [⟨.text, ⟨first, last⟩⟩] else [] : List Event),
        e.span.contains (pos + i) = true := by
    rw [if_pos (Nat.lt_of_le_of_lt hfirst hlast)]
    exact ⟨_, List.mem_singleton_self _, Span.contains_iff.2 ⟨hfirst, hlast⟩⟩
  simp only [codeText]
  split
  next last before heq =>
    have htext : text = before.reverse ++ ['\r', last] := by
      rw [← List.reverse_reverse text, heq]
      simp
    have hlength : text.length = before.length + 2 := by simp [htext]
    by_cases hbefore : i < before.length
    · obtain ⟨e, he, hin⟩ := hcovered pos (pos + text.length - 2) (by omega) (by omega)
      exact ⟨e, List.mem_append_left _ (List.mem_append_right _ he), hin⟩
    · have hne : i ≠ before.length := by
        rintro rfl
        exact hc (by simpa [htext] using hi.symm)
      obtain ⟨e, he, hin⟩ :=
        hcovered (pos + text.length - 1) (pos + text.length) (by omega) (by omega)
      exact ⟨e, List.mem_append_right _ he, hin⟩
  · obtain ⟨e, he, hin⟩ := hcovered pos (pos + text.length) (by omega) (by omega)
    exact ⟨e, List.mem_append_right _ he, hin⟩

/-- The characters of a fence are in the text of their line: what stands before it are prefixes. -/
theorem exists_codeText_contains_fence (spaces pos : Nat) {lead text : List Char}
    (hlead : ∀ c ∈ lead, isLinePrefix c = true) {i : Nat} {c : Char}
    (hi : (lead ++ text)[i]? = some c) (hc : isFenceChar c = true) :
    ∃ e ∈ codeText spaces (pos + lead.length) text, e.span.contains (pos + i) = true := by
  have hreturn : c ≠ '\r' := by
    rintro rfl
    cases hc
  obtain hlt | hge := Nat.lt_or_ge i lead.length
  · rw [List.getElem?_append_left hlt] at hi
    have hprefix := hlead c (List.mem_of_getElem? hi)
    rw [isLinePrefix_of_isFenceChar hc] at hprefix
    cases hprefix
  · rw [List.getElem?_append_right hge] at hi
    have hpos : pos + lead.length + (i - lead.length) = pos + i := by omega
    exact hpos ▸ exists_codeText_contains spaces (pos + lead.length) hi hreturn

/-! ### Lines -/

/-- The lines after the opening line from a place on, cut into those with the code and what closes
the block, if anything does. -/
structure FenceLines (here : Cursor) (events : List Event) (stop : Nat) (body closing : List Char) :
    Prop where
  text : body ++ closing <+: here.rest
  stop_eq : stop = here.pos + body.length + closing.length
  within : ∀ e ∈ events, here.pos ≤ e.span.start ∧ e.span.stop ≤ here.pos + body.length
  /-- The text leaves out no character of a fence. -/
  fences : ∀ i c, body[i]? = some c → isFenceChar c = true →
    ∃ e ∈ events, e.span.contains (here.pos + i) = true
  /-- Without a closing line the text goes to the end. -/
  unclosed : closing = [] → (body = [] ∧ events = []) ∨ ∃ e ∈ events, e.span.stop = stop
  /-- The closing line is a line of its own. -/
  closed : closing ≠ [] → (∀ c ∈ closing, isLineEnding c = false) ∧
    (body = [] ∨ body.getLast? = some '\n')

/-- No columns are found at the end of the text. -/
theorem skip_nil {c : Cursor} (hrest : c.rest = []) (hspaces : c.spaces = 0) {n : Nat}
    (hn : 0 < n) : (c.skip n).1 = false ∧ (c.skip n).2.rest = [] := by
  obtain ⟨pos, rest, origin, spaces⟩ := c
  obtain rfl : rest = [] := hrest
  obtain rfl : spaces = 0 := hspaces
  obtain ⟨n, rfl⟩ := Nat.exists_eq_succ_of_ne_zero (Nat.ne_of_gt hn)
  simp [Cursor.skip, Cursor.skipUpTo, Cursor.skipFrom]

/-- Only at the end of the text does a line hold nothing, and no columns are found there. -/
theorem spaces_ne_zero_or_line_ne_nil {inner : Cursor} {n : Nat} (hn : 0 < n)
    (hopen : (if (inner.skip n).1 then none else closingFence? f (inner.skip n).2.rest) = none) :
    inner.spaces ≠ 0 ∨ inner.rest.take (lineLength inner.rest) ≠ [] := by
  cases hrest : inner.rest with
  | cons c rest =>
    refine .inr ?_
    simp only [lineLength]
    split
    · simp
    · simp [Nat.add_comm 1]
  | nil =>
    refine .inl fun hspaces => ?_
    obtain ⟨hdeep, hend⟩ := skip_nil hrest hspaces hn
    simp [hdeep, hend, closingFence?] at hopen

namespace FenceLines

variable {inner close : Cursor} {lead body closing : List Char} {events : List Event} {stop : Nat}

/-- No lines. -/
theorem nil : FenceLines here [] here.pos [] [] :=
  ⟨List.nil_prefix, rfl, by simp, by simp, fun _ => .inl ⟨rfl, rfl⟩, by simp⟩

/-- The closing line. -/
theorem closingLine (hlead : here.Passes lead close) (hmarks : ∀ c ∈ lead, isLinePrefix c = true)
    (hf : isFenceChar f.char = true) {n : Nat} (hn : closingFence? f close.rest = some n) :
    FenceLines here [] (close.pos + n) [] (lead ++ close.rest.take n) := by
  obtain ⟨hrest, hpos⟩ := hlead
  obtain ⟨hle, hclose⟩ := closingFence?_eq_some hf hn
  refine ⟨⟨close.rest.drop n, by simp [hrest]⟩, ?_, by simp, by simp, fun _ => .inl ⟨rfl, rfl⟩,
    fun _ => ⟨List.forall_mem_append.2 ⟨fun c hc => ?_, hclose⟩, .inl rfl⟩⟩
  · rw [hpos, List.length_append, List.length_take, Nat.min_eq_left hle, List.length_nil]
    omega
  · exact isLineEnding_of_isLinePrefix (hmarks c hc)

/-- A line of code in front. -/
theorem codeLine (hlead : here.Passes lead inner) (hmarks : ∀ c ∈ lead, isLinePrefix c = true)
    (hcode : inner.spaces ≠ 0 ∨ inner.rest.take (lineLength inner.rest) ≠ [])
    (h : FenceLines (.ofLine (inner.pos + lineLength inner.rest)
      (inner.rest.drop (lineLength inner.rest))) events stop body closing) :
    FenceLines here
      (codeText inner.spaces inner.pos (inner.rest.take (lineLength inner.rest)) ++ events) stop
      (lead ++ inner.rest.take (lineLength inner.rest) ++ body) closing := by
  obtain ⟨hrest, hpos⟩ := hlead.trans (nextLine_passes inner)
  constructor
  case text =>
    obtain ⟨after, hafter⟩ := h.text
    exact ⟨after, by rw [hrest, ← hafter]; simp⟩
  case stop_eq =>
    rw [h.stop_eq, hpos]
    simp only [List.length_append]
    omega
  case within =>
    intro e he
    have hstart := hlead.2
    simp only [List.length_append] at hpos ⊢
    obtain he | he := List.mem_append.1 he
    · obtain ⟨-, hfirst, hlast⟩ := mem_codeText he
      omega
    · obtain ⟨hfirst, hlast⟩ := h.within e he
      omega
  case fences =>
    intro i c hi hc
    obtain hbody | hbody := Nat.lt_or_ge i (lead ++ inner.rest.take (lineLength inner.rest)).length
    · rw [List.getElem?_append_left hbody] at hi
      obtain ⟨e, he, hin⟩ := exists_codeText_contains_fence inner.spaces here.pos hmarks hi hc
      rw [← hlead.2] at he
      exact ⟨e, List.mem_append_left _ he, hin⟩
    · rw [List.getElem?_append_right hbody] at hi
      obtain ⟨e, he, hin⟩ := h.fences _ c hi hc
      refine ⟨e, List.mem_append_right _ he, ?_⟩
      rwa [hpos, Nat.add_assoc, Nat.add_sub_cancel' hbody] at hin
  case unclosed =>
    intro hclosing
    obtain ⟨rfl, rfl⟩ | ⟨e, he, hlast⟩ := h.unclosed hclosing
    · obtain ⟨e, he, hlast⟩ := exists_mem_codeText inner.pos hcode
      refine .inr ⟨e, List.mem_append_left _ he, ?_⟩
      rw [hlast, h.stop_eq, hclosing, hpos, hlead.2]
      simp [Nat.add_assoc]
    · exact .inr ⟨e, List.mem_append_right _ he, hlast⟩
  case closed =>
    intro hclosing
    obtain ⟨hclean, hbody⟩ := h.closed hclosing
    refine ⟨hclean, .inr ?_⟩
    obtain rfl | hbody := hbody
    · have hmore : inner.rest.drop (lineLength inner.rest) ≠ [] := by
        intro hnil
        have htext := h.text
        rw [Cursor.ofLine, hnil] at htext
        exact hclosing (List.append_eq_nil_iff.1 (List.prefix_nil.1 htext)).2
      rw [List.append_nil, List.getLast?_append, getLast?_take_lineLength hmore]
      rfl
    · rw [List.getLast?_append, hbody]
      rfl

end FenceLines

theorem readFenceLines_fenceLines (hf : isFenceChar f.char = true) (hindent : indent < 4)
    (fuel : Nat) : ∃ body closing, FenceLines here (readFenceLines place indent f fuel here).1
      (readFenceLines place indent f fuel here).2.1 body closing := by
  fun_induction readFenceLines place indent f fuel here with
  | case1 | case2 => exact ⟨[], [], .nil⟩
  | case3 _ here _ _ hc _ inner _ close hskip n hn =>
    have hprefix : here.PassesPrefix close := by
      refine .trans (Place.continues_passesPrefix hc) ?_
      exact .trans (Cursor.skip_passesPrefix rfl) (Cursor.skip_passesPrefix hskip)
    obtain ⟨lead, hlead, hmarks⟩ := hprefix
    split at hn
    · cases hn
    · exact ⟨[], _, .closingLine hlead hmarks hf hn⟩
  | case4 _ here _ _ hc _ inner _ close hskip hopen n events stop next hread ih =>
    have hprefix : here.PassesPrefix inner :=
      .trans (Place.continues_passesPrefix hc) (Cursor.skip_passesPrefix rfl)
    obtain ⟨lead, hlead, hmarks⟩ := hprefix
    have hcode : inner.spaces ≠ 0 ∨ inner.rest.take (lineLength inner.rest) ≠ [] :=
      spaces_ne_zero_or_line_ne_nil (Nat.sub_pos_of_lt hindent) (by rwa [hskip])
    obtain ⟨body, closing, h⟩ := ih
    rw [hread] at h
    exact ⟨_, closing, .codeLine hlead hmarks hcode h⟩

/-! ### Blocks -/

theorem wrap_inj {tag : Tag} {span span' : Span} {content content' : List Event}
    (h : wrap tag span content = wrap tag span' content') : span = span' ∧ content = content' := by
  obtain ⟨hhead, hrest⟩ := List.cons.inj h
  obtain ⟨-, rfl⟩ := Event.mk.inj hhead
  exact ⟨rfl, List.append_cancel_right hrest⟩

/-- A fenced code block starts at its fence, and its lines after the opening line are read to its
end. -/
theorem readFence_fenceLines {span : Span} {texts : List Event} (hf : fence? here.rest = some f)
    (hindent : indent < 4)
    (h : (readFence place indent f here).1 = .plain (wrap .fencedCode span texts)) :
    span.start = here.pos ∧ ∃ body closing, FenceLines
      (.ofLine (here.pos + lineLength here.rest) (here.rest.drop (lineLength here.rest)))
      texts span.stop body closing := by
  obtain ⟨_, -, hchar, -, -⟩ := fence?_eq_some hf
  simp only [readFence] at h
  generalize hlines : readFenceLines place indent f _ _ = lines at h
  obtain ⟨rfl, rfl⟩ := wrap_inj (Block.plain.inj h)
  exact ⟨rfl, hlines ▸ readFenceLines_fenceLines hchar hindent _⟩

/-- Where the lines of a fenced code block are in the source. -/
theorem exists_source_eq {source : List Char} (hon : here.On source) (hne : here.rest ≠ [])
    {texts : List Event} {stop : Nat} {body closing : List Char}
    (h : FenceLines
      (.ofLine (here.pos + lineLength here.rest) (here.rest.drop (lineLength here.rest)))
      texts stop body closing) :
    let text := here.rest.take (lineLength here.rest) ++ (body ++ closing)
    ∃ before after, source = before ++ text ++ after ∧ before.length = here.pos ∧
      stop = here.pos + text.length := by
  intro text
  obtain ⟨after, hafter⟩ := h.text
  have hrest : text ++ after = here.rest := by
    simp only [text]
    rw [List.append_assoc, hafter]
    exact List.take_append_drop _ _
  refine ⟨source.take here.pos, after, ?_, ?_, ?_⟩
  · rw [List.append_assoc, hrest, hon, List.take_append_drop]
  · rw [hon, ne_eq, List.drop_eq_nil_iff] at hne
    rw [List.length_take]
    omega
  · rw [h.stop_eq, List.length_append, List.length_append, length_take_lineLength]
    simp only [Cursor.ofLine]
    omega

end MarkdownPreview.Markdown
