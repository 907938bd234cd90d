import MarkdownPreview.Proofs.Syntax.AtxHeading
import MarkdownPreview.Proofs.Text.Occurrence
import MarkdownPreview.Syntax.Fence
import MarkdownPreview.Syntax.Marker

/-! The pieces of a construct make up its source. Underlined headings and fenced code blocks are cut
without loss: the pieces in order are the whole slice. List markers, task boxes and quote markers
are cut off the front of a slice or of a line of it. -/

namespace MarkdownPreview.Syntax

open Text

/-! ### Prefixes -/

/-- Before a tail without some character, a text has all that it has up to that character. -/
theorem append_singleton_isPrefix {u v before after : List Char} {c : Char}
    (h : u ++ v = before ++ c :: after) (hc : c ∉ v) : before ++ [c] <+: u := by
  obtain ⟨piece, rfl, rfl⟩ | ⟨piece, rfl, hpiece⟩ := List.append_eq_append_iff.1 h
  · exact absurd (List.mem_append_right piece List.mem_cons_self) hc
  · cases piece with
    | nil =>
      rw [List.nil_append] at hpiece
      exact absurd (hpiece ▸ List.mem_cons_self) hc
    | cons d piece =>
      obtain ⟨rfl, -⟩ := List.cons.inj hpiece
      exact ⟨piece, by rw [List.append_assoc, List.singleton_append]⟩

theorem takeWhile_append_isPrefix (p : Char → Bool) {v text : List Char}
    (hv : v <+: text.dropWhile p) : text.takeWhile p ++ v <+: text := by
  obtain ⟨w, hw⟩ := hv
  exact ⟨w, by rw [List.append_assoc, hw, List.takeWhile_append_dropWhile]⟩

/-- A text up to and including a character that it holds. -/
theorem takeWhile_ne_append {c : Char} {text : List Char} (h : c ∈ text) :
    text.takeWhile (· != c) ++ [c] <+: text := by
  induction text with
  | nil => simp at h
  | cons d text ih =>
    by_cases hd : d = c
    · subst hd
      simp
    · obtain ⟨w, hw⟩ := ih ((List.mem_cons.1 h).resolve_left (Ne.symm hd))
      refine ⟨w, ?_⟩
      rw [List.takeWhile_cons_of_pos (by simpa using hd)]
      simpa using hw

/-- What a prefix leaves of a text belongs to what is left of a longer prefix, or is behind that. -/
theorem mem_drop_of_isPrefix {u text : List Char} (hu : u <+: text) {n : Nat} (hn : n ≤ u.length)
    {c : Char} (hc : c ∈ text.drop n) : c ∈ u.drop n ∨ c ∈ text.drop u.length := by
  obtain ⟨v, rfl⟩ := hu
  rw [List.drop_append_of_le_length hn] at hc
  rw [List.drop_left]
  exact List.mem_append.1 hc

/-! ### The last line -/

theorem lastLine_suffix (text : List Char) : lastLine text <:+ text := by
  refine ⟨(text.reverse.dropWhile (· != '\n')).reverse, ?_⟩
  rw [lastLine, ← List.reverse_append, List.takeWhile_append_dropWhile, List.reverse_reverse]

theorem lastLine_append_of_lineFeed (u v : List Char) : lastLine (u ++ '\n' :: v) = lastLine v := by
  rw [List.append_cons, lastLine, lastLine, List.reverse_append, List.takeWhile_append,
    List.reverse_append]
  split
  next h => simp [List.takeWhile_prefix _ |>.eq_of_length h]
  · rfl

/-- A text of more than one line is cut in two by its last line feed. -/
theorem eq_append_lastLine {text : List Char} (h : (lastLine text).length ≠ text.length) :
    text = text.take (text.length - (lastLine text).length - 1) ++ '\n' :: lastLine text := by
  have hsplit := List.takeWhile_append_dropWhile (p := (· != '\n')) (l := text.reverse)
  cases hd : text.reverse.dropWhile (· != '\n') with
  | nil =>
    rw [hd, List.append_nil] at hsplit
    exact absurd (by rw [lastLine, hsplit, List.reverse_reverse]) h
  | cons c rest =>
    obtain rfl : c = '\n' := by
      have := List.head_dropWhile_not (· != '\n') (l := text.reverse) (by simp [hd])
      simpa [hd] using this
    rw [hd] at hsplit
    have htext : rest.reverse ++ '\n' :: lastLine text = text := by
      simpa [lastLine] using congrArg List.reverse hsplit
    have hlen : text.length - (lastLine text).length - 1 = rest.reverse.length := by
      have := congrArg List.length htext
      simp only [List.length_append, List.length_cons] at this
      omega
    rw [hlen, ← List.prefix_iff_eq_take.1 ⟨_, htext⟩, htext]

/-! ### Underlined headings -/

/-- White space at the end of a line is no part of its underline, and what may stand before the
underline is all at the front. -/
theorem takeWhile_append_drop_trimEnd {p : Char → Bool} {line : List Char}
    (h : (trimEnd isBlank line).drop (line.takeWhile p).length ≠ []) :
    line.takeWhile p ++ (trimEnd isBlank line).drop (line.takeWhile p).length =
      trimEnd isBlank line := by
  refine List.prefix_iff_eq_append.1 (List.prefix_of_prefix_length_le (List.takeWhile_prefix p)
    (trimEnd_isPrefix isBlank line) ?_)
  rw [ne_eq, List.drop_eq_nil_iff] at h
  omega

theorem setextHeading?_text {raw : List Char} {h : SetextHeading}
    (hh : setextHeading? raw = some h) : h.text = raw := by
  simp only [setextHeading?] at hh
  split at hh
  · simp at hh
  next hlen =>
    split at hh
    · simp at hh
    next hunder =>
      obtain rfl := Option.some.inj hh
      have hraw := withoutLineEnding_isPrefix raw
      have hsplit := eq_append_lastLine hlen
      generalize withoutLineEnding raw = body at *
      generalize body.take (body.length - (lastLine body).length - 1) = before at *
      have hcontent : before.takeWhile isSpaceOrTab ++
          trimEnd isBlank (before.dropWhile isSpaceOrTab) <+: before :=
        takeWhile_append_isPrefix _ (trimEnd_isPrefix _ _)
      have hline := takeWhile_append_drop_trimEnd hunder
      have htrimmed := trimEnd_isPrefix isBlank (lastLine body)
      generalize lastLine body = line at *
      generalize before.takeWhile isSpaceOrTab = indent at *
      generalize trimEnd isBlank (before.dropWhile isSpaceOrTab) = content at *
      generalize line.takeWhile isLinePrefix = lead at *
      generalize (trimEnd isBlank line).drop lead.length = underline at *
      generalize trimEnd isBlank line = trimmed at *
      have hpieces : indent ++ content ++
          (before.drop (indent.length + content.length) ++ ['\n']) ++ lead ++ underline <+: raw := by
        rw [List.append_assoc _ lead, hline, ← List.append_assoc, ← List.length_append,
          List.prefix_iff_eq_append.1 hcontent]
        refine .trans ?_ hraw
        obtain ⟨w, hw⟩ := htrimmed
        exact ⟨w, by rw [hsplit, List.append_assoc, hw, List.append_assoc, List.singleton_append]⟩
      have hrest := List.prefix_iff_eq_append.1 hpieces
      simp only [SetextHeading.text, List.length_append] at hrest ⊢
      exact hrest

theorem mem_indent_of_setextHeading? {raw : List Char} {h : SetextHeading}
    (hh : setextHeading? raw = some h) : ∀ c ∈ h.indent, isSpaceOrTab c = true := by
  simp only [setextHeading?] at hh
  split at hh
  · cases hh
  split at hh
  · cases hh
  obtain rfl := Option.some.inj hh
  exact fun c hc => List.mem_takeWhile_imp hc

/-- Behind the underline of a heading there is only white space. -/
theorem mem_rest_of_setextHeading? {raw : List Char} {h : SetextHeading}
    (hh : setextHeading? raw = some h) : ∀ c ∈ h.rest, isBlank c = true := by
  simp only [setextHeading?] at hh
  split at hh
  · cases hh
  next hlength =>
    split at hh
    · cases hh
    next hunder =>
      have hraw := withoutLineEnding_isPrefix raw
      have hending : ∀ c ∈ raw.drop (withoutLineEnding raw).length, isBlank c = true := fun c hc =>
        isBlank_of_isLineEnding (of_mem_drop_trimEnd hc)
      have hsplit := eq_append_lastLine hlength
      generalize withoutLineEnding raw = body at *
      generalize body.take (body.length - (lastLine body).length - 1) = before at *
      have hcontent := (takeWhile_append_isPrefix isSpaceOrTab
        (trimEnd_isPrefix isBlank (before.dropWhile isSpaceOrTab))).length_le
      have hline := congrArg List.length (takeWhile_append_drop_trimEnd hunder)
      have htrimmed := (trimEnd_isPrefix isBlank (lastLine body)).length_le
      have hblank : ∀ c ∈ (lastLine body).drop (trimEnd isBlank (lastLine body)).length,
          isBlank c = true := fun c hc => of_mem_drop_trimEnd hc
      rw [List.append_cons] at hsplit
      have hbody := congrArg List.length hsplit
      rw [List.length_append] at hcontent hline hbody
      generalize lastLine body = line at *
      generalize before.takeWhile isSpaceOrTab = indent at *
      generalize trimEnd isBlank (before.dropWhile isSpaceOrTab) = content at *
      generalize line.takeWhile isLinePrefix = lead at *
      generalize (trimEnd isBlank line).drop lead.length = underline at *
      generalize trimEnd isBlank line = trimmed at *
      obtain rfl := Option.some.inj hh
      intro c hc
      -- up to the underline's end, the pieces are the lines before it and its own trimmed line
      have hpieces : indent.length + content.length +
          (before.drop (indent.length + content.length) ++ ['\n']).length + lead.length +
          underline.length = (before ++ ['\n']).length + trimmed.length := by
        rw [List.length_append, List.length_append, List.length_drop]
        omega
      simp only [hpieces] at hc
      obtain hc | hc := mem_drop_of_isPrefix hraw (by omega) hc
      · rw [hsplit, ← List.drop_drop, List.drop_left] at hc
        exact hblank c hc
      · exact hending c hc

/-! ### Code blocks -/

theorem fencedBody_text (c : Char) (n : Nat) (text : List Char) :
    (fencedBody c n text).body ++ (fencedBody c n text).closeLead ++
      (fencedBody c n text).close.getD [] ++ (fencedBody c n text).rest = text := by
  simp only [fencedBody]
  split
  · obtain ⟨before, hbefore⟩ := lastLine_suffix (withoutLineEnding text)
    have hbody := hbefore ▸ withoutLineEnding_isPrefix text
    have hlen : (withoutLineEnding text).length - (lastLine (withoutLineEnding text)).length =
        before.length := by
      have := congrArg List.length hbefore
      rw [List.length_append] at this
      omega
    generalize lastLine (withoutLineEnding text) = last at *
    rw [hlen, ← List.prefix_iff_eq_take.1 ((List.prefix_append before last).trans hbody)]
    have hpieces : before ++ last.takeWhile isLinePrefix ++
        (last.dropWhile isLinePrefix).takeWhile (· == c) <+: text := by
      rw [List.append_assoc]
      exact ((List.prefix_append_right_inj before).2
        (takeWhile_append_isPrefix _ (List.takeWhile_prefix _))).trans hbody
    simpa [Nat.add_assoc] using List.prefix_iff_eq_append.1 hpieces
  · simp

theorem fencedCode?_text {raw : List Char} {f : FencedCode} (hf : fencedCode? raw = some f) :
    f.text = raw := by
  simp only [fencedCode?] at hf
  split at hf
  · simp at hf
  next c afterLead hlead =>
    have hraw : raw.takeWhile (! isFenceChar ·) ++ c :: afterLead = raw := by
      rw [← hlead, List.takeWhile_append_dropWhile]
    generalize raw.takeWhile (! isFenceChar ·) = lead at *
    split at hf
    · simp at hf
    · have hfence : (c :: afterLead).takeWhile (· == c) ++ (c :: afterLead).dropWhile (· == c) =
          c :: afterLead := List.takeWhile_append_dropWhile
      generalize (c :: afterLead).takeWhile (· == c) = fence at *
      generalize (c :: afterLead).dropWhile (· == c) = afterFence at *
      have hinfo : afterFence.takeWhile (· != '\n') ++ (afterFence.dropWhile (· != '\n')).take 1 ++
          (afterFence.dropWhile (· != '\n')).drop 1 = afterFence := by
        rw [List.append_assoc, List.take_append_drop, List.takeWhile_append_dropWhile]
      generalize afterFence.takeWhile (· != '\n') = info at *
      generalize (afterFence.dropWhile (· != '\n')).take 1 = ending at *
      have hbody := fencedBody_text c fence.length ((afterFence.dropWhile (· != '\n')).drop 1)
      generalize fencedBody c fence.length _ = b at *
      generalize (afterFence.dropWhile (· != '\n')).drop 1 = lines at *
      split at hf
      · obtain rfl := Option.some.inj hf
        simp [FencedCode.text, ← hraw, ← hfence, ← hinfo, ← hbody]
      · have hword : info.takeWhile isSpaceOrTab ++
            (info.dropWhile isSpaceOrTab).takeWhile (! isBlank ·) <+: info :=
          takeWhile_append_isPrefix _ (List.takeWhile_prefix _)
        generalize info.takeWhile isSpaceOrTab = gap at *
        generalize (info.dropWhile isSpaceOrTab).takeWhile (! isBlank ·) = word at *
        obtain rfl := Option.some.inj hf
        obtain ⟨after, rfl⟩ := hword
        rw [← List.length_append, List.drop_left]
        simp [FencedCode.text, ← hraw, ← hfence, ← hinfo, ← hbody]

/-! ### List items -/

theorem bulletOrNumber?_isPrefix {text marker : List Char}
    (h : bulletOrNumber? text = some marker) : marker <+: text := by
  simp only [bulletOrNumber?] at h
  split at h
  · simp at h
  next c rest =>
    split at h
    · obtain rfl := Option.some.inj h
      exact ⟨rest, rfl⟩
    · split at h
      · simp at h
      · split at h
        next d after hd =>
          split at h
          · obtain rfl := Option.some.inj h
            exact takeWhile_append_isPrefix _ (hd ▸ ⟨after, rfl⟩)
          · simp at h
        · simp at h

theorem listMarker?_isPrefix {raw : List Char} {m : ListMarker} (h : listMarker? raw = some m) :
    m.indent ++ m.marker <+: raw := by
  simp only [listMarker?, Option.map_eq_some_iff] at h
  obtain ⟨marker, hm, rfl⟩ := h
  refine takeWhile_append_isPrefix _ ?_
  have hp := List.prefix_iff_eq_append.1 (bulletOrNumber?_isPrefix hm)
  split
  next c rest hdrop =>
    split
    · exact ⟨rest, by rw [List.append_assoc, List.singleton_append, ← hdrop, hp]⟩
    · simp only [List.append_nil]
      exact ⟨_, hp⟩
  · simp only [List.append_nil]
    exact ⟨_, hp⟩

theorem checkbox?_isPrefix {raw : List Char} {c : Checkbox} (h : checkbox? raw = some c) :
    c.lead ++ c.box <+: raw := by
  simp only [checkbox?] at h
  split at h
  next hclose =>
    obtain rfl := Option.some.inj h
    exact takeWhile_append_isPrefix _ (takeWhile_ne_append (by simpa using hclose))
  · simp at h

/-! ### Quoted lines -/

theorem quoteRun_isPrefix (text : List Char) : quoteRun text <+: text := by
  fun_induction quoteRun text with
  | case1 c rest _ ih => simpa using ih
  | case2 c rest _ ih => simpa using ih
  | case3 => exact List.prefix_refl _
  | case4 => exact List.nil_prefix

/-- A quote marker of lines that follow one another from byte `pos` on is a piece of their text. -/
theorem quoteMarkersFrom_piece {lines : List (List Char)} {pos : Nat} {s : Span}
    (hs : s ∈ quoteMarkersFrom pos lines) :
    ∃ before run after, lines.flatten = before ++ run ++ after ∧
      s = ⟨pos + byteLength before, pos + byteLength before + byteLength run⟩ := by
  induction lines generalizing pos with
  | nil => simp [quoteMarkersFrom] at hs
  | cons line lines ih =>
    rcases List.mem_append.1 hs with hs | hs
    · simp only [quoteMarker?, Option.mem_toList] at hs
      split at hs
      · simp at hs
      · obtain rfl := Option.some.inj hs
        obtain ⟨after, ha⟩ := quoteRun_isPrefix (line.dropWhile isSpaceOrTab)
        refine ⟨_, _, after ++ lines.flatten, ?_, rfl⟩
        rw [List.flatten_cons, ← List.append_assoc, List.append_assoc _ _ after, ha,
          List.takeWhile_append_dropWhile]
    · obtain ⟨before, run, after, hl, rfl⟩ := ih hs
      refine ⟨line ++ before, run, after, by simp [hl], ?_⟩
      rw [byteLength_append, Nat.add_assoc]

end MarkdownPreview.Syntax
