import MarkdownPreview.Proofs.Preview.Quotations
import MarkdownPreview.Proofs.Syntax.QuotedLines
import MarkdownPreview.Proofs.Writer.CodeBlocks

/-! Code in the preview. The reader says where a fenced code block is and which of its text is code;
its decorations are cut from the slice of the source alone. The two agree on where the body begins,
and also on where it ends if a fence closes the block. A block that nothing closes may end in a
line of code that looks like a closing fence, because it is indented or stands behind a quote
marker; that line is then hidden as if it were one. What hides syntax elsewhere stays outside the
block, but the markers of a quotation are looked for on the lines of code in it too. -/

namespace MarkdownPreview

open Text Syntax Writer
open Markdown (Event Fence ReadFenced fence? lineLength outermostQuotes)

variable {source body closing run : List Char} {options : Options} {bytes span : Span}
  {before texts rest : List Event} {f : FencedCode} {pos : Nat}

/-! ### Bytes of code -/

/-- A byte of fenced code is drawn as code: the decoration of the block's body covers it, and
nothing hides it or has it for a language. -/
structure ShownAsCode (source : List Char) (bytes : Span) (ds : List Decoration) (pos : Nat) :
    Prop where
  shown : ∃ d ∈ fencedBlock source bytes, d ∈ ds ∧ d.kind = .codeBlock ∧
    d.span.contains (charOffset source pos) = true
  notHidden : ¬ Covers source ds .hide pos
  notLanguage : ¬ Covers source ds .codeBlockLanguage pos

/-- The byte belongs to the markers at the head of a line of the quotation. -/
def InQuoteMarkers (source : List Char) (bytes : Span) (pos : Nat) : Prop :=
  ∃ before line after marks, IsLine (raw source bytes) before line after ∧
    MarksLine before line marks ∧ (marks.shift bytes.start).contains pos = true

/-! ### Lines of code -/

/-- The run of fence characters is on the first line. -/
theorem takeWhile_beq_isPrefix {c : Char} (hc : c ≠ '\n') (text : List Char) :
    text.takeWhile (· == c) <+: text.take (lineLength text) := by
  rw [Markdown.take_lineLength]
  refine .trans ?_ (List.prefix_append _ _)
  induction text with
  | nil => exact List.prefix_refl _
  | cons d rest ih =>
    by_cases hd : d = c
    · subst hd
      simpa [hc] using ih
    · simp [hd]

/-- The lines of a fenced code block are cut as they were read: the first line is all before the
body, and the lines of code are in it, if a line closes the block or none seems to. -/
theorem fencedCode?_of_fenceLines {rest body closing : List Char} {fence : Fence}
    (hfence : fence? rest = some fence)
    (hlines : body ++ closing <+: rest.drop (lineLength rest))
    (hclosing : closing ≠ [] → (∀ c ∈ closing, isLineEnding c = false) ∧
      (body = [] ∨ body.getLast? = some '\n')) :
    ∃ f, fencedCode? (rest.take (lineLength rest) ++ (body ++ closing)) = some f ∧
      f.opening = rest.take (lineLength rest) ∧
      (closing ≠ [] ∨ f.close = none → body <+: f.body) := by
  obtain ⟨after, hrest, hchar, hlen, hthree⟩ := Markdown.fence?_eq_some hfence
  have hline := Markdown.lineLength_append hlines
  have hlength := Markdown.length_take_lineLength rest
  have hrun := takeWhile_beq_isPrefix (ne_lineFeed_of_isFenceChar hchar) rest
  generalize htext : rest.take (lineLength rest) ++ (body ++ closing) = text at hline ⊢
  have htake : text.take (lineLength text) = rest.take (lineLength rest) := by
    rw [hline, ← htext, List.take_left' hlength]
  have hdrop : text.drop (lineLength text) = body ++ closing := by
    rw [hline, ← htext, List.drop_left' hlength]
  obtain ⟨w, hw⟩ := hrun.trans ⟨_, htext⟩
  have hlong : 3 ≤ (text.takeWhile (· == fence.char)).length := by
    have hall : ∀ c ∈ rest.takeWhile (· == fence.char), (c == fence.char) = true :=
      List.all_eq_true.1 List.all_takeWhile
    rw [← hw, List.takeWhile_append_of_pos hall, List.length_append]
    rw [hlen, Markdown.countRun] at hthree
    omega
  obtain ⟨tail, rfl⟩ : ∃ tail, text = fence.char :: tail := by
    refine ⟨after.takeWhile (· == fence.char) ++ w, ?_⟩
    rw [← hw, hrest]
    simp
  obtain ⟨f, n, hf, hopening, hbody, hclose⟩ := fencedCode?_of_fence hchar hlong
  rw [← Markdown.take_lineLength, htake] at hopening
  rw [← Markdown.drop_lineLength, hdrop] at hbody hclose
  refine ⟨f, hf, hopening, ?_⟩
  rintro (hne | hnone)
  · obtain ⟨hclean, hends⟩ := hclosing hne
    exact hbody ▸ isPrefix_fencedBody _ _ hne hclean hends
  · rw [hbody, fencedBody_of_close_eq_none (hclose ▸ hnone)]
    exact List.prefix_append _ _

/-- The slice of a fenced code block, cut as it was read: into its opening line, the lines with the
code, and what closes it, if anything does. -/
structure CodeLines (source : List Char) (bytes : Span) (texts : List Event) (f : FencedCode)
    (body closing : List Char) : Prop where
  cut : fencedCode? (raw source bytes) = some f
  text : raw source bytes = f.opening ++ (body ++ closing)
  whole : closing ≠ [] ∨ f.close = none → body <+: f.body
  within : ∀ e ∈ texts, bytes.start + byteLength f.opening ≤ e.span.start ∧
    e.span.stop ≤ bytes.start + byteLength f.opening + byteLength body
  fences : ∀ u c v, body = u ++ c :: v → isFenceChar c = true →
    ∃ e ∈ texts, e.span.contains (bytes.start + byteLength f.opening + byteLength u) = true
  unclosed : closing = [] → texts = [] ∨ ∃ e ∈ texts, e.span.stop = bytes.stop

/-- A fenced code block that has been read has its lines in the source. -/
theorem exists_codeLines (h : ReadFenced source span texts) :
    ∃ f body closing, CodeLines source (span.map (byteOffset source))
      (texts.map (·.mapSpan (byteOffset source))) f body closing := by
  obtain ⟨place, indent, fence, here, hon, hindent, hfence, hread⟩ := h
  obtain ⟨hstart, body, closing, h⟩ := Markdown.readFence_fenceLines hfence hindent hread
  obtain ⟨f, hf, hopening, hbody⟩ := fencedCode?_of_fenceLines hfence h.text h.closed
  have hne : here.rest ≠ [] := by
    obtain ⟨_, hrest, -⟩ := Markdown.fence?_eq_some hfence
    exact hrest ▸ List.cons_ne_nil _ _
  obtain ⟨before, after, hsource, hbefore, hstop⟩ := Markdown.exists_source_eq hon hne h
  have hlines : here.pos + lineLength here.rest = before.length + f.opening.length := by
    rw [hbefore, hopening, Markdown.length_take_lineLength]
  rw [← hopening] at hsource hstop hf
  obtain ⟨hbytes, hraw⟩ :=
    raw_map_byteOffset hsource (hstart.trans hbefore.symm) (hbefore ▸ hstop)
  have hoffset (u v : List Char) (huv : u ++ v = body ++ closing) :
      byteOffset source (here.pos + lineLength here.rest + u.length) =
        (span.map (byteOffset source)).start + byteLength f.opening + byteLength u := by
    have hcut : source = before ++ f.opening ++ u ++ (v ++ after) := by
      rw [hsource, ← huv]
      simp
    rw [hbytes, hlines, ← byteLength_append, ← byteLength_append, ← List.length_append,
      ← List.length_append, hcut, byteOffset_append]
  refine ⟨f, body, closing, hraw ▸ hf, hraw, hbody, ?_, ?_, ?_⟩
  · refine List.forall_mem_map.2 fun e he => ?_
    obtain ⟨hfirst, hlast⟩ := h.within e he
    have hopened := hoffset [] (body ++ closing) rfl
    rw [byteLength_nil] at hopened
    rw [← hoffset body closing rfl, ← Nat.add_zero (_ + _), ← hopened]
    exact ⟨byteOffset_mono source hfirst, byteOffset_mono source hlast⟩
  · intro u c v huv hc
    obtain ⟨e, he, hin⟩ := h.fences u.length c (by simp [huv]) hc
    refine ⟨_, List.mem_map_of_mem he, ?_⟩
    have hlt : here.pos + lineLength here.rest + u.length < source.length := by
      rw [hlines, hsource, huv]
      simp only [List.length_append, List.length_cons]
      omega
    rw [Span.contains_iff] at hin
    rw [← hoffset u (c :: v ++ closing) (by simp [huv]), Span.contains_iff]
    exact ⟨byteOffset_mono source hin.1, byteOffset_lt hlt hin.2⟩
  · intro hclosing
    obtain ⟨-, rfl⟩ | ⟨e, he, hend⟩ := h.unclosed hclosing
    · exact .inl rfl
    · exact .inr ⟨_, List.mem_map_of_mem he, congrArg (byteOffset source) hend⟩

namespace CodeLines

/-- The bytes of the text are in the body, if a line closes the block or none seems to. -/
theorem body_contains (h : CodeLines source bytes texts f body closing)
    (hwhole : closing ≠ [] ∨ f.close = none) {e : Event} (he : e ∈ texts)
    (hpos : e.span.contains pos = true) : (bodyBytes bytes f).contains pos = true := by
  obtain ⟨after, hafter⟩ := h.whole hwhole
  have hlength := congrArg byteLength hafter
  obtain ⟨hfirst, hlast⟩ := h.within e he
  rw [byteLength_append] at hlength
  rw [Span.contains_iff] at hpos ⊢
  simp only [bodyBytes]
  omega

/-- The text ends before the block exactly when something closes the block, or there is no text. -/
theorem stop_lt_iff (h : CodeLines source bytes texts f body closing) :
    (∀ e ∈ texts, e.span.stop < bytes.stop) ↔ closing ≠ [] ∨ texts = [] := by
  constructor
  · intro hbehind
    refine Decidable.or_iff_not_imp_left.2 fun hclosing => ?_
    refine (h.unclosed (Decidable.not_not.1 hclosing)).resolve_right ?_
    rintro ⟨e, he, hend⟩
    exact absurd hend (Nat.ne_of_lt (hbehind e he))
  · rintro (hclosing | rfl)
    · intro e he
      have hstop := stop_eq_of_raw_ne_nil (ne_nil_of_eq_some rfl h.cut)
      have hpos := byteLength_pos hclosing
      obtain ⟨-, hlast⟩ := h.within e he
      rw [h.text, byteLength_append, byteLength_append] at hstop
      omega
    · exact List.forall_mem_nil _

/-- Where nothing closes the block but something seems to, some of the text is hidden. -/
theorem exists_text_hidden (h : CodeLines source bytes texts f body [])
    (hclose : f.close = some run) :
    ∃ e ∈ texts, ∃ pos, e.span.contains pos = true ∧
      Covers source (fencedBlock source bytes) .hide pos := by
  obtain ⟨c, tail, rfl, hc⟩ := exists_cons_of_close h.cut hclose
  have hlines := (raw_eq_opening_append h.cut).trans h.text
  rw [List.append_nil, List.append_cancel_left_eq, FencedCode.lines, hclose] at hlines
  obtain ⟨e, he, hin⟩ := h.fences (f.body ++ f.closeLead) c (tail ++ f.rest)
    (by rw [← hlines]; simp) hc
  rw [byteLength_append, ← Nat.add_assoc] at hin
  exact ⟨e, he, _, hin, fencedBlock_close h.cut hclose (List.cons_ne_nil c tail)⟩

end CodeLines

/-! ### Documents -/

/-- What hides a byte of fenced code is a mark of the code. -/
theorem mem_fencedBlock_of_hides (hoff : options.latexBrackets = false)
    (hsplit : Markdown.readEvents options.dialect source =
      before ++ ⟨.start .fencedCode, bytes⟩ :: rest)
    (hpos : bytes.contains pos = true) {d : Decoration} (hd : d ∈ extract options source)
    (hcovers : d.span.contains (charOffset source pos) = true)
    (hhides : d.kind = .hide ∨ d.kind = .codeBlockLanguage) : d ∈ fencedBlock source bytes := by
  obtain ⟨ds, hds, hextract⟩ := exists_emitAll_readEvents hoff source
  obtain ⟨e, he, hdelimiters, ⟨hstart, hstop⟩, hfence⟩ :=
    hidden_of_mem_emitAll hds ((hextract d).1 hd) hhides
  obtain ⟨span, texts, after, -, hread, rfl, hbefore, hafter⟩ := readEvents_fence hsplit
  have hmem : ⟨.start .fencedCode, bytes⟩ ∈ Markdown.readEvents options.dialect source :=
    hsplit ▸ List.mem_append_right before List.mem_cons_self
  have hend : Boundary source bytes.stop := (aligned_of_mem_readEvents hmem).2
  rw [Span.contains_iff] at hpos hcovers
  simp only [hsplit, List.mem_append, List.mem_cons, List.mem_map] at he
  obtain he | rfl | ⟨text, htext, rfl⟩ | rfl | he := he
  · have hle := charOffset_mono source (Nat.le_trans (hbefore e he hdelimiters) hpos.1)
    exact absurd (Nat.lt_of_lt_of_le hcovers.2 hstop) (Nat.not_lt.2 hle)
  · exact hfence rfl
  · have hkind : text.kind.hidesSyntax = true := hdelimiters
    rw [hread.text text htext] at hkind
    cases hkind
  · cases hdelimiters
  · have hlt := charOffset_lt hend hpos.2
    have hle := charOffset_mono source (hafter e he hdelimiters)
    exact absurd (Nat.le_trans (Nat.le_trans hle hstart) hcovers.1) (Nat.not_le.2 hlt)

theorem mem_extract_of_mem_fencedBlock (hoff : options.latexBrackets = false)
    (hsplit : Markdown.readEvents options.dialect source =
      before ++ ⟨.start .fencedCode, bytes⟩ :: rest) {d : Decoration}
    (hd : d ∈ fencedBlock source bytes) : d ∈ extract options source := by
  obtain ⟨ds, hds, hextract⟩ := exists_emitAll_readEvents hoff source
  rw [hextract, mem_emitAll hds]
  exact ⟨before, _, rest, _, hsplit, rfl, hd⟩

/-- The body of fenced code is drawn as code. -/
theorem body_shownAsCode (hoff : options.latexBrackets = false)
    (hsplit : Markdown.readEvents options.dialect source =
      before ++ ⟨.start .fencedCode, bytes⟩ :: rest)
    (hf : fencedCode? (raw source bytes) = some f)
    (hpos : (bodyBytes bytes f).contains pos = true) :
    ShownAsCode source bytes (extract options source) pos := by
  have hin := contains_of_bodyBytes hf hpos
  obtain ⟨⟨d, hd, hkind, hcovers⟩, honly⟩ := fencedBlock_body hf hpos
  have hplain {kind : Decoration.Kind} (hkind : kind = .hide ∨ kind = .codeBlockLanguage) :
      ¬ Covers source (extract options source) kind pos := by
    rintro ⟨d, hd, rfl, hcovers⟩
    have hcode := honly d (mem_fencedBlock_of_hides hoff hsplit hin hd hcovers hkind) hcovers
    rw [hcode] at hkind
    obtain hkind | hkind := hkind <;> cases hkind
  exact ⟨⟨d, hd, mem_extract_of_mem_fencedBlock hoff hsplit hd, hkind, hcovers⟩,
    hplain (.inl rfl), hplain (.inr rfl)⟩

/-- A byte of a document is marked as quoted when it is one of a quotation's markers. -/
theorem covers_blockquote_iff (hoff : options.latexBrackets = false) :
    Covers source (extract options source) .blockquote pos ↔
      ∃ outer ∈ outermostQuotes 0 (Markdown.readEvents options.dialect source),
        InQuoteMarkers source outer pos := by
  have hmarks (outer : Span) :
      (∃ d ∈ blockquote source outer, d.span.contains (charOffset source pos) = true) ↔
        InQuoteMarkers source outer pos := by
    rw [blockquote_contains_iff_exists]
    simp only [mem_quoteMarkers_iff, InQuoteMarkers]
    constructor
    · rintro ⟨marks, ⟨before, line, after, hline, hmarks⟩, hpos⟩
      exact ⟨before, line, after, marks, hline, hmarks, hpos⟩
    · rintro ⟨before, line, after, marks, hline, hmarks, hpos⟩
      exact ⟨marks, ⟨before, line, after, hline, hmarks⟩, hpos⟩
  constructor
  · rintro ⟨d, hd, hkind, hcovers⟩
    obtain ⟨outer, houter, hd⟩ := (mem_extract_blockquote hoff).1 ⟨hd, hkind⟩
    exact ⟨outer, houter, (hmarks outer).1 ⟨d, hd, hcovers⟩⟩
  · rintro ⟨outer, houter, hpos⟩
    obtain ⟨d, hd, hcovers⟩ := (hmarks outer).2 hpos
    obtain ⟨hd, hkind⟩ := (mem_extract_blockquote hoff).2 ⟨outer, houter, hd⟩
    exact ⟨d, hd, hkind, hcovers⟩

/-- Without bracket math, a fenced code block of a document is closed behind its text. All of the
text is drawn as code, and none of it hidden, exactly when the block ends behind it or its last line
does not look like a closing fence. A byte of the text is marked as quoted exactly when it is one of
the markers that an outermost quotation has at the head of a line. -/
theorem fenced_text_shownAsCode (hoff : options.latexBrackets = false)
    (hsplit : Markdown.readEvents options.dialect source =
      before ++ ⟨.start .fencedCode, bytes⟩ :: rest) :
    ∃ texts after, rest = texts ++ ⟨.stop .fencedCode, bytes⟩ :: after ∧
      (∀ e ∈ texts, e.kind = .text) ∧
      ((∀ e ∈ texts, ∀ pos, e.span.contains pos = true →
          ShownAsCode source bytes (extract options source) pos) ↔
        (∀ e ∈ texts, e.span.stop < bytes.stop) ∨
          ∀ f, fencedCode? (raw source bytes) = some f → f.close = none) ∧
      ∀ e ∈ texts, ∀ pos, e.span.contains pos = true →
        (Covers source (extract options source) .blockquote pos ↔
          ∃ outer ∈ outermostQuotes 0 (Markdown.readEvents options.dialect source),
            InQuoteMarkers source outer pos) := by
  obtain ⟨span, texts, after, rfl, hread, hrest, -⟩ := readEvents_fence hsplit
  obtain ⟨f, body, closing, hcode⟩ := exists_codeLines hread
  refine ⟨_, after, hrest, List.forall_mem_map.2 hread.text, ⟨fun hshown => ?_, fun hend => ?_⟩,
    fun e _ pos _ => covers_blockquote_iff hoff⟩
  · rw [hcode.stop_lt_iff]
    by_cases hclosing : closing = []
    · obtain rfl := hclosing
      refine .inr fun g hg => ?_
      obtain rfl := Option.some.inj (hcode.cut.symm.trans hg)
      cases hclose : f.close with
      | none => rfl
      | some run =>
        obtain ⟨e, he, pos, hpos, d, hd, hkind, hcovers⟩ := hcode.exists_text_hidden hclose
        exact absurd ⟨d, mem_extract_of_mem_fencedBlock hoff hsplit hd, hkind, hcovers⟩
          (hshown e he pos hpos).notHidden
    · exact .inl (.inl hclosing)
  · intro e he pos hpos
    have hwhole : closing ≠ [] ∨ f.close = none := by
      obtain hend | hend := hend
      · obtain hclosing | hnil := hcode.stop_lt_iff.1 hend
        · exact .inl hclosing
        · exact absurd he (hnil ▸ List.not_mem_nil)
      · exact .inr (hend f hcode.cut)
    exact body_shownAsCode hoff hsplit hcode.cut (hcode.body_contains hwhole he hpos)

/-- A quoted block with a line of code that begins with a quote marker, and a fence that closes
it. -/
theorem fenced_text_shownAsCode_quoted :
    let source := "> ```\n> > x\n> ```".toList
    let options : Options := { latexBrackets := false }
    let bytes : Span := ⟨2, 17⟩
    let before : List Event := [⟨.start .blockquote, ⟨0, 17⟩⟩]
    let rest : List Event := [⟨.text, ⟨8, 12⟩⟩, ⟨.stop .fencedCode, bytes⟩,
      ⟨.stop .blockquote, ⟨0, 17⟩⟩]
    options.latexBrackets = false ∧
    Markdown.readEvents options.dialect source = before ++ ⟨.start .fencedCode, bytes⟩ :: rest ∧
    ∃ texts after, rest = texts ++ ⟨.stop .fencedCode, bytes⟩ :: after ∧
      (∀ e ∈ texts, e.kind = .text) ∧
      ((∀ e ∈ texts, ∀ pos, e.span.contains pos = true →
          ShownAsCode source bytes (extract options source) pos) ↔
        (∀ e ∈ texts, e.span.stop < bytes.stop) ∨
          ∀ f, fencedCode? (raw source bytes) = some f → f.close = none) ∧
      ∀ e ∈ texts, ∀ pos, e.span.contains pos = true →
        (Covers source (extract options source) .blockquote pos ↔
          ∃ outer ∈ outermostQuotes 0 (Markdown.readEvents options.dialect source),
            InQuoteMarkers source outer pos) := by
  intro source options bytes before rest
  have hsplit : Markdown.readEvents options.dialect source =
      before ++ ⟨.start .fencedCode, bytes⟩ :: rest := by decide +kernel
  exact ⟨rfl, hsplit, fenced_text_shownAsCode rfl hsplit⟩

/-- The quote marker of that line is code, and yet it is marked as quoted. -/
example :
    let source := "> ```\n> > x\n> ```".toList
    Covers source (extract { latexBrackets := false } source) .blockquote 8 := by
  decide +kernel

/-- Nothing closes this block, and its only line of code is hidden as a fence. -/
theorem fence_like_code_hidden :
    let source := "```\n    ```".toList
    let options : Options := { latexBrackets := false }
    Markdown.readEvents options.dialect source = [⟨.start .fencedCode, ⟨0, 11⟩⟩,
      ⟨.text, ⟨4, 11⟩⟩, ⟨.stop .fencedCode, ⟨0, 11⟩⟩] ∧
    Covers source (extract options source) .hide 8 ∧
    ∀ d ∈ extract options source, d.kind ≠ .codeBlock := by
  decide +kernel

end MarkdownPreview
