import MarkdownPreview.Proofs.Markdown.BlockOrder
import MarkdownPreview.Proofs.Markdown.Places

/-! Where a block is that has been read. It lies between the place where reading began and the one
that the reader gets to; only a fence starts a fenced code block, and only number signs or an
underline make a heading. -/

namespace MarkdownPreview.Markdown

open Text (Span isLineEnding)

variable {source : List Char} {lo : Nat} {here : Cursor}

/-- A block that has been read in the source, from a position to the place that the reader gets to
after it. -/
structure ReadOn (source : List Char) (lo : Nat) (r : Block × Cursor) : Prop where
  block : BlocksIn source lo r.2.pos [r.1]
  place : r.2.On source

/-- A block without delimiters fits in anywhere. -/
theorem Bare.blocksIn {events : List Event} {next : Cursor} (h : Bare events)
    (hnext : ∀ source, here.On source → next.On source) :
    BlocksIn source here.pos next.pos [.plain events] :=
  .bare h (.nil (Cursor.pos_le_of_on hnext))

/-! ### Tables -/

/-- A bar leads no further than to the end of its line. -/
theorem afterBar_on {pos pos' : Nat} {text text' : List Char}
    (hbar : afterBar pos text = (pos', text')) (h : (Cursor.ofLine pos text).On source) :
    (Cursor.ofLine pos' text').On source ∧ pos ≤ pos' ∧
      pos' + lineSize text' ≤ pos + lineSize text := by
  unfold afterBar at hbar
  split at hbar <;> obtain ⟨rfl, rfl⟩ := Prod.mk.inj hbar
  · refine ⟨h.advance 1, Nat.le_succ pos, ?_⟩
    rw [lineSize_cons rfl]
    omega
  · exact ⟨h, Nat.le_refl _, Nat.le_refl _⟩

/-- The cells of a row stand in order, and go no further than their line. -/
theorem readCells_on (place : Place) (fuel pos : Nat) (text : List Char)
    (h : (Cursor.ofLine pos text).On source) :
    (readCells place fuel pos text).2.On source ∧
      BlocksIn source pos (readCells place fuel pos text).2.pos
        ((readCells place fuel pos text).1.map .leaf) ∧
      (readCells place fuel pos text).2.pos ≤ pos + lineSize text := by
  have hwhites (text : List Char) : lineSize text = (text.takeWhile isInlineWhite).length +
      lineSize (text.drop (text.takeWhile isInlineWhite).length) := by
    have htext := (List.prefix_iff_eq_append.1 (List.takeWhile_prefix (l := text) isInlineWhite))
    rw [← lineSize_append fun _ hch => isLineEnding_of_isInlineWhite (List.mem_takeWhile_imp hch),
      htext]
  fun_induction readCells place fuel pos text with
  | case1 => exact ⟨h, .nil (Nat.le_refl _), Nat.le_add_right _ _⟩
  | case2 _ _ _ pos text hcell whites body n hend =>
    obtain ⟨hon, hle, hsize⟩ := afterBar_on hcell h
    have hline := hwhites text
    rw [lineSize_of_lineEnd? hend] at hline
    refine ⟨(hon.advance _).advance _, .nil ?_, ?_⟩
    · simp only [Cursor.ofLine]
      omega
    · simp only [Cursor.ofLine]
      omega
  | case3 _ _ _ pos text hcell whites body hend line cell cells next hread ih =>
    obtain ⟨hon, hle, hsize⟩ := afterBar_on hcell h
    have hline : (Cursor.ofLine line.stop line.rest).On source :=
      readLine_on (hon.advance whites) _ _ _
    obtain ⟨passed, hreads⟩ := readLine_reads place.dialect .cell {} (pos + whites) body
    have hstop : line.stop = pos + whites + passed.length := hreads.stop
    have hcut : lineSize body = passed.length + lineSize line.rest := by
      rw [← lineSize_append (hreads.clean rfl), ← hreads.text]
    have hsplit : lineSize text = whites + lineSize body := hwhites text
    obtain ⟨hnext, hcells, hend⟩ := hread ▸ ih hline
    refine ⟨hnext, .leaf ⟨?_, ⟨hle, Nat.le_refl _⟩, ?_, ?_⟩ hcells, Nat.le_trans hend (by omega)⟩
    · rintro _ ⟨⟩
      exact .inl rfl
    · simp only [cell]
      omega
    · exact (hreads.tokens.mono (by omega) (Nat.le_refl _)).reverse

/-- A row lies where its cells do. Those that are missing are at its end. -/
theorem tableRow_blocksIn (place : Place) (tag : Tag) (htag : (EventKind.start tag).isBare = true)
    (columns : Nat) {start stop : Nat} {cells : List Leaf}
    (h : BlocksIn source start stop (cells.map .leaf)) :
    BlocksIn source start stop [tableRow place tag columns start cells stop] := by
  refine .container htag ?_ (.nil (Nat.le_refl stop))
  rw [List.map_append, List.map_replicate, List.map_take]
  rw [← List.take_append_drop columns (cells.map _)] at h
  refine h.of_append.append (.replicate ?_ _)
  refine .leaf ⟨?_, ⟨Nat.le_refl _, Nat.le_refl _⟩, Nat.le_refl _, .nil⟩ (.nil (Nat.le_refl _))
  rintro _ ⟨⟩
  exact .inl rfl

theorem readRows_on (place : Place) (columns fuel : Nat) (h : here.On source) :
    (readRows place columns fuel here).2.On source ∧ BlocksIn source here.pos
      (readRows place columns fuel here).2.pos (readRows place columns fuel here).1 := by
  fun_induction readRows place columns fuel here with
  | case1 | case2 | case3 => exact ⟨h, .nil (Nat.le_refl _)⟩
  | case4 fuel next inside start hstart c _ cells after _ hcells rows last hrows ih =>
    have hmove {source : List Char} (h : next.On source) : c.On source :=
      (continues_on h hstart).skipAll
    obtain ⟨hafter, hrow, -⟩ := readCells_on place (c.rest.length + 1) c.pos c.rest (hmove h)
    rw [hcells] at hafter hrow
    obtain ⟨hlast, hblocks⟩ := hrows ▸ ih hafter
    have hhead : BlocksIn source next.pos after.pos
        [tableRow place .tableRow columns c.pos cells after.pos] :=
      .of_le (tableRow_blocksIn place .tableRow rfl columns hrow)
        (Cursor.pos_le_of_on fun _ => hmove)
    exact ⟨hlast, hhead.append hblocks⟩

theorem readTable_on (place : Place) (columns : Nat) {header body : Cursor}
    (hheader : header.On source) (hbody : body.On source)
    (hline : header.pos + lineSize header.rest ≤ body.pos) :
    ReadOn source header.pos (readTable place columns header body) := by
  obtain ⟨-, hcells, hend⟩ :=
    readCells_on { place with inTable := true } (header.rest.length + 1) _ _ hheader
  obtain ⟨hnext, hrows⟩ :=
    readRows_on { place with inTable := true } columns (body.rest.length + 1) hbody
  have hhead := tableRow_blocksIn { place with inTable := true } .tableHead rfl columns hcells
  exact ⟨.container rfl ((hhead.mono (Nat.le_trans hend hline)).append hrows)
    (.nil (Nat.le_refl _)), hnext⟩

/-! ### Paragraphs and headings -/

/-- A paragraph has been read from its first line on, and is a heading only by its underline. -/
theorem readParagraphFrom_on (place : Place) (fuel : Nat) {tokens : List Token} (braces : Braces)
    {first : Cursor} (hfirst : first.On source) (hlo : lo ≤ first.pos)
    (h : ∃ text, first.Passes text here) (htokens : TokensIn lo here.pos tokens) :
    ReadOn source lo (readParagraphFrom place first.pos fuel tokens braces here) := by
  have hleaf {tag : Tag} {stop : Nat} {tokens : List Token} (hstop : first.pos ≤ stop)
      (htag : (EventKind.start tag).isBare = true ∨
        tag.isHeading = true ∧ HeadingAt source ⟨first.pos, stop⟩)
      (htokens : TokensIn lo stop tokens) :
      BlocksIn source lo stop [.leaf ⟨some tag, ⟨first.pos, stop⟩, tokens.reverse, place⟩] := by
    refine .leaf ⟨?_, ⟨hlo, Nat.le_refl _⟩, hstop, htokens.reverse⟩ (.nil (Nat.le_refl _))
    rintro _ ⟨⟩
    exact htag
  have hreach {c : Cursor} (h : ∃ text, first.Passes text c) : c.On source ∧ first.pos ≤ c.pos :=
    have ⟨_, h⟩ := h
    ⟨hfirst.of_passes h, h.2 ▸ Nat.le_add_right _ _⟩
  -- the tokens of a line are added to those before
  have hline {here : Cursor} {tokens : List Token} (h : ∃ text, first.Passes text here)
      (htokens : TokensIn lo here.pos tokens) (braces : Braces) :
      let line := readLine place.dialect .text braces here.pos here.rest
      (∃ text, first.Passes text (.ofLine line.stop line.rest)) ∧
        TokensIn lo line.stop (line.tokens ++ tokens) ∧
        TokensIn lo line.stop (line.lineBreak.toList ++ (line.tokens ++ tokens)) := by
    obtain ⟨text, hpasses⟩ := h
    obtain ⟨passed, hreads⟩ := readLine_reads place.dialect .text braces here.pos here.rest
    have hstart : lo ≤ here.pos := Nat.le_trans hlo (hpasses.2 ▸ Nat.le_add_right _ _)
    have hstop := hreads.stop ▸ Nat.le_add_right here.pos passed.length
    have hadded := (hreads.tokens.mono hstart (Nat.le_refl _)).append
      (htokens.mono (Nat.le_refl lo) hstop)
    exact ⟨⟨_, hpasses.trans hreads.passes⟩, hadded,
      (hreads.lineBreak.mono hstart (Nat.le_refl _)).append hadded⟩
  have hskip {next c c' : Cursor} {inside deep : Bool} (h : ∃ text, first.Passes text next)
      (hc : place.continues next = (inside, c)) (hskip : c.skip 4 = (deep, c')) :
      (∃ text, first.Passes text c') ∧ next.pos ≤ c'.pos :=
    have ⟨_, h⟩ := h
    have ⟨_, hpasses, _⟩ :=
      (Place.continues_passesPrefix hc).trans (Cursor.skip_passesPrefix hskip)
    ⟨⟨_, h.trans hpasses⟩, hpasses.2 ▸ Nat.le_add_right _ _⟩
  fun_induction readParagraphFrom place first.pos fuel tokens braces here with
  | case1 =>
    obtain ⟨hon, hle⟩ := hreach h
    exact ⟨hleaf hle (.inl rfl) htokens, hon⟩
  | case2 _ _ _ _ line _ next _ _ hc _ c hdeep heading level n hunderline =>
    obtain ⟨hnext, hadded, -⟩ := hline h htokens _
    obtain ⟨hc, hle⟩ := hskip hnext hc hdeep
    obtain ⟨hon, hstart⟩ := hreach hc
    obtain ⟨text, hpasses⟩ := hc
    simp only [heading] at hunderline
    split at hunderline
    · refine ⟨hleaf (Nat.le_trans hstart (Nat.le_add_right _ _)) (.inr ⟨rfl, ?_⟩) ?_, hon.ofLine _⟩
      · exact headingAt_of_underline hfirst hpasses hunderline
      · exact hadded.mono (Nat.le_refl lo) (Nat.le_trans hle (Nat.le_add_right _ _))
    · cases hunderline
  | case3 | case4 =>
    obtain ⟨hnext, hadded, -⟩ := hline h htokens _
    obtain ⟨hon, hle⟩ := hreach hnext
    exact ⟨hleaf hle (.inl rfl) hadded, hon⟩
  | case5 _ _ _ _ _ _ _ _ _ hc _ start hdeep _ _ _ _ _ ih =>
    obtain ⟨hnext, -, hbroken⟩ := hline h htokens _
    obtain ⟨⟨_, hpasses⟩, hle⟩ := hskip hnext hc hdeep
    have hwhite := passes_takeWhile (fun ch => ch == ' ' || ch == '\t') start
    exact ih ⟨_, hpasses.trans hwhite⟩
      (hbroken.mono (Nat.le_refl lo) (Nat.le_trans hle (hwhite.2 ▸ Nat.le_add_right _ _)))

theorem readParagraph_on (place : Place) {task : Option Token} (h : here.On source)
    (hlo : lo ≤ here.pos) (htask : TokensIn lo here.pos task.toList) :
    ReadOn source lo (readParagraph place task here) := by
  fun_cases readParagraph place task here with
  | case1 line table columns body hbody =>
    simp only [table] at hbody
    split at hbody
    next hcond =>
      simp only [Bool.and_eq_true] at hcond
      have hmove {source : List Char} (h : (Cursor.ofLine line.stop line.rest).On source) :
          body.On source := tableAfter?_on h hbody
      obtain ⟨passed, hreads⟩ := readLine_reads place.dialect .text {} here.pos here.rest
      have hstop : line.stop = here.pos + lineSize here.rest := by
        rw [← hreads.whole hcond.1.2]
        exact hreads.stop
      have hread := readTable_on place columns h (hmove (readLine_on h place.dialect .text {}))
        (hstop ▸ Cursor.pos_le_of_on fun _ => hmove)
      exact ⟨hread.block.of_le hlo, hread.place⟩
    · cases hbody
  | case2 => exact readParagraphFrom_on place _ _ h hlo ⟨[], .refl here⟩ htask

/-- The last token of a heading ends with the text of the heading, which is on the line. -/
theorem endHeadingAt_tokensIn {lo hi stop : Nat} {tokens : List Token}
    (h : TokensIn lo hi tokens) (hstop : stop ≤ hi) :
    TokensIn lo hi (endHeadingAt stop tokens) := by
  cases tokens with
  | nil => exact .nil
  | cons t ts =>
    obtain ⟨ht, hts⟩ := List.forall_mem_cons.1 h
    exact List.forall_mem_cons.2 ⟨⟨ht.1, hstop⟩, hts⟩

theorem readHeading_on (place : Place) {level : Nat} (h : here.On source)
    (hlevel : atxLevel? here.rest = some level) :
    ReadOn source here.pos (readHeading place level here) := by
  have hleaf {text : List Char} {next : Cursor} {tokens : List Token} (htext : OneLine text)
      (hpasses : (here.advance level).Passes text next)
      (htokens : TokensIn here.pos next.pos tokens) :
      ReadOn source here.pos
        (.leaf ⟨some (.heading level), ⟨here.pos, next.pos⟩, tokens.reverse, place⟩, next) := by
    have hle : here.pos ≤ next.pos := hpasses.2 ▸
      Nat.le_trans (Nat.le_add_right _ level) (Nat.le_add_right _ _)
    refine ⟨.leaf ⟨?_, ⟨Nat.le_refl _, Nat.le_refl _⟩, hle, htokens.reverse⟩ (.nil (Nat.le_refl _)),
      (h.advance level).of_passes hpasses⟩
    rintro _ ⟨⟩
    exact .inr ⟨rfl, headingAt_of_signs h hlevel htext hpasses⟩
  fun_cases readHeading place level here with
  | case1 c n hend stop =>
    obtain ⟨ending, htext, rfl, hending⟩ := lineEnd?_eq_some hend
    have hpasses : (here.advance level).Passes ending
        (.ofLine stop (c.rest.drop ending.length)) := ⟨htext, rfl⟩
    exact hleaf ⟨[], ending, rfl, List.forall_mem_nil _, hending⟩ hpasses .nil
  | case2 c _ start line found text tokens =>
    obtain ⟨passed, hreads⟩ := readLine_reads place.dialect .text {} start.pos start.rest
    have hwhite : ∀ ch ∈ c.rest.takeWhile isInlineWhite, isLineEnding ch = false :=
      fun ch hch => isLineEnding_of_isInlineWhite (List.mem_takeWhile_imp hch)
    have hstart : here.pos ≤ start.pos :=
      Nat.le_trans (Nat.le_add_right _ level) (Nat.le_add_right _ _)
    have hfound : TokensIn start.pos line.stop found := by
      simp only [found]
      split
      next span hbreak =>
        have hspan : TokensIn start.pos line.stop line.lineBreak.toList := hreads.lineBreak
        rw [hbreak] at hspan
        split
        · have hlast := List.forall_mem_singleton.1 hspan
          exact List.forall_mem_cons.2 ⟨hlast, hreads.tokens⟩
        · exact hreads.tokens
      · exact hreads.tokens
    have hend : start.pos + headingTextLength text ≤ line.stop := by
      have hlength := headingTextLength_le text
      have hstop : line.stop = start.pos + passed.length := hreads.stop
      simp only [text, List.length_take] at hlength ⊢
      omega
    exact hleaf (hreads.oneLine.append hwhite) ((passes_takeWhile _ c).trans hreads.passes)
      (endHeadingAt_tokensIn (hfound.mono hstart (Nat.le_refl _)) hend)

/-! ### Code and HTML -/

theorem readFenceLines_stop_le (place : Place) (indent : Nat) (f : Fence) (fuel : Nat)
    (here : Cursor) : (readFenceLines place indent f fuel here).2.1 ≤
      (readFenceLines place indent f fuel here).2.2.pos := by
  fun_induction readFenceLines place indent f fuel here with
  | case1 | case2 => exact Nat.le_refl _
  | case3 => exact Nat.le_add_right _ _
  | case4 _ _ _ _ _ _ _ _ _ _ _ _ _ _ _ hread ih => rwa [hread] at ih

theorem readFence_on (place : Place) {indent : Nat} {f : Fence} (h : here.On source)
    (hindent : indent < 4) (hf : fence? here.rest = some f) :
    ReadOn source here.pos (readFence place indent f here) := by
  have hread {span : Span} {texts : List Event}
      (hread : (readFence place indent f here).1 = .plain (wrap .fencedCode span texts)) :
      ReadFenced source span texts := ⟨place, indent, f, here, h, hindent, hf, hread⟩
  simp only [readFence] at hread ⊢
  refine ⟨.fence (Nat.le_refl _) (hread rfl) (.nil ?_), ?_⟩
  · exact readFenceLines_stop_le ..
  · exact readFenceLines_on place indent f _ (h.ofLine (lineLength here.rest))

theorem readCodeLines_text (place : Place) (fuel : Nat) (blank : Bool) (here : Cursor) :
    ∀ line ∈ (readCodeLines place fuel blank here).1, ∀ e ∈ line.1, e.kind = .text := by
  fun_induction readCodeLines place fuel blank here with
  | case1 => exact List.forall_mem_nil _
  | case2 => exact List.forall_mem_singleton.2 fun _ he => (mem_codeText he).1
  | case3 _ _ _ _ _ _ _ _ _ _ _ _ _ _ _ _ hread ih =>
    rw [hread] at ih
    exact List.forall_mem_cons.2 ⟨fun _ he => (mem_codeText he).1, ih⟩

theorem readIndentedCode_bare (place : Place) (here : Cursor) :
    ∃ events, (readIndentedCode place here).1 = .plain events ∧ Bare events := by
  unfold readIndentedCode
  refine ⟨_, rfl, (Bare.of_kind .text rfl rfl fun e he => ?_).tree rfl _⟩
  obtain ⟨line, hline, he⟩ := List.mem_flatMap.1 he
  have hkept := (List.dropWhile_sublist _).mem (List.mem_reverse.1 hline)
  exact readCodeLines_text place _ _ here line (List.mem_reverse.1 hkept) e he

theorem readIndentedCode_on (place : Place) (h : here.On source) :
    BlocksIn source here.pos (readIndentedCode place here).2.2.pos
      [(readIndentedCode place here).1] ∧ (readIndentedCode place here).2.2.On source := by
  have hmove {source : List Char} (h : here.On source) :
      (readIndentedCode place here).2.2.On source :=
    readCodeLines_on place (here.rest.length + 1) false h
  obtain ⟨events, hcode, hbare⟩ := readIndentedCode_bare place here
  exact ⟨hcode ▸ hbare.blocksIn fun _ => hmove, hmove h⟩

theorem readHtmlLines_html (place : Place) (blockEnd : HtmlBlockEnd) (fuel : Nat)
    (here : Cursor) : ∀ e ∈ (readHtmlLines place blockEnd fuel here).1, e.kind = .html := by
  fun_induction readHtmlLines place blockEnd fuel here with
  | case1 => exact List.forall_mem_nil _
  | case2 | case3 => exact List.forall_mem_singleton.2 rfl
  | case4 _ _ _ _ _ _ _ _ _ _ _ _ _ _ hread ih =>
    rw [hread] at ih
    exact List.forall_mem_cons.2 ⟨rfl, ih⟩

theorem readHtml_on (place : Place) (blockEnd : HtmlBlockEnd) (h : here.On source) :
    ReadOn source here.pos (readHtml place blockEnd here) := by
  have hmove {source : List Char} (h : here.On source) :
      (readHtml place blockEnd here).2.On source :=
    readHtmlLines_on place blockEnd (here.rest.length + 1) h
  have hbare : Bare (readHtmlLines place blockEnd (here.rest.length + 1) here).1 :=
    .of_kind .html rfl rfl (readHtmlLines_html place blockEnd _ here)
  exact ⟨(hbare.tree rfl _).blocksIn fun _ => hmove, hmove h⟩

end MarkdownPreview.Markdown
