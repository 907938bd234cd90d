import MarkdownPreview.Proofs.Markdown.InlineLines

/-! Places that the reader gets to. Whatever it moves over, the place it comes to is one of the
source, so that what it finds there is found in the source, and not before the place it came
from. -/

namespace MarkdownPreview.Markdown

variable {source : List Char} {c here : Cursor}

theorem continues_on {place : Place} (h : c.On source) {r : Bool × Cursor}
    (hr : place.continues c = r) : r.2.On source :=
  h.of_passesPrefix (Place.continues_passesPrefix hr)

theorem skip_on {n : Nat} (h : c.On source) {r : Bool × Cursor} (hr : c.skip n = r) :
    r.2.On source := h.of_passesPrefix (Cursor.skip_passesPrefix hr)

theorem skipUpTo_on {n : Nat} (h : c.On source) {r : Nat × Cursor} (hr : c.skipUpTo n = r) :
    r.2.On source := h.of_passesPrefix (Cursor.skipUpTo_passesPrefix hr)

/-- A move that leads to a place of every source from a place of the source leads forward: behind
any other text as long, it would lead into that text. -/
theorem Cursor.pos_le_of_on {next : Cursor} (h : ∀ source, here.On source → next.On source) :
    here.pos ≤ next.pos := by
  have hpadded (ch : Char) : next.rest = (List.replicate here.pos ch ++ here.rest).drop next.pos :=
    h _ (List.drop_left' List.length_replicate).symm
  refine Nat.le_of_not_lt fun hlt => ?_
  have hhead (ch : Char) : next.rest.head? = some ch := by
    rw [hpadded ch, List.head?_drop, List.getElem?_append_left (by simpa using hlt),
      List.getElem?_replicate, if_pos (by omega)]
  exact absurd ((hhead 'a').symm.trans (hhead 'b')) (by decide)

/-! ### Markers -/

theorem itemMarkerEnd_on (h : c.On source) (delimiter : Char) (columns : Nat) :
    (itemMarkerEnd delimiter columns c).2.On source := by
  simp only [itemMarkerEnd]
  split
  · exact h
  · split
    · exact skipUpTo_on h rfl
    · exact h

theorem afterItemMarker?_on (h : c.On source) {delimiter : Char} {columns : Nat}
    {r : ItemMarker × Cursor} (hr : afterItemMarker? delimiter columns c = some r) :
    r.2.On source := by
  simp only [afterItemMarker?] at hr
  split at hr
  · obtain rfl := Option.some.inj hr
    exact itemMarkerEnd_on (skip_on h rfl) _ _
  · simp at hr

theorem itemMarker?_on (h : c.On source) {indent : Nat} {r : ItemMarker × Cursor}
    (hr : c.itemMarker? indent = some r) : r.2.On source := by
  simp only [Cursor.itemMarker?] at hr
  split at hr
  · simp at hr
  · split at hr
    · split at hr
      · simp at hr
      · exact afterItemMarker?_on (h.advance 1) hr
    · split at hr
      · simp at hr
      · split at hr
        · split at hr
          · exact afterItemMarker?_on (h.advance _) hr
          · simp at hr
        · simp at hr

theorem taskBox?_on (h : c.On source) {r : Bool × Cursor} (hr : c.taskBox? = some r) :
    r.2.On source := by
  have hbox := (skipUpTo_on h (n := 3) rfl).advance 3
  simp only [Cursor.taskBox?] at hr
  split at hr
  · split at hr
    · simp at hr
    · split at hr
      · exact Option.some.inj hr ▸ hbox
      · split at hr
        · exact Option.some.inj hr ▸ hbox
        · simp at hr
  · simp at hr

theorem readLine_on (h : c.On source) (d : Dialect) (mode : LineMode) (braces : Braces) :
    (Cursor.ofLine (readLine d mode braces c.pos c.rest).stop
      (readLine d mode braces c.pos c.rest).rest).On source :=
  have ⟨_, hline⟩ := readLine_reads d mode braces c.pos c.rest
  h.of_passes hline.passes

/-! ### Lines of blocks -/

theorem tableAfter?_on {place : Place} {cells : Nat} (h : here.On source) {r : Nat × Cursor}
    (hr : tableAfter? place cells here = some r) : r.2.On source := by
  have hplace : (place.continues here).2.On source := continues_on h rfl
  simp only [tableAfter?] at hr
  split at hr
  · simp at hr
  · split at hr
    · split at hr
      · obtain rfl := Option.some.inj hr
        exact hplace.ofLine _
      · simp at hr
    · simp at hr

theorem readFenceLines_on (place : Place) (indent : Nat) (f : Fence) (fuel : Nat)
    (h : here.On source) : (readFenceLines place indent f fuel here).2.2.On source := by
  fun_induction readFenceLines place indent f fuel here with
  | case1 | case2 => exact h
  | case3 _ _ _ _ hc _ _ _ _ hskip =>
    have hinner := skip_on (continues_on h hc) (n := indent) rfl
    exact ((skip_on hinner hskip).advance _).advance _
  | case4 _ _ _ _ hc _ _ _ _ _ _ _ _ _ _ hread ih =>
    have hinner := skip_on (continues_on h hc) (n := indent) rfl
    have hnext := ih (hinner.advance _)
    rwa [hread] at hnext

theorem readCodeLines_on (place : Place) (fuel : Nat) (blank : Bool) (h : here.On source) :
    (readCodeLines place fuel blank here).2.2.On source := by
  fun_induction readCodeLines place fuel blank here with
  | case1 => exact h
  | case2 => exact h.ofLine _
  | case3 _ _ _ _ _ _ _ _ hc _ _ hskip _ _ _ _ hread ih =>
    have hnext := ih (skip_on (continues_on (h.ofLine _) hc) hskip)
    rwa [hread] at hnext

theorem readHtmlLines_on (place : Place) (blockEnd : HtmlBlockEnd) (fuel : Nat)
    (h : here.On source) : (readHtmlLines place blockEnd fuel here).2.2.On source := by
  fun_induction readHtmlLines place blockEnd fuel here with
  | case1 => exact h
  | case2 | case3 => exact h.ofLine _
  | case4 _ _ _ _ _ _ _ hc _ _ _ _ _ _ hread ih =>
    have hnext := ih (continues_on (h.ofLine _) hc)
    rwa [hread] at hnext

/-! ### Definitions -/

theorem definitionSpace?_on (place : Place) (fuel lineEnds : Nat) (h : c.On source)
    {r : Nat × Cursor} (hr : definitionSpace? place fuel lineEnds c = some r) : r.2.On source := by
  fun_induction definitionSpace? place fuel lineEnds c with
  | case1 | case3 | case5 => simp at hr
  | case2 => exact Option.some.inj hr ▸ h.advance _
  | case4 _ _ _ _ _ _ _ _ hc ih => exact ih (continues_on ((h.advance _).ofLine _) hc) hr

theorem titleEnd?_on (place : Place) (closing : Char) (fuel : Nat) (h : c.On source) {c' : Cursor}
    (hc : titleEnd? place closing fuel c = some c') : c'.On source := by
  fun_induction titleEnd? place closing fuel c with
  | case1 | case2 | case4 | case5 => simp at hc
  | case3 => exact Option.some.inj hc ▸ h.advance 1
  | case6 _ _ _ _ _ _ _ _ _ _ _ hcont _ ih => exact ih (continues_on (h.ofLine _) hcont) hc
  | case7 _ _ _ _ _ _ _ _ _ ih => exact ih (h.advance 2) hc
  | case8 _ _ _ _ _ _ _ _ _ ih => exact ih (h.advance 1) hc

theorem title?_on (place : Place) (h : c.On source) {c' : Cursor}
    (hc : title? place c = some c') : c'.On source := by
  simp only [title?] at hc
  split at hc
  · exact titleEnd?_on place _ _ (h.advance 1) hc
  · exact titleEnd?_on place _ _ (h.advance 1) hc
  · exact titleEnd?_on place _ _ (h.advance 1) hc
  · simp at hc

theorem definitionTarget?_on (place : Place) (h : c.On source) {c' : Cursor}
    (hc : definitionTarget? place c = some c') : c'.On source := by
  simp only [definitionTarget?, Option.bind_eq_bind, Option.bind_eq_some_iff] at hc
  obtain ⟨⟨_, start⟩, hstart, n, -, hc⟩ := hc
  have hbare : (start.advance n).On source := (definitionSpace?_on place _ _ h hstart).advance n
  split at hc
  · simp at hc
  split at hc
  · exact Option.some.inj hc ▸ hbare
  next lineEnds space hspace =>
    split at hc
    · simp at hc
    split at hc
    next after hafter =>
      obtain rfl := Option.some.inj hc
      have ⟨htitle, _⟩ := Option.filter_eq_some_iff.1 hafter
      exact title?_on place (definitionSpace?_on place _ _ hbare hspace) htitle
    · split at hc
      · exact Option.some.inj hc ▸ hbare
      · simp at hc

theorem definition?_on (place : Place) (h : here.On source) {r : List Char × Cursor}
    (hr : definition? place here = some r) : r.2.On source := by
  simp only [definition?] at hr
  split at hr
  · simp only [Option.bind_eq_bind, Option.bind_eq_some_iff] at hr
    obtain ⟨⟨n, label⟩, -, c, hc, next, hnext, hr⟩ := hr
    obtain rfl := Option.some.inj hr
    exact definitionTarget?_on place ((h.advance _).of_passes (Cursor.char?_passes hc)) hnext
  · simp at hr

end MarkdownPreview.Markdown
