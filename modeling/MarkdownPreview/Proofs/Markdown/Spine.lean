import MarkdownPreview.Proofs.Markdown.BlockReading

/-! The blocks of a document are in order while it is read. Containers are opened and closed line by
line, and blocks are added to the innermost one, all at the place that the reader has got to; what a
list, an item or a footnote says of its own ends does not matter. -/

namespace MarkdownPreview.Markdown

variable {source : List Char} {pos stop : Nat} {o o' : Outline} {c c' : Cursor}

/-! ### Open containers -/

/-- The blocks up to a position. Quotations are open from their markers on, and what is in a
container stands behind all that the containers around it held when it was opened. -/
inductive Spine (source : List Char) (blocks : List Block) : Nat → List Frame → Prop
  | nil {pos : Nat} (h : BlocksIn source 0 pos blocks.reverse) : Spine source blocks pos []
  | quote {pos : Nat} {f : Frame} {fs : List Frame} (hkind : f.kind = .blockquote)
      (hmarker : source[f.start]? = some '>') (houter : Spine source blocks f.start fs)
      (hcontent : BlocksIn source (f.start + 1) pos f.content.reverse) :
      Spine source blocks pos (f :: fs)
  | other {mid pos : Nat} {f : Frame} {fs : List Frame} (hkind : f.kind ≠ .blockquote)
      (houter : Spine source blocks mid fs) (hcontent : BlocksIn source mid pos f.content.reverse) :
      Spine source blocks pos (f :: fs)

theorem Spine.mono {blocks : List Block} {fs : List Frame} (h : Spine source blocks pos fs)
    (hle : pos ≤ stop) : Spine source blocks stop fs := by
  cases h with
  | nil h => exact .nil (h.mono hle)
  | quote hkind hmarker houter hcontent => exact .quote hkind hmarker houter (hcontent.mono hle)
  | other hkind houter hcontent => exact .other hkind houter (hcontent.mono hle)

theorem FrameKind.isBare_tag {kind : FrameKind} (h : kind ≠ .blockquote) :
    (EventKind.start kind.tag).isBare = true := by
  cases kind with
  | blockquote => exact absurd rfl h
  | _ => rfl

/-- What is known of a document are its blocks up to a position. -/
def Outline.UpTo (source : List Char) (pos : Nat) (o : Outline) : Prop :=
  Spine source o.blocks pos o.spine

namespace Outline.UpTo

theorem mono (h : o.UpTo source pos) (hle : pos ≤ stop) : o.UpTo source stop :=
  Spine.mono h hle

/-- The flags of an outline hold no blocks. -/
theorem flags (h : o.UpTo source pos) (lastBlank : Bool) (emptyItem : Option Nat)
    (definitions : Definitions) :
    UpTo source pos ⟨o.spine, o.blocks, lastBlank, emptyItem, definitions⟩ := h

theorem add {b : Block} (h : o.UpTo source pos) (hb : BlocksIn source pos stop [b]) :
    (o.add b).UpTo source stop := by
  unfold UpTo at *
  simp only [Outline.add]
  split
  next hspine =>
    rw [hspine] at h ⊢
    cases h with
    | nil h => exact .nil (by simpa using h.append hb)
  next f fs hspine =>
    rw [hspine] at h
    cases h with
    | quote hkind hmarker houter hcontent =>
      exact .quote hkind hmarker houter (by simpa using hcontent.append hb)
    | other hkind houter hcontent => exact .other hkind houter (by simpa using hcontent.append hb)

theorem enter {kind : FrameKind} (hkind : kind ≠ .blockquote) (h : o.UpTo source pos)
    (start : Nat) : (o.enter kind start).UpTo source pos :=
  .other hkind h (.nil (Nat.le_refl pos))

theorem enter_blockquote (h : o.UpTo source pos) (hmarker : source[pos]? = some '>') :
    (o.enter .blockquote pos).UpTo source (pos + 1) :=
  .quote rfl hmarker h (.nil (Nat.le_refl _))

/-- A container that is no quotation may say that it ends anywhere. -/
theorem leave_other (h : o.UpTo source pos)
    (hkind : ∀ f ∈ o.spine.head?, f.kind ≠ .blockquote) (stop : Nat) :
    (o.leave stop).UpTo source pos := by
  unfold UpTo at h
  simp only [Outline.leave]
  split
  · exact h
  next f fs hspine =>
    rw [hspine] at h hkind
    cases h with
    | quote hquote => exact absurd hquote (hkind f rfl)
    | @other mid _ _ _ hother houter hcontent =>
      have houter : UpTo source mid { o with spine := fs } := houter
      split
      · exact (houter.add (.container rfl hcontent.asTightItem
          (.nil (Nat.le_refl _)))).flags _ _ _
      · exact houter.add
          (.container (FrameKind.isBare_tag hother) hcontent (.nil (Nat.le_refl _)))

/-- A quotation ends behind all that is in it. -/
theorem leave (h : o.UpTo source pos) (hstop : pos ≤ stop) :
    (o.leave stop).UpTo source stop := by
  by_cases hquote : ∀ f ∈ o.spine.head?, f.kind ≠ .blockquote
  · exact (h.leave_other hquote stop).mono hstop
  · simp only [Option.mem_def, ne_eq, not_forall, not_not] at hquote
    obtain ⟨f, hf, hkind⟩ := hquote
    obtain ⟨fs, hspine⟩ := List.head?_eq_some_iff.1 hf
    unfold UpTo at h
    rw [hspine] at h
    cases h with
    | quote _ hmarker houter hcontent =>
      have houter : UpTo source f.start { o with spine := fs } := houter
      simp only [Outline.leave, hspine, hkind]
      exact houter.add (.quote (Nat.le_refl _) hmarker (hcontent.mono hstop)
        (.nil (Nat.le_refl _)))
    | other hother => exact absurd hkind hother

theorem leaveTo (h : o.UpTo source pos) (n : Nat) :
    (o.leaveTo pos n).UpTo source pos := by
  induction n generalizing o with
  | zero => exact h
  | succ n ih => exact ih (h.leave (Nat.le_refl pos))

theorem endEmptyItem (h : o.UpTo source pos) : o.endEmptyItem.UpTo source pos := by
  simp only [Outline.endEmptyItem]
  refine flags ?_ _ _ _
  split
  next hspine =>
    split
    · exact h.leave_other (by simp [hspine]) _
    · exact h
  · exact h

theorem loosen {f : Frame} {fs : List Frame} {blocks : List Block}
    (h : Spine source blocks pos (f :: fs)) :
    Spine source blocks pos (Outline.Frame.loosen f :: fs) := by
  simp only [Outline.Frame.loosen]
  split
  next delimiter _ hlist =>
    cases h with
    | quote hquote => rw [hlist] at hquote; cases hquote
    | other _ houter hcontent => exact .other (by simp) houter hcontent
  · exact h

/-- What holds of the frames around a container holds of them without it. -/
theorem loosen_outer {f g : Frame} {fs : List Frame} {blocks : List Block}
    (h : Spine source blocks pos (f :: g :: fs)) :
    Spine source blocks pos (f :: Outline.Frame.loosen g :: fs) := by
  cases h with
  | quote hkind hmarker houter hcontent => exact .quote hkind hmarker (loosen houter) hcontent
  | other hkind houter hcontent => exact .other hkind (loosen houter) hcontent

theorem endList (h : o.UpTo source pos) (stop : Nat) :
    (o.endList stop).UpTo source pos := by
  unfold Outline.endList
  extract_lets item left
  have hleft : left.UpTo source pos := by
    simp only [left]
    split
    next hspine =>
      refine h.endEmptyItem.leave_other (fun f (hf : item.spine.head? = some f) => ?_) stop
      rw [hspine] at hf
      obtain rfl := Option.some.inj hf
      simp
    · exact h.endEmptyItem
  split
  · split
    next f g rest hspine =>
      unfold UpTo at hleft
      rw [hspine] at hleft
      exact loosen_outer hleft
    · exact hleft.flags _ _ _
  · exact hleft

theorem enterList (h : o.UpTo source pos) (start : Nat) (delimiter : Char) :
    (o.enterList start delimiter).UpTo source pos := by
  have hfresh {o : Outline} (h : o.UpTo source pos) :
      UpTo source pos { (o.endList start).enter (.list delimiter true) start with
        lastBlank := false } := ((h.endList start).enter (by simp) start).flags _ _ _
  have hend := h.endEmptyItem
  simp only [Outline.enterList]
  split
  next f rest hspine =>
    split
    · split
      · split
        · unfold UpTo at hend
          rw [hspine] at hend
          exact loosen hend
        · exact hend
      · exact hfresh hend
    · exact hfresh hend
  · exact hfresh hend

theorem blankLine (h : o.UpTo source pos) : o.blankLine.UpTo source pos := by
  simp only [Outline.blankLine]
  split
  · exact h.flags _ _ _
  next f rest hspine =>
    split
    · exact h
    next hkind =>
      split
      · unfold UpTo at h
        rw [hspine] at h
        cases h with
        | quote hquote => rw [hkind] at hquote; cases hquote
        | other _ houter hcontent => exact .other (by simp) houter hcontent
      · exact h.flags _ _ _
    · exact h.flags _ _ _

theorem enterFootnote (h : o.UpTo source pos) (label : List Char) (start : Nat) :
    (o.enterFootnote label start).UpTo source pos := by
  simp only [Outline.enterFootnote]
  refine flags (.enter (by simp) ?_ _) _ _ _
  split
  next hspine => exact (h.endList start).leave_other (by simp [hspine]) start
  · exact h.endList start

end Outline.UpTo


/-! ### Lines -/

/-- The reader is at a place of the source, and the blocks so far go up to there. -/
structure Outline.ReadTo (source : List Char) (o : Outline) (c : Cursor) : Prop where
  upTo : o.UpTo source c.pos
  place : c.On source

namespace Outline.ReadTo

theorem move (h : o.ReadTo source c) (hmove : ∀ source, c.On source → c'.On source) :
    o.ReadTo source c' :=
  ⟨h.upTo.mono (Cursor.pos_le_of_on hmove), hmove source h.place⟩

theorem add {r : Block × Cursor} (h : o.ReadTo source c) (hr : ReadOn source c.pos r) :
    (o.add r.1).ReadTo source r.2 := ⟨h.upTo.add hr.block, hr.place⟩

/-- A block that lies nowhere in particular is added where the reader is. -/
theorem add_bare {events : List Event} (h : o.ReadTo source c) (hevents : Bare events) :
    (o.add (.plain events)).ReadTo source c :=
  ⟨h.upTo.add (.bare hevents (.nil (Nat.le_refl _))), h.place⟩

/-- A step that moves nowhere. -/
theorem of_upTo (h : o.ReadTo source c) (hstep : o.UpTo source c.pos → o'.UpTo source c.pos) :
    o'.ReadTo source c := ⟨hstep h.upTo, h.place⟩

/-- A quotation is entered at its marker. -/
theorem enterQuote (h : o.ReadTo source c) (hmarker : c.quoteMarker? = some c') :
    (o.enter .blockquote c.pos).ReadTo source c' := by
  obtain ⟨behind, hbehind, rfl⟩ := Option.map_eq_some_iff.1 hmarker
  have hpasses := Cursor.char?_passes hbehind
  have hsign : source[c.pos]? = some '>' := by
    rw [← List.head?_drop, ← h.place, hpasses.1]
    rfl
  have hentered : (o.enter .blockquote c.pos).ReadTo source behind := by
    refine ⟨?_, h.place.of_passes hpasses⟩
    rw [hpasses.2]
    exact h.upTo.enter_blockquote hsign
  exact hentered.move fun _ h => skip_on h rfl

end Outline.ReadTo

theorem enterItem_readTo (d : Dialect) (h : o.ReadTo source c) (start : Nat) (m : ItemMarker) :
    (enterItem d o start m c).1.ReadTo source
      ((enterItem d o start m c).2.1.getD (enterItem d o start m c).2.2) := by
  have hentered : ((o.enterList start m.delimiter).enter (.item m.columns) start).ReadTo source c :=
    h.of_upTo fun h => (h.enterList start m.delimiter).enter (by simp) start
  have hbox {source : List Char} {r : Bool × Cursor} (h : c.On source)
      (hr : (if d.gfm then c.taskBox? else none) = some r) : r.2.On source := by
    split at hr
    · exact taskBox?_on h hr
    · cases hr
  fun_cases enterItem d o start m c with
  | case1 =>
    refine .of_upTo (hentered.move fun _ h => ?_) (·.flags _ _ _)
    exact h.ofLine _
  | case2 => exact hentered
  | case3 _ _ checked box hr =>
    have hmarker : Bare [⟨.taskMarker checked, ⟨c.pos, box.pos⟩⟩] :=
      .of_kind (.taskMarker checked) rfl rfl (List.forall_mem_singleton.2 rfl)
    exact ((hentered.add_bare hmarker).move fun _ h => (hbox h hr).ofLine _).of_upTo
      (·.flags _ _ _)
  | case4 o _ _ box hr _ token _ _ hread =>
    have hle : c.pos ≤ box.pos := Cursor.pos_le_of_on fun _ h => hbox h hr
    have htoken : TokensIn c.pos box.pos (some token).toList :=
      List.forall_mem_singleton.2 ⟨Nat.le_refl _, Nat.le_refl _⟩
    have hblock := readParagraph_on (o.place d) (hbox h.place hr) hle htoken
    rw [hread] at hblock
    exact hentered.add hblock

/-- The place from which what the start of a line leaves is read. -/
def LineStart.cursor : LineStart → Cursor
  | .block _ here => here
  | .done next => next

theorem enterContainers_readTo (d : Dialect) (fuel : Nat) (lineStart : Nat)
    (h : o.ReadTo source c) : (enterContainers d fuel o lineStart c).1.ReadTo source
      (enterContainers d fuel o lineStart c).2.cursor := by
  fun_induction enterContainers d fuel o lineStart c with
  | case1 | case2 | case7 => exact h
  | case3 _ _ _ _ _ _ hskip _ _ _ _ _ _ _ ih =>
    refine ih ((h.move fun _ h => ?_).of_upTo (·.enterFootnote _ _))
    exact ((skipUpTo_on h hskip).advance _).advance _
  | case4 _ _ _ _ indent inner hskip _ _ m _ hmarker _ _ _ hitem =>
    have hnext := enterItem_readTo d
      (h.move fun _ h => itemMarker?_on (skipUpTo_on h hskip) hmarker) (inner.pos - indent) m
    rwa [hitem] at hnext
  | case5 _ _ _ _ indent inner hskip _ _ m _ hmarker _ _ hitem ih =>
    have hnext := enterItem_readTo d
      (h.move fun _ h => itemMarker?_on (skipUpTo_on h hskip) hmarker) (inner.pos - indent) m
    rw [hitem] at hnext
    exact ih hnext
  | case6 _ _ _ _ _ _ hskip _ _ _ _ hquote _ ih =>
    have hinner := h.move fun _ h => skipUpTo_on h hskip
    exact ih ((hinner.of_upTo (·.endList _)).enterQuote hquote)

theorem readBlock_readTo (d : Dialect) (lineStart : Nat) (h : o.ReadTo source c) :
    (readBlock d o lineStart c).1.ReadTo source (readBlock d o lineStart c).2 := by
  have hinner {n : Nat} {r : Nat × Cursor} (hskip : c.skipUpTo n = r) :
      (o.endList lineStart).ReadTo source r.2 :=
    (h.of_upTo (·.endList lineStart)).move fun _ h => skipUpTo_on h hskip
  fun_cases readBlock d o lineStart c with
  | case1 =>
    refine .of_upTo (h.move fun _ h => ?_) (·.blankLine)
    exact h.ofLine _
  | case2 _ _ place here _ _ _ hcode hskip =>
    obtain ⟨hblock, hnext⟩ := hcode ▸ readIndentedCode_on place (hinner hskip).place
    exact ⟨((hinner hskip).upTo.add hblock).flags _ _ _, hnext⟩
  | case3 _ _ _ _ _ hskip => exact (hinner hskip).add (readHtml_on _ _ (hinner hskip).place)
  | case4 _ _ _ here hskip _ _ _ n =>
    have hrule : Bare [⟨.rule, ⟨here.pos, here.pos + n⟩⟩] :=
      .of_kind .rule rfl rfl (List.forall_mem_singleton.2 rfl)
    exact ((hinner hskip).add_bare hrule).move fun _ h => h.ofLine _
  | case5 _ _ _ _ _ hskip _ _ _ _ _ hlevel =>
    exact (hinner hskip).add (readHeading_on _ (hinner hskip).place hlevel)
  | case6 _ _ _ indent _ hskip hne _ _ _ _ f hf =>
    have hle : indent ≤ 4 := by
      have := c.skipUpTo_fst_le 4
      rwa [hskip] at this
    exact (hinner hskip).add
      (readFence_on _ (hinner hskip).place (Nat.lt_of_le_of_ne hle hne) hf)
  | case7 _ _ _ _ _ hskip _ _ _ _ _ _ _ hdef =>
    exact ((hinner hskip).move fun _ h => (definition?_on _ h hdef).ofLine _).of_upTo
      (·.flags _ _ _)
  | case8 _ _ _ _ _ hskip =>
    exact (hinner hskip).add
      (readParagraph_on _ (hinner hskip).place (Nat.le_refl _) (List.forall_mem_nil _))

theorem readLines_readTo (d : Dialect) {here : Cursor} (h : o.ReadTo source here) :
    (readLines d o here).1.ReadTo source (readLines d o here).2 := by
  have hstart {c : Cursor} {n : Nat} (hc : continueAll o.containers here = (n, c)) :
      (enterContainers d (c.rest.length + 1) (o.leaveTo here.pos (o.spine.length - n)) here.pos
        c).1.ReadTo source (enterContainers d (c.rest.length + 1)
          (o.leaveTo here.pos (o.spine.length - n)) here.pos c).2.cursor := by
    have hleft : (o.leaveTo here.pos (o.spine.length - n)).ReadTo source here :=
      h.of_upTo (·.leaveTo _)
    refine enterContainers_readTo d _ _ (hleft.move fun _ hon => ?_)
    have hnext := hon.of_passesPrefix (continueAll_passesPrefix o.containers here)
    rwa [hc] at hnext
  fun_cases readLines d o here with
  | case1 _ _ hc _ _ _ hdone =>
    have hnext := hstart hc
    rwa [hdone] at hnext
  | case2 _ _ hc _ _ _ _ hblock =>
    have hnext := hstart hc
    rw [hblock] at hnext
    exact readBlock_readTo d _ hnext

theorem readOutlineFrom_upTo (d : Dialect) (fuel : Nat) {here : Cursor} (h : o.ReadTo source here) :
    ∃ pos, (readOutlineFrom d fuel o here).UpTo source pos := by
  fun_induction readOutlineFrom d fuel o here with
  | case1 | case2 => exact ⟨_, h.upTo.leaveTo _⟩
  | case3 _ _ _ _ _ _ hread ih =>
    have hnext := readLines_readTo d h
    rw [hread] at hnext
    exact ih hnext

theorem Spine.blocksIn {blocks : List Block} {fs : List Frame} (h : Spine source blocks pos fs) :
    ∃ stop, BlocksIn source 0 stop blocks.reverse := by
  induction h with
  | nil h => exact ⟨_, h⟩
  | quote _ _ _ _ ih | other _ _ _ ih => exact ih

/-- The blocks of a document are in order. -/
theorem readOutline_blocksIn (d : Dialect) (source : List Char) :
    ∃ stop, BlocksIn source 0 stop (readOutline d source).blocks.reverse := by
  have hstart : Outline.ReadTo source {} (.ofLine 0 source) := ⟨.nil (.nil (Nat.le_refl 0)), rfl⟩
  obtain ⟨_, h⟩ := readOutlineFrom_upTo d (source.length + 1) hstart
  exact h.blocksIn

end MarkdownPreview.Markdown
