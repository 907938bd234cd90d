import MarkdownPreview.Proofs.Markdown.Forest
import MarkdownPreview.Proofs.Writer.Links
import MarkdownPreview.Proofs.Writer.Origin

/-! What a run hides. Hidden text, and the language of fenced code, belongs to the delimiters of
some event and lies within the event's span. A link is the one construct whose decorations come with
its end; its span is known from its start. -/

namespace MarkdownPreview.Writer

open Text Syntax
open Markdown (Event EventKind)

variable {source : List Char} {options : Options} {bytes content : Span}
  {kind : Decoration.Kind} {marks : List Decoration} {d : Decoration} {w : Walk} {e : Event}

/-! ### Pieces in a row -/

theorem markPieces_append (source : List Char) (pos : Nat)
    (ps qs : List (List Char × List Decoration.Kind)) : markPieces source pos (ps ++ qs) =
      markPieces source pos ps ++ markPieces source (pos + byteLength (ps.flatMap (·.1))) qs := by
  induction ps generalizing pos with
  | nil => simp [markPieces]
  | cons p ps ih =>
    obtain ⟨piece, kinds⟩ := p
    rw [List.cons_append, markPieces, markPieces, ih, List.flatMap_cons, byteLength_append,
      List.append_assoc, Nat.add_assoc]

/-- The marks of pieces are between the two ends of the pieces. -/
theorem markPieces_inside {pos : Nat} {ps : List (List Char × List Decoration.Kind)}
    (hd : d ∈ markPieces source pos ps) :
    Inside source ⟨pos, pos + byteLength (ps.flatMap (·.1))⟩ d := by
  induction ps generalizing pos with
  | nil => simp [markPieces] at hd
  | cons p ps ih =>
    obtain ⟨piece, kinds⟩ := p
    rw [List.flatMap_cons, byteLength_append, ← Nat.add_assoc]
    obtain hd | hd := List.mem_append.1 hd
    · exact mark_inside (mem_flatMap_mark.1 hd).2 (Nat.le_refl _) (Nat.le_add_right _ _)
    · obtain ⟨hstart, hstop⟩ := ih hd
      exact ⟨Nat.le_trans (charOffset_mono source (Nat.le_add_right _ _)) hstart, hstop⟩

/-- The marks of pieces of a slice are inside the slice. -/
theorem markPieces_inside_raw (lead : List Char) {ps : List (List Char × List Decoration.Kind)}
    (hraw : lead ++ ps.flatMap (·.1) <+: raw source bytes) (hne : raw source bytes ≠ []) :
    ∀ d ∈ markPieces source (bytes.start + byteLength lead) ps, Inside source bytes d := by
  intro d hd
  obtain ⟨hstart, hstop⟩ := markPieces_inside hd
  obtain ⟨rest, hrest⟩ := hraw
  have hlength := stop_eq_of_raw_ne_nil hne
  rw [← hrest, byteLength_append, byteLength_append] at hlength
  exact ⟨Nat.le_trans (charOffset_mono source (Nat.le_add_right _ _)) hstart,
    Nat.le_trans hstop (charOffset_mono source (by simp only; omega))⟩

/-! ### Delimited text -/

/-- Delimiters for which there is room are inside the span. -/
theorem surround_runs_inside {opening closing : Nat} (hroom : opening + closing ≤ bytes.length)
    (hd : d ∈ surround source bytes ⟨bytes.start + opening, bytes.stop - closing⟩ kind) :
    Inside source bytes d := by
  simp only [surround, List.mem_append] at hd
  simp only [Span.length] at hroom
  rcases hd with (hd | hd) | hd
  all_goals
    have hlt := (mem_mark.1 hd).1
    simp only at hlt
    exact mark_inside hd (by simp only; omega) (by simp only; omega)

theorem emphasis_inside {p : Char → Bool} {most : Nat}
    (h : emphasis source bytes p most kind = .ok marks) (hd : d ∈ marks) :
    Inside source bytes d := by
  rw [emphasis_eq] at h
  obtain rfl := Except.ok.inj h
  split at hd
  · exact mark_inside hd (Nat.le_refl _) (Nat.le_refl _)
  next hroom =>
    have hle := byteLength_raw_le source bytes
    exact surround_runs_inside (by omega) hd

theorem mathBetween_inside {opening closing : Nat}
    (h : mathBetween source options bytes opening closing kind = .ok marks) (hd : d ∈ marks) :
    Inside source bytes d := by
  rw [mathBetween_eq] at h
  obtain rfl := Except.ok.inj h
  split at hd
  next hroom =>
    obtain hd | hd := List.mem_append.1 hd
    · exact surround_runs_inside (of_decide_eq_true hroom) hd
    · obtain ⟨-, -, -, hstart, hstop⟩ := mathSymbols_inside options _ hd
      exact ⟨Nat.le_trans (charOffset_mono source (Nat.le_add_right _ _)) hstart,
        Nat.le_trans hstop (charOffset_mono source (Nat.sub_le _ _))⟩
  · cases hd

theorem finishLink_inside {f : LinkFrame} (h : finishLink source f = .ok marks) (hd : d ∈ marks) :
    Inside source f.span d := by
  rw [finishLink_eq] at h
  obtain rfl := Except.ok.inj h
  split at hd
  next hangle =>
    exact surround_runs_inside (Nat.le_trans hangle.1 (byteLength_raw_le source f.span)) hd
  · split at hd
    next hopener =>
      have hend := (opener_ends hopener).1
      exact surround_inside (Nat.le_add_right _ _) (Nat.le_min.2 ⟨Nat.le_max_right _ _, hend⟩)
        (Nat.min_le_right _ _) hd
    · exact mark_inside hd (Nat.le_refl _) (Nat.le_refl _)

/-! ### Blocks -/

/-- What is found in a text, and in no empty one, is found in a text that is not empty. -/
theorem ne_nil_of_eq_some {α : Type} {found? : List Char → Option α} {text : List Char} {a : α}
    (hnil : found? [] = none) (h : found? text = some a) : text ≠ [] := by
  rintro rfl
  rw [hnil] at h
  cases h

theorem heading_inside {level : Nat} : ∀ d ∈ heading source bytes level, Inside source bytes d := by
  have hfirst {ps : List (List Char × List Decoration.Kind)}
      (hraw : ps.flatMap Prod.fst <+: raw source bytes) (hne : raw source bytes ≠ []) :
      ∀ d ∈ markPieces source bytes.start ps, Inside source bytes d :=
    markPieces_inside_raw [] hraw hne
  simp only [heading]
  split
  · split
    · exact List.forall_mem_nil _
    next u hu =>
      have hne : raw source bytes ≠ [] := ne_nil_of_eq_some rfl hu
      refine List.forall_mem_append.2 ⟨markPieces_inside_raw _ ?_ hne, hfirst ?_ hne⟩
      · exact ⟨u.rest, by rw [← setextHeading?_text hu]; simp [SetextHeading.text]⟩
      · exact ⟨u.gap ++ u.lead ++ u.underline ++ u.rest, by
          rw [← setextHeading?_text hu]; simp [SetextHeading.text]⟩
  · split
    · exact List.forall_mem_nil _
    next a ha =>
      have hne : raw source bytes ≠ [] := ne_nil_of_eq_some rfl ha
      refine List.forall_mem_append.2 ⟨List.forall_mem_append.2
        ⟨hfirst ?_ hne, markPieces_inside_raw _ ?_ hne⟩, markPieces_inside_raw _ ?_ hne⟩
      · exact ⟨a.content ++ a.closing.getD [] ++ a.rest, by
          rw [← atxHeading?_text ha]; simp [AtxHeading.text]⟩
      · exact ⟨a.rest, by rw [← atxHeading?_text ha]; simp [AtxHeading.text]⟩
      · exact ⟨a.closing.getD [] ++ a.rest, by
          rw [← atxHeading?_text ha]; simp [AtxHeading.text]⟩

theorem fencedBlock_inside : ∀ d ∈ fencedBlock source bytes, Inside source bytes d := by
  simp only [fencedBlock]
  split
  · exact fun d hd => mark_inside hd (Nat.le_refl _) (Nat.le_refl _)
  next f hf =>
    have hne : raw source bytes ≠ [] := ne_nil_of_eq_some rfl hf
    refine markPieces_inside_raw [] ⟨f.rest, ?_⟩ hne
    rw [← fencedCode?_text hf]
    simp [FencedCode.text]

/-! ### Events -/

/-- Text is hidden, or is the language of fenced code, by an event with delimiters or the end of a
link. -/
theorem hidesSyntax_of_mem_eventKinds {kind : EventKind} {k : Decoration.Kind}
    (hk : k ∈ eventKinds kind) (hhides : k = .hide ∨ k = .codeBlockLanguage) :
    kind.hidesSyntax = true ∨ kind = .stop .link ∨ kind = .stop .image := by
  unfold eventKinds at hk
  split at hk
  case h_9 => exact .inr (.inl rfl)
  case h_10 => exact .inr (.inr rfl)
  all_goals first
    | exact .inl rfl
    | exact absurd hk (by obtain rfl | rfl := hhides <;> decide)

/-- What an event with delimiters gives is inside its span. -/
theorem emit_inside (h : emit source options w e = .ok marks) (he : e.kind.hidesSyntax = true) :
    ∀ d ∈ marks, Inside source e.span d := by
  obtain ⟨kind, span⟩ := e
  simp only [emit] at h he ⊢
  split at h
  case h_4 => exact Except.ok.inj h ▸ heading_inside
  case h_7 => exact Except.ok.inj h ▸ fencedBlock_inside
  case h_12 | h_13 => exact fun d hd => mathBetween_inside h hd
  case h_1 | h_2 | h_3 => exact fun d hd => emphasis_inside h hd
  case h_16 => exact Except.ok.inj h ▸ List.forall_mem_nil _
  all_goals cases he

/-! ### Runs -/

/-- The event opens the link or image of a frame. -/
def Opens (f : LinkFrame) (e : Event) : Prop :=
  (e.kind = .start .link ∨ e.kind = .start .image) ∧ e.span = f.span

/-- An open link has been open before an event, or the event opens it. -/
theorem Walk.mem_links_step {f : LinkFrame} (hf : f ∈ (w.step e).links) :
    (∃ g ∈ w.links, g.fixed = f.fixed) ∨ Opens f e := by
  have hobserved {f : LinkFrame} (hf : f ∈ (w.observe e).links) :
      ∃ g ∈ w.links, g.fixed = f.fixed :=
    List.mem_map.1 (fixed_observe w e ▸ List.mem_map_of_mem hf)
  simp only [step] at hf
  split at hf
  · exact .inl (hobserved hf)
  next hkind =>
    obtain rfl | hf := List.mem_cons.1 hf
    · exact .inr ⟨.inl hkind, rfl⟩
    · exact .inl (hobserved hf)
  next hkind =>
    obtain rfl | hf := List.mem_cons.1 hf
    · exact .inr ⟨.inr hkind, rfl⟩
    · exact .inl (hobserved hf)
  · exact .inl (hobserved hf)
  · exact .inl (hobserved (List.mem_of_mem_tail hf))
  · exact .inl (hobserved (List.mem_of_mem_tail hf))
  · exact .inl (hobserved hf)

/-- The links that are open have been opened by events. -/
theorem Walk.exists_opens {events : List Event} {f : LinkFrame}
    (hf : f ∈ (events.foldl Walk.step w).links) :
    (∃ g ∈ w.links, g.fixed = f.fixed) ∨ ∃ e ∈ events, Opens f e := by
  induction events generalizing w with
  | nil => exact .inl ⟨f, hf, rfl⟩
  | cons e rest ih =>
    obtain ⟨g, hg, hfixed⟩ | ⟨e', he', hopens⟩ := ih hf
    · obtain ⟨g', hg', hfixed'⟩ | hopens := mem_links_step hg
      · exact .inl ⟨g', hg', hfixed'.trans hfixed⟩
      · exact .inr ⟨e, List.mem_cons_self, hopens.1, hopens.2.trans (congrArg Prod.fst hfixed)⟩
    · exact .inr ⟨e', List.mem_cons_of_mem e he', hopens⟩

/-- What a run hides is inside the span of an event with delimiters. If the event is the start of
fenced code, it is a mark of the code. -/
theorem hidden_of_mem_emitAll {events : List Event} {ds : List Decoration}
    (h : emitAll source options {} events = .ok ds) (hd : d ∈ ds)
    (hhides : d.kind = .hide ∨ d.kind = .codeBlockLanguage) :
    ∃ e ∈ events, e.kind.hidesSyntax = true ∧ Inside source e.span d ∧
      (e.kind = .start .fencedCode → d ∈ fencedBlock source e.span) := by
  obtain ⟨before, e, after, marks, rfl, hmarks, hd⟩ := (mem_emitAll h).1 hd
  have hlink (hstop : e.kind = .stop .link ∨ e.kind = .stop .image) :
      ∃ f ∈ (before.foldl Walk.step {}).links, finishLink source f = .ok marks := by
    have hfirst : ((before.foldl Walk.step {}).links.head?.map (finishLink source)).getD (.ok []) =
        .ok marks := by
      obtain hstop | hstop := hstop <;> simpa only [emit, hstop] using hmarks
    cases hf : (before.foldl Walk.step {}).links.head? with
    | none =>
      rw [hf] at hfirst
      obtain rfl := Except.ok.inj hfirst
      cases hd
    | some f =>
      rw [hf] at hfirst
      exact ⟨f, List.mem_of_head? hf, hfirst⟩
  obtain hkind | hstop := hidesSyntax_of_mem_eventKinds (emit_ofKinds hmarks d hd) hhides
  · refine ⟨e, List.mem_append_right before List.mem_cons_self, hkind,
      emit_inside hmarks hkind d hd, fun hfence => ?_⟩
    simp only [emit, hfence] at hmarks
    exact Except.ok.inj hmarks ▸ hd
  · obtain ⟨f, hf, hfinish⟩ := hlink hstop
    obtain ⟨g, hg, -⟩ | ⟨e', he', hopens, hspan⟩ := Walk.exists_opens hf
    · cases hg
    · refine ⟨e', List.mem_append_left _ he', ?_, hspan ▸ finishLink_inside hfinish hd,
        fun hfence => ?_⟩
      · obtain hopens | hopens := hopens <;> rw [hopens] <;> rfl
      · rw [hfence] at hopens
        obtain hopens | hopens := hopens <;> cases hopens

end MarkdownPreview.Writer
