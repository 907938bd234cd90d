import MarkdownPreview.Proofs.Writer.Fits
import MarkdownPreview.Writer.Basic

/-! Where the decorations of a run come from. Each is given by one of the events, and an event gives
decorations of few kinds; those that own others or are owned are given by code spans and math
only. -/

namespace MarkdownPreview.Writer

open Text Syntax
open Markdown (Event EventKind)

variable {source : List Char} {options : Options} {bytes : Span} {kind : Decoration.Kind}
  {ds : List Decoration}

/-! ### Kinds -/

/-- The kinds that an event gives its decorations. -/
def eventKinds : EventKind → List Decoration.Kind
  | .start .emphasis => [.hide, .italic]
  | .start .strong => [.hide, .bold]
  | .start .strikethrough => [.hide, .strikethrough]
  | .start (.heading level) => .hide :: headingStyles level
  | .start .item => [.listItem]
  | .start .blockquote => [.blockquote]
  | .start .fencedCode => [.hide, .codeBlock, .codeBlockLanguage]
  | .start .indentedCode => [.codeBlock]
  | .stop .link | .stop .image => [.hide, .link, .image]
  | .code => [.code, .transparent]
  | .inlineMath => [.hide, .inlineMath, .mathSymbol]
  | .displayMath => [.hide, .inlineMath, .displayMath, .mathSymbol]
  | .rule => [.horizontalRule]
  | .taskMarker _ => [.checkboxChecked, .checkboxUnchecked]
  | _ => []

/-- All decorations are of the given kinds. -/
def OfKinds (kinds : List Decoration.Kind) (ds : List Decoration) : Prop := ∀ d ∈ ds, d.kind ∈ kinds

variable {kinds : List Decoration.Kind}

theorem ofKinds_nil : OfKinds kinds [] := by simp [OfKinds]

theorem OfKinds.append {es : List Decoration} (hd : OfKinds kinds ds) (he : OfKinds kinds es) :
    OfKinds kinds (ds ++ es) := List.forall_mem_append.2 ⟨hd, he⟩

theorem mark_ofKinds (hk : kind ∈ kinds) : OfKinds kinds (mark source bytes kind) := by
  intro d hd
  obtain ⟨-, rfl⟩ := mem_mark.1 hd
  exact hk

theorem markPieces_ofKinds {pos : Nat} {pieces : List (List Char × List Decoration.Kind)}
    (hk : ∀ p ∈ pieces, ∀ k ∈ p.2, k ∈ kinds) : OfKinds kinds (markPieces source pos pieces) := by
  induction pieces generalizing pos with
  | nil => exact ofKinds_nil
  | cons p rest ih =>
    obtain ⟨hkinds, hrest⟩ := List.forall_mem_cons.1 hk
    refine .append (fun d hd => ?_) (ih hrest)
    obtain ⟨k, hkm, hd⟩ := List.mem_flatMap.1 hd
    exact mark_ofKinds (hkinds k hkm) d hd

theorem surround_ofKinds {content : Span} (hhide : .hide ∈ kinds) (hk : kind ∈ kinds) :
    OfKinds kinds (surround source bytes content kind) :=
  .append (.append (mark_ofKinds hhide) (mark_ofKinds hk)) (mark_ofKinds hhide)

theorem delimited_ofKinds {opening closing : Nat} (hhide : .hide ∈ kinds) (hk : kind ∈ kinds)
    (h : delimited source bytes opening closing kind = .ok ds) : OfKinds kinds ds := by
  simp only [delimited, contentSpan, stepBack] at h
  split at h
  · obtain rfl := Except.ok.inj h
    exact surround_ofKinds hhide hk
  · cases h

theorem emphasis_ofKinds {p : Char → Bool} {most : Nat} (hhide : .hide ∈ kinds) (hk : kind ∈ kinds)
    (h : emphasis source bytes p most kind = .ok ds) : OfKinds kinds ds := by
  rw [emphasis_eq] at h
  obtain rfl := Except.ok.inj h
  split
  · exact mark_ofKinds hk
  · exact surround_ofKinds hhide hk

theorem mathBetween_ofKinds {opening closing : Nat} (hhide : .hide ∈ kinds) (hk : kind ∈ kinds)
    (hsymbol : .mathSymbol ∈ kinds)
    (h : mathBetween source options bytes opening closing kind = .ok ds) : OfKinds kinds ds := by
  rw [mathBetween_eq] at h
  obtain rfl := Except.ok.inj h
  split
  · refine .append (surround_ofKinds hhide hk) fun d hd => ?_
    exact (mathSymbols_inside options _ hd).1 ▸ hsymbol
  · exact ofKinds_nil

theorem codeSpan_ofKinds (h : codeSpan source bytes = .ok ds) :
    OfKinds [.code, .transparent] ds := by
  rw [codeSpan_eq] at h
  obtain rfl := Except.ok.inj h
  split
  · exact mark_ofKinds (by decide)
  · exact .append (.append (mark_ofKinds (by decide)) (mark_ofKinds (by decide)))
      (mark_ofKinds (by decide))

theorem heading_ofKinds (level : Nat) :
    OfKinds (.hide :: headingStyles level) (heading source bytes level) := by
  simp only [heading]
  split
  · split
    · exact ofKinds_nil
    · refine .append (markPieces_ofKinds ?_) (markPieces_ofKinds ?_) <;> simp +contextual [headingStyles]
  · split
    · exact ofKinds_nil
    · refine .append (.append (markPieces_ofKinds ?_) (markPieces_ofKinds ?_))
        (markPieces_ofKinds ?_) <;> simp +contextual [headingStyles]

theorem listItem_ofKinds : OfKinds [.listItem] (listItem source bytes) := by
  simp only [listItem]
  split
  · exact ofKinds_nil
  · exact markPieces_ofKinds (by simp)

theorem taskMarker_ofKinds (checked : Bool) :
    OfKinds [.checkboxChecked, .checkboxUnchecked] (taskMarker source bytes checked) := by
  simp only [taskMarker]
  split
  · exact ofKinds_nil
  · exact markPieces_ofKinds (by cases checked <;> simp)

theorem blockquote_ofKinds : OfKinds [.blockquote] (blockquote source bytes) := by
  intro d hd
  obtain ⟨marker, -, hd⟩ := List.mem_flatMap.1 hd
  exact mark_ofKinds (List.mem_singleton_self _) d hd

theorem fencedBlock_ofKinds :
    OfKinds [.hide, .codeBlock, .codeBlockLanguage] (fencedBlock source bytes) := by
  simp only [fencedBlock]
  split
  · exact mark_ofKinds (by decide)
  · exact markPieces_ofKinds (by simp)

theorem indentedBlock_ofKinds : OfKinds [.codeBlock] (indentedBlock source bytes) :=
  markPieces_ofKinds (by simp)

theorem rule_ofKinds (h : rule source bytes = .ok ds) : OfKinds [.horizontalRule] ds := by
  by_cases hstart : bytes.start ≤ byteLength source
  · rw [rule_eq hstart] at h
    obtain rfl := Except.ok.inj h
    exact mark_ofKinds (List.mem_singleton_self _)
  · rw [rule, if_pos (Nat.not_le.1 hstart)] at h
    cases h

theorem finishLink_ofKinds {f : LinkFrame} (h : finishLink source f = .ok ds) :
    OfKinds [.hide, .link, .image] ds := by
  have hk : (if f.isImage then Decoration.Kind.image else .link) ∈
      [Decoration.Kind.hide, .link, .image] := by
    split <;> decide
  simp only [finishLink] at h
  split at h
  · exact delimited_ofKinds (by decide) hk h
  · split at h
    · simp only [clampOffset] at h
      split at h
      · obtain rfl := Except.ok.inj h
        exact surround_ofKinds (by decide) hk
      · cases h
    · obtain rfl := Except.ok.inj h
      exact mark_ofKinds hk

theorem displayKind_eq (source : List Char) (bytes : Span) :
    displayKind source bytes = .displayMath ∨ displayKind source bytes = .inlineMath := by
  simp only [displayKind]
  split
  · exact .inl rfl
  · exact .inr rfl

/-- An event gives decorations of its own kinds. -/
theorem emit_ofKinds {w : Walk} {e : Event} (h : emit source options w e = .ok ds) :
    OfKinds (eventKinds e.kind) ds := by
  have hlink (h : (w.links.head?.map (finishLink source)).getD (.ok []) = .ok ds) :
      OfKinds [.hide, .link, .image] ds := by
    cases hf : w.links.head? with
    | none =>
      rw [hf] at h
      obtain rfl := Except.ok.inj h
      exact ofKinds_nil
    | some f =>
      rw [hf] at h
      exact finishLink_ofKinds h
  obtain ⟨kind, span⟩ := e
  simp only [emit] at h ⊢
  split at h
  · exact emphasis_ofKinds (by decide) (by decide) h
  · exact emphasis_ofKinds (by decide) (by decide) h
  · exact emphasis_ofKinds (by decide) (by decide) h
  · exact Except.ok.inj h ▸ heading_ofKinds _
  · exact Except.ok.inj h ▸ listItem_ofKinds
  · obtain rfl := Except.ok.inj h
    split
    · exact blockquote_ofKinds
    · exact ofKinds_nil
  · exact Except.ok.inj h ▸ fencedBlock_ofKinds
  · exact Except.ok.inj h ▸ indentedBlock_ofKinds
  · exact hlink h
  · exact hlink h
  · exact codeSpan_ofKinds h
  · exact mathBetween_ofKinds (by decide) (by decide) (by decide) h
  · refine mathBetween_ofKinds (by decide) ?_ (by decide) h
    obtain hk | hk := displayKind_eq source span <;> rw [hk] <;> decide
  · exact rule_ofKinds h
  · exact Except.ok.inj h ▸ taskMarker_ofKinds _
  · exact Except.ok.inj h ▸ ofKinds_nil

/-! ### Kinds outside of ownership -/

/-- The kind owns another one or is owned by one. -/
def inOwnership (k : Decoration.Kind) : Bool := k.isOwner || !k.owners.isEmpty

/-- None of the decorations owns another one or is owned. -/
def Unowned (ds : List Decoration) : Prop := ∀ d ∈ ds, inOwnership d.kind = false

theorem unowned_nil : Unowned [] := by simp [Unowned]

theorem inOwnership_of_line (h : kind.revealScope = .line) : inOwnership kind = false := by
  cases kind <;> first | rfl | cases h

/-- The event stands for code or for math between dollar signs. -/
def isCodeOrMath (e : Event) : Bool :=
  e.kind == .code || e.kind == .inlineMath || e.kind == .displayMath

theorem inOwnership_of_mem_eventKinds {e : Event} (he : isCodeOrMath e = false)
    (hk : kind ∈ eventKinds e.kind) : inOwnership kind = false := by
  simp only [isCodeOrMath, Bool.or_eq_false_iff, beq_eq_false_iff_ne] at he
  obtain ⟨⟨hcode, hinline⟩, hdisplay⟩ := he
  generalize e.kind = event at *
  unfold eventKinds at hk
  split at hk
  case h_4 level =>
    obtain rfl | hk := List.mem_cons.1 hk
    · rfl
    · exact inOwnership_of_line (revealScope_of_mem_headingStyles hk).1
  case h_11 => exact absurd rfl hcode
  case h_12 => exact absurd rfl hinline
  case h_13 => exact absurd rfl hdisplay
  all_goals
    revert kind
    decide

theorem emit_unowned {w : Walk} {e : Event} (he : isCodeOrMath e = false)
    (h : emit source options w e = .ok ds) : Unowned ds :=
  fun d hd => inOwnership_of_mem_eventKinds he (emit_ofKinds h d hd)

/-! ### Runs -/

/-- What a run gives is what its events give, each where the events before it have led. -/
theorem mem_emitAll {events : List Event} {w : Walk} {d : Decoration}
    (h : emitAll source options w events = .ok ds) :
    d ∈ ds ↔ ∃ before e after marks, events = before ++ e :: after ∧
      emit source options (before.foldl Walk.step w) e = .ok marks ∧ d ∈ marks := by
  induction events generalizing w ds with
  | nil =>
    obtain rfl := Except.ok.inj h
    simp
  | cons e rest ih =>
    obtain ⟨now, later, hnow, hlater, rfl⟩ := emitAll_cons_eq_ok_iff.1 h
    rw [List.mem_append, ih hlater]
    constructor
    · rintro (hd | ⟨before, e', after, marks, rfl, hmarks, hd⟩)
      · exact ⟨[], e, rest, now, rfl, hnow, hd⟩
      · exact ⟨e :: before, e', after, marks, rfl, hmarks, hd⟩
    · rintro ⟨before, e', after, marks, hsplit, hmarks, hd⟩
      obtain ⟨rfl, h⟩ | ⟨before, rfl, h⟩ := List.cons_eq_append_iff.1 hsplit
      · obtain ⟨rfl, rfl⟩ := List.cons.inj h
        exact .inl (Except.ok.inj (hmarks.symm.trans hnow) ▸ hd)
      · exact .inr ⟨before, e', after, marks, h, hmarks, hd⟩

end MarkdownPreview.Writer
