import MarkdownPreview.Proofs.Writer.Origin
import MarkdownPreview.Proofs.Writer.Totality

/-! Code spans and math as owners of their markers. Each gives one decoration that owns, and all
markers that it gives lie inside that one. Where code and math between dollar signs do not share
bytes, the constructs are apart, bracket math included, so that a marker lies inside one of them
only; and bracket math takes away neither a marker nor an owner of another construct. -/

namespace MarkdownPreview.Writer

open Text Syntax
open Markdown (Event)

variable {source : List Char} {options : Options} {bytes extent : Span}
  {kind : Decoration.Kind} {marks : List Decoration} {d : Decoration}

/-! ### Owners -/

/-- Every owner in the list covers the extent. Every marker in it that has owners is inside the
extent, which one of these covers. -/
structure OwnedBy (source : List Char) (extent : Span) (marks : List Decoration) : Prop where
  owners : ∀ o ∈ marks, o.kind.isOwner = true → o.span = charSpan source extent
  markers : ∀ d ∈ marks, d.kind.owners ≠ [] → Inside source extent d ∧
    ∃ o ∈ marks, o.kind ∈ d.kind.owners ∧ o.span = charSpan source extent

theorem OwnedBy.of_unowned (h : Unowned marks) : OwnedBy source extent marks := by
  refine ⟨fun d hd hown => ?_, fun d hd hown => ?_⟩
  · simpa [inOwnership, hown] using h d hd
  · simpa [inOwnership, hown] using h d hd

theorem codeSpan_ownedBy (h : codeSpan source bytes = .ok marks) :
    OwnedBy source bytes marks := by
  rw [codeSpan_eq] at h
  obtain rfl := Except.ok.inj h
  have hlen := byteLength_raw_le source bytes
  split
  · refine ⟨fun d hd _ => ?_, fun d hd hown => ?_⟩
    · obtain ⟨-, rfl⟩ := mem_mark.1 hd
      rfl
    · obtain ⟨-, rfl⟩ := mem_mark.1 hd
      exact absurd rfl hown
  next hroom =>
    simp only [not_or, Nat.not_lt, Span.length] at hroom hlen
    refine ⟨fun d hd hown => ?_, fun d hd hown => ?_⟩
    · simp only [List.mem_append, mem_mark] at hd
      rcases hd with (⟨-, rfl⟩ | ⟨-, rfl⟩) | ⟨-, rfl⟩
      · rfl
      · simp +decide at hown
      · simp +decide at hown
    · have hcode : ⟨_, _, .code, none⟩ ∈ mark source bytes .code := mem_mark.2 ⟨by omega, rfl⟩
      simp only [List.mem_append] at hd
      rcases hd with (hd | hd) | hd
      · obtain ⟨-, rfl⟩ := mem_mark.1 hd
        exact absurd rfl hown
      · refine ⟨mark_inside hd (Nat.le_refl _) (by simp only; omega), _,
          List.mem_append_left _ (List.mem_append_left _ hcode), ?_, rfl⟩
        obtain ⟨-, rfl⟩ := mem_mark.1 hd
        exact List.mem_singleton_self _
      · refine ⟨mark_inside hd (by simp only; omega) (Nat.le_refl _), _,
          List.mem_append_left _ (List.mem_append_left _ hcode), ?_, rfl⟩
        obtain ⟨-, rfl⟩ := mem_mark.1 hd
        exact List.mem_singleton_self _

/-- Math is owned by the decoration of its content. -/
theorem surround_mathSymbols_ownedBy (bytes content : Span)
    (hk : kind ∈ Decoration.Kind.mathSymbol.owners) : OwnedBy source content
      (surround source bytes content kind ++ mathSymbols source options content) := by
  have hmath : kind.owners = [] := by
    simp only [Decoration.Kind.owners, List.mem_cons, List.not_mem_nil, or_false] at hk
    rcases hk with rfl | rfl <;> rfl
  refine ⟨fun d hd hown => ?_, fun d hd hown => ?_⟩
  · simp only [surround, List.mem_append, mem_mark] at hd
    rcases hd with ((⟨-, rfl⟩ | ⟨-, rfl⟩) | ⟨-, rfl⟩) | hd
    · simp +decide at hown
    · rfl
    · simp +decide at hown
    · obtain ⟨hsymbol, -⟩ := mathSymbols_inside options content hd
      rw [hsymbol] at hown
      simp +decide at hown
  · rcases List.mem_append.1 hd with hd | hd
    · simp only [surround, List.mem_append, mem_mark] at hd
      rcases hd with (⟨-, rfl⟩ | ⟨-, rfl⟩) | ⟨-, rfl⟩
      · exact absurd rfl hown
      · exact absurd hmath hown
      · exact absurd rfl hown
    · obtain ⟨hsymbol, -, hlt, hin⟩ := mathSymbols_inside options content hd
      -- a symbol inside the content leaves the content not empty
      have hcontent : content.start < content.stop := by
        obtain h | h := Nat.lt_or_ge content.start content.stop
        · exact h
        · have := charOffset_mono source h
          obtain ⟨hstart, hstop⟩ := hin
          omega
      refine ⟨hin, ⟨_, _, kind, none⟩, ?_, hsymbol ▸ hk, rfl⟩
      simp only [surround, List.mem_append]
      exact .inl (.inl (.inr (mem_mark.2 ⟨hcontent, rfl⟩)))

theorem mathBetween_ownedBy {opening closing : Nat}
    (hk : kind ∈ Decoration.Kind.mathSymbol.owners)
    (h : mathBetween source options bytes opening closing kind = .ok marks) :
    OwnedBy source ⟨bytes.start + opening, bytes.stop - closing⟩ marks := by
  rw [mathBetween_eq] at h
  obtain rfl := Except.ok.inj h
  split
  · exact surround_mathSymbols_ownedBy _ _ hk
  · exact .of_unowned unowned_nil

theorem holdsDelimiters_of_mem {opening closing : Nat}
    (h : mathBetween source options bytes opening closing kind = .ok marks) (hd : d ∈ marks) :
    holdsDelimiters bytes opening closing = true := by
  rw [mathBetween_eq] at h
  obtain rfl := Except.ok.inj h
  split at hd
  · assumption
  · simp at hd

/-! ### Events -/

/-- What lies between the dollar signs at the ends of a span. -/
def dollarContent (source : List Char) (bytes : Span) (most : Nat) : Span :=
  ⟨bytes.start + (dollarRuns source bytes most).1, bytes.stop - (dollarRuns source bytes most).2⟩

/-- The span on which the markers of code or math depend: all of a code span, the content of
math. -/
def ownExtent (source : List Char) (e : Event) : Span :=
  match e.kind with
  | .inlineMath => dollarContent source e.span 1
  | .displayMath => dollarContent source e.span 2
  | _ => e.span

theorem displayKind_mem_owners (source : List Char) (bytes : Span) :
    displayKind source bytes ∈ Decoration.Kind.mathSymbol.owners := by
  simp only [displayKind]
  split <;> decide

theorem isCodeOrMath_iff {e : Event} : isCodeOrMath e = true ↔
    e.kind = .code ∨ e.kind = .inlineMath ∨ e.kind = .displayMath := by
  simp [isCodeOrMath, or_assoc]

theorem emit_ownedBy {w : Walk} {e : Event} (h : emit source options w e = .ok marks) :
    OwnedBy source (ownExtent source e) marks := by
  cases he : isCodeOrMath e with
  | false => exact .of_unowned (emit_unowned he h)
  | true =>
    obtain hk | hk | hk := isCodeOrMath_iff.1 he <;> simp only [emit, ownExtent, hk] at h ⊢
    · exact codeSpan_ownedBy h
    · exact mathBetween_ownedBy (by decide) h
    · exact mathBetween_ownedBy (displayKind_mem_owners _ _) h

/-- Math between dollar signs with room for these gives what belongs to its content. -/
theorem dollarMath_of_room {most : Nat}
    (hroom : holdsDelimiters bytes (dollarRuns source bytes most).1
      (dollarRuns source bytes most).2 = true) :
    dollarMath source options bytes most kind =
      .ok (surround source bytes (dollarContent source bytes most) kind ++
        mathSymbols source options (dollarContent source bytes most)) :=
  (mathBetween_eq source options bytes _ _ kind).trans (congrArg _ (if_pos hroom))

/-- An event that gives an owner or a marker rules bracket math out of its span. -/
theorem excludedBy_of_inOwnership {w : Walk} {e : Event}
    (h : emit source options w e = .ok marks) (hd : d ∈ marks)
    (hown : inOwnership d.kind = true) :
    isCodeOrMath e = true ∧ excludedBy source e = some e.span := by
  cases he : isCodeOrMath e with
  | false =>
    have := emit_unowned he h d hd
    simp [hown] at this
  | true =>
    refine ⟨rfl, ?_⟩
    obtain hk | hk | hk := isCodeOrMath_iff.1 he <;> simp only [emit, excludedBy, hk] at h ⊢
    · exact if_pos (holdsDelimiters_of_mem h hd)
    · exact if_pos (holdsDelimiters_of_mem h hd)

/-! ### Constructs -/

/-- What an event of a run or a span of bracket math gives: the span of the source that it takes,
the span on which its markers depend, and its decorations. -/
inductive Construct (source : List Char) (options : Options) (events : List Event)
    (spans : List Span) : Span → Span → List Decoration → Prop
  | event {before after : List Event} {e : Event} {marks : List Decoration}
      (hsplit : events = before ++ e :: after)
      (hmarks : emit source options (before.foldl Walk.step {}) e = .ok marks) :
      Construct source options events spans e.span (ownExtent source e) marks
  | bracket {s : Span} (hs : s ∈ spans) :
      Construct source options events spans s (bracketContent s) (bracketMarks source options s)

variable {events : List Event} {spans : List Span} {home home' extent' : Span}
  {marks' : List Decoration} {d' : Decoration}

theorem Construct.of_event {e : Event} (he : e ∈ events)
    (h : ∀ w, emit source options w e = .ok marks) (hextent : ownExtent source e = extent) :
    Construct source options events spans e.span extent marks := by
  obtain ⟨before, after, hsplit⟩ := List.append_of_mem he
  exact hextent ▸ .event hsplit (h _)

theorem Construct.ownedBy (h : Construct source options events spans home extent marks) :
    OwnedBy source extent marks := by
  cases h with
  | event _ hmarks => exact emit_ownedBy hmarks
  | bracket => exact surround_mathSymbols_ownedBy _ _ (by decide)

theorem ownExtent_within (source : List Char) (e : Event) :
    e.span.start ≤ (ownExtent source e).start ∧ (ownExtent source e).stop ≤ e.span.stop := by
  simp only [ownExtent]
  split
  · exact ⟨Nat.le_add_right _ _, Nat.sub_le _ _⟩
  · exact ⟨Nat.le_add_right _ _, Nat.sub_le _ _⟩
  · exact ⟨Nat.le_refl _, Nat.le_refl _⟩

theorem Construct.extent_within (h : Construct source options events spans home extent marks) :
    home.start ≤ extent.start ∧ extent.stop ≤ home.stop := by
  cases h with
  | event => exact ownExtent_within source _
  | bracket => exact ⟨Nat.le_add_right _ _, Nat.sub_le _ _⟩

/-- The owners and markers of a construct are inside the span that it takes. -/
theorem Construct.inside (h : Construct source options events spans home extent marks)
    (hd : d ∈ marks) (hown : inOwnership d.kind = true) : Inside source home d := by
  have hextent : Inside source extent d := by
    simp only [inOwnership, Bool.or_eq_true, Bool.not_eq_true', List.isEmpty_eq_false_iff] at hown
    obtain hown | hown := hown
    · have hspan := h.ownedBy.owners d hd hown
      have hstart : d.start = charOffset source extent.start := congrArg Span.start hspan
      have hstop : d.stop = charOffset source extent.stop := congrArg Span.stop hspan
      exact ⟨Nat.le_of_eq hstart.symm, Nat.le_of_eq hstop⟩
    · exact (h.ownedBy.markers d hd hown).1
  exact ⟨Nat.le_trans (charOffset_mono source h.extent_within.1) hextent.1,
    Nat.le_trans hextent.2 (charOffset_mono source h.extent_within.2)⟩

/-! ### Constructs side by side -/

/-- The events for code and for math between dollar signs share no bytes. -/
def Exclusive (events : List Event) : Prop :=
  (events.filter isCodeOrMath).Pairwise fun e f => Apart e.span f.span

theorem eq_or_of_pairwise {α : Type} {r : α → α → Prop} (hr : ∀ a b, r a b → r b a) {xs : List α}
    (h : xs.Pairwise r) {a b : α} (ha : a ∈ xs) (hb : b ∈ xs) : a = b ∨ r a b :=
  List.Pairwise.forall_of_forall_of_flip (R := fun a b => a = b ∨ r a b) (fun _ _ => .inl rfl)
    (h.imp fun hab => .inr hab) (h.imp fun hab => .inr (hr _ _ hab)) ha hb

/-- A span of bracket math is apart from every event with an owner or a marker. -/
theorem apart_of_found (hfound : Found source (excludedSpans source events) 0 spans) {e : Event}
    (he : e ∈ events) (hex : excludedBy source e = some e.span) {s : Span} (hs : s ∈ spans) :
    Apart e.span s := by
  intro p
  cases hempty : e.span.isEmpty with
  | true =>
    simp only [Span.contains, Span.isEmpty, Bool.and_eq_true, decide_eq_true_eq] at hempty ⊢
    omega
  | false =>
    have hmem := mem_excludedSpans.2 ⟨⟨e, he, hex⟩, hempty⟩
    have hfree := List.any_eq_false.1 (hfound.free s hs) e.span hmem
    simp only [Span.overlaps, Span.contains, Bool.and_eq_true, decide_eq_true_eq] at hfree ⊢
    omega

/-- Bracket math takes away no owner and no marker that a construct gives. -/
theorem Construct.mem_overlay {given : List Decoration}
    (hgiven : emitAll source options {} events = .ok given)
    (hfound : Found source (excludedSpans source events) 0 spans)
    (h : Construct source options events spans home extent marks) (hd : d ∈ marks)
    (hown : inOwnership d.kind = true) (hlt : d.start < d.stop) :
    d ∈ overlay source options spans given := by
  rw [Writer.mem_overlay options hfound.bracketed hfound.ascending]
  have hin := h.inside hd hown
  cases h with
  | @event before after e _ hsplit hmarks =>
    refine .inl ⟨(mem_emitAll hgiven).2 ⟨before, e, after, marks, hsplit, hmarks, hd⟩, ?_⟩
    obtain ⟨-, hex⟩ := excludedBy_of_inOwnership hmarks hd hown
    exact fun s hs => (apart_of_found hfound (by simp [hsplit]) hex hs).not_inside hlt hin
  | bracket hs => exact .inr ⟨_, hs, hd⟩

theorem Construct.eq_or_apart (hex : Exclusive events)
    (hfound : Found source (excludedSpans source events) 0 spans)
    (h : Construct source options events spans home extent marks) (hd : d ∈ marks)
    (hown : inOwnership d.kind = true)
    (h' : Construct source options events spans home' extent' marks') (hd' : d' ∈ marks')
    (hown' : inOwnership d'.kind = true) : extent = extent' ∨ Apart home home' := by
  cases h with
  | @event _ _ e _ hsplit hmarks =>
    obtain ⟨hmath, hout⟩ := excludedBy_of_inOwnership hmarks hd hown
    have he : e ∈ events := by simp [hsplit]
    cases h' with
    | @event _ _ e' _ hsplit' hmarks' =>
      obtain ⟨hmath', -⟩ := excludedBy_of_inOwnership hmarks' hd' hown'
      have he' : e' ∈ events := by simp [hsplit']
      obtain rfl | hapart := eq_or_of_pairwise (fun _ _ h => h.symm) hex
        (List.mem_filter.2 ⟨he, hmath⟩) (List.mem_filter.2 ⟨he', hmath'⟩)
      · exact .inl rfl
      · exact .inr hapart
    | bracket hs => exact .inr (apart_of_found hfound he hout hs)
  | bracket hs =>
    cases h' with
    | @event _ _ e' _ hsplit' hmarks' =>
      obtain ⟨-, hout'⟩ := excludedBy_of_inOwnership hmarks' hd' hown'
      exact .inr (apart_of_found hfound (by simp [hsplit']) hout' hs).symm
    | bracket hs' =>
      obtain rfl | hapart := eq_or_of_pairwise (r := Apart) (fun _ _ h => h.symm)
        (hfound.ascending.imp apart_of_stop_le) hs hs'
      · exact .inl rfl
      · exact .inr hapart

end MarkdownPreview.Writer
