import MarkdownPreview.Markdown.Inline
import MarkdownPreview.Proofs.Markdown.InlineLines

/-! Inline text is a forest. Emphasis and links are closed when the events inside them are known,
and those stay together whatever is made of the text around them. No other constructs occur in
inline text; and they lie where its tokens lie, as each begins with a token and ends with a token or
within the text. -/

namespace MarkdownPreview.Markdown

open Text (Span)

variable {lo hi : Nat}

/-! ### Forests of inline text -/

/-- The constructs of inline text. -/
def Tag.isInline : Tag → Bool
  | .emphasis | .strong | .strikethrough | .link | .image => true
  | _ => false

/-- The events are trees whose constructs are those of inline text, inside whatever span. What has
delimiters lies between two positions. -/
def InlineForest (lo hi : Nat) (events : List Event) : Prop :=
  ∀ outer, Forest (fun _ e => (∀ tag, e.kind = .start tag → tag.isInline = true) ∧
    (e.kind.hidesSyntax = true → Between lo hi e.span)) outer events

namespace InlineForest

variable {events rest : List Event} {tag : Tag}

theorem nil : InlineForest lo hi [] := fun _ => .nil

theorem append (h : InlineForest lo hi events) (hrest : InlineForest lo hi rest) :
    InlineForest lo hi (events ++ rest) := fun outer => (h outer).append (hrest outer)

theorem leaf {kind : EventKind} (h : kind.isLeaf = true) {span : Span}
    (hspan : kind.hidesSyntax = true → Between lo hi span) : InlineForest lo hi [⟨kind, span⟩] := by
  refine fun outer => .leaf h ⟨fun tag (htag : kind = .start tag) => ?_, hspan⟩ .nil
  rw [htag] at h
  cases h

theorem text (span : Span) : InlineForest lo hi [⟨.text, span⟩] := leaf rfl nofun

theorem tree (h : InlineForest lo hi events) (htag : tag.isInline = true) {span : Span}
    (hspan : Between lo hi span) : InlineForest lo hi (wrap tag span events) :=
  fun _ => .tree ⟨fun _ h => EventKind.start.inj h ▸ htag, fun _ => hspan⟩ (h span)

end InlineForest

/-! ### Emphasis -/

theorem isInline_emphasisTag (char : Char) (width : Nat) :
    (emphasisTag char width).isInline = true := by
  unfold emphasisTag
  split
  · rfl
  · split <;> rfl

theorem Run.stopAfter_le (r : Run) (n : Nat) : r.stopAfter n ≤ r.span.stop := by
  unfold stopAfter
  split
  · exact Nat.le_refl _
  · exact Nat.min_le_right _ _

theorem enclose_inlineForest {opener closer : Run} (hlo : lo ≤ opener.span.start)
    (hhi : closer.span.stop ≤ hi) {used n : Nat} (hused : used + n ≤ opener.count)
    {content : List Event} (h : InlineForest lo hi content) :
    InlineForest lo hi (enclose opener closer used content n) := by
  have hspan {m : Nat} (hm : m ≤ opener.count) :
      Between lo hi ⟨opener.span.start + opener.count - m, closer.stopAfter m⟩ := by
    refine ⟨?_, Nat.le_trans (closer.stopAfter_le m) hhi⟩
    dsimp only
    omega
  fun_induction enclose opener closer used content n with
  | case1 => exact h
  | case2 => exact h.tree (isInline_emphasisTag _ _) (hspan hused)
  | case3 _ _ _ _ _ ih =>
    refine ih (by omega) (h.tree (isInline_emphasisTag _ _) (hspan (by omega)))

/-- The finished events of a piece are a forest, and a run lies where these do. -/
def Inline.Grown (lo hi : Nat) : Inline → Prop
  | .done events => InlineForest lo hi events
  | .run r => Between lo hi r.span

/-- The same of a piece that has been gone over. What is left of a run may still open something, so
that its start matters. -/
def Inline.Kept (lo hi : Nat) : Inline → Prop
  | .done events => InlineForest lo hi events
  | .run r => lo ≤ r.span.start

namespace Pending

theorem settle_inlineForest {pieces : List Inline} (h : ∀ p ∈ pieces, p.Kept lo hi) :
    InlineForest lo hi (settle pieces) := by
  suffices hfrom : ∀ events, InlineForest lo hi events →
      InlineForest lo hi (pieces.foldl (fun events p =>
        match p with
        | .done es => es ++ events
        | .run r => r.asText ++ events) events) from hfrom [] .nil
  induction pieces with
  | nil => exact fun _ hevents => hevents
  | cons p rest ih =>
    obtain ⟨hp, hrest⟩ := List.forall_mem_cons.1 h
    intro events hevents
    refine ih hrest _ ?_
    cases p with
    | done es => exact hp.append hevents
    | run r => exact (InlineForest.text _).append hevents

theorem find?_kept {r opener : Run} {bar : Nat} {after pieces inside before : List Inline}
    (h : find? r bar after pieces = some (inside, opener, before))
    (hafter : ∀ p ∈ after, p.Kept lo hi) (hpieces : ∀ p ∈ pieces, p.Kept lo hi) :
    (∀ p ∈ inside, p.Kept lo hi) ∧ lo ≤ opener.span.start ∧ ∀ p ∈ before, p.Kept lo hi := by
  have hadd {p : Inline} (hp : p.Kept lo hi) {after : List Inline}
      (h : ∀ p ∈ after, p.Kept lo hi) : ∀ q ∈ after ++ [p], q.Kept lo hi :=
    List.forall_mem_append.2 ⟨h, List.forall_mem_singleton.2 hp⟩
  fun_induction find? r bar after pieces with
  | case1 => cases h
  | case2 after es rest ih =>
    obtain ⟨hes, hrest⟩ := List.forall_mem_cons.1 hpieces
    exact ih h (hadd hes hafter) hrest
  | case3 => cases h
  | case4 =>
    obtain ⟨rfl, rfl, rfl⟩ := Option.some.inj h
    obtain ⟨hopener, hrest⟩ := List.forall_mem_cons.1 hpieces
    exact ⟨hafter, hopener, hrest⟩
  | case5 after opener rest _ _ ih =>
    obtain ⟨hrun, hrest⟩ := List.forall_mem_cons.1 hpieces
    exact ih h (hadd hrun hafter) hrest

theorem close_kept (fuel : Nat) {p : Pending} {r : Run} (h : ∀ q ∈ p.pieces, q.Kept lo hi)
    (hr : Between lo hi r.span) : (∀ q ∈ (close fuel p r).1.pieces, q.Kept lo hi) ∧
      Between lo hi (close fuel p r).2.span := by
  fun_induction close fuel p r with
  | case1 | case2 => exact ⟨h, hr⟩
  | case3 => split <;> exact ⟨h, hr⟩
  | case4 _ p r _ after opener before hfind n enclosed left before' ih =>
    obtain ⟨hinside, hopener, hbefore⟩ := find?_kept hfind (List.forall_mem_nil _) h
    have hleft : ∀ q ∈ before', q.Kept lo hi := by
      simp only [before']
      split
      · exact hbefore
      · exact List.forall_mem_cons.2 ⟨hopener, hbefore⟩
    have hcount : 0 + n ≤ opener.count := by
      rw [Nat.zero_add]
      exact Nat.min_le_right _ _
    have henclosed : InlineForest lo hi enclosed :=
      enclose_inlineForest hopener hr.2 hcount (settle_inlineForest hinside)
    exact ih (List.forall_mem_cons.2 ⟨henclosed, hleft⟩)
      ⟨Nat.le_trans hr.1 (Nat.le_add_right _ _), hr.2⟩

theorem push_kept {p : Pending} {i : Inline} (h : ∀ q ∈ p.pieces, q.Kept lo hi)
    (hpiece : i.Grown lo hi) : ∀ q ∈ (p.push i).pieces, q.Kept lo hi := by
  have hclosed {r r' : Run} {p' : Pending} (hr : Between lo hi r.span)
      (hclose : (if r.canClose then close (r.count + 1) p r else (p, r)) = (p', r')) :
      (∀ q ∈ p'.pieces, q.Kept lo hi) ∧ Between lo hi r'.span := by
    split at hclose
    · have hkept := close_kept (r.count + 1) h hr
      rwa [hclose] at hkept
    · obtain ⟨rfl, rfl⟩ := Prod.mk.inj hclose
      exact ⟨h, hr⟩
  fun_cases push p i with
  | case1 => exact List.forall_mem_cons.2 ⟨hpiece, h⟩
  | case2 _ _ _ hclose => exact (hclosed hpiece hclose).1
  | case3 _ _ _ hclose =>
    obtain ⟨hkept, hr⟩ := hclosed hpiece hclose
    exact List.forall_mem_cons.2 ⟨hr.1, hkept⟩
  | case4 _ _ _ hclose =>
    exact List.forall_mem_cons.2 ⟨InlineForest.text _, (hclosed hpiece hclose).1⟩

end Pending

theorem emphasise_inlineForest {pieces : List Inline} (h : ∀ p ∈ pieces, p.Grown lo hi) :
    InlineForest lo hi (emphasise pieces) := by
  suffices hfrom : ∀ p : Pending, (∀ q ∈ p.pieces, q.Kept lo hi) →
      ∀ q ∈ (pieces.foldl Pending.push p).pieces, q.Kept lo hi from
    Pending.settle_inlineForest (hfrom {} (List.forall_mem_nil _))
  induction pieces with
  | nil => exact fun _ hp => hp
  | cons i rest ih =>
    obtain ⟨hpiece, hrest⟩ := List.forall_mem_cons.1 h
    exact fun p hp => ih hrest _ (Pending.push_kept hp hpiece)

/-! ### Brackets -/

/-- The finished events of a piece are a forest. An open bracket has none, and begins behind the
lower end. -/
def Piece.Grown (lo hi : Nat) : Piece → Prop
  | .inline i => i.Grown lo hi
  | .bracket b => lo ≤ b.span.start

theorem textPiece_grown (span : Span) : (textPiece span).Grown lo hi := InlineForest.text span

theorem asInline_grown {p : Piece} (h : p.Grown lo hi) : p.asInline.Grown lo hi := by
  cases p with
  | inline i => exact h
  | bracket b => exact InlineForest.text b.span

theorem disable_grown {p : Piece} (h : p.Grown lo hi) : p.disable.Grown lo hi := by
  cases p with
  | inline i => exact h
  | bracket b => exact h

theorem openBracket?_grown {inside inside' : List Inline} {pieces before : List Piece} {b : Bracket}
    (h : openBracket? inside pieces = some (inside', b, before))
    (hinside : ∀ i ∈ inside, i.Grown lo hi) (hpieces : ∀ p ∈ pieces, p.Grown lo hi) :
    (∀ i ∈ inside', i.Grown lo hi) ∧ lo ≤ b.span.start ∧ ∀ p ∈ before, p.Grown lo hi := by
  fun_induction openBracket? inside pieces with
  | case1 => cases h
  | case2 inside i rest ih =>
    obtain ⟨hpiece, hrest⟩ := List.forall_mem_cons.1 hpieces
    exact ih h (List.forall_mem_cons.2 ⟨hpiece, hinside⟩) hrest
  | case3 =>
    obtain ⟨rfl, rfl, rfl⟩ := Option.some.inj h
    obtain ⟨hb, hrest⟩ := List.forall_mem_cons.1 hpieces
    exact ⟨hinside, hb, hrest⟩

namespace Closed

/-- All events inside and before the bracket are forests, and the brackets stand between the two
positions. -/
structure Grown (lo hi : Nat) (c : Closed) : Prop where
  inside : ∀ i ∈ c.inside, i.Grown lo hi
  before : ∀ p ∈ c.before, p.Grown lo hi
  opener : lo ≤ c.bracket.span.start
  close : c.close.stop ≤ hi

variable {c : Closed}

theorem Grown.asText (h : c.Grown lo hi) : ∀ p ∈ c.asText, p.Grown lo hi := by
  have hinside : ∀ p ∈ c.inside.reverse.map Piece.inline, p.Grown lo hi := by
    intro p hp
    obtain ⟨i, hmem, rfl⟩ := List.mem_map.1 hp
    exact h.inside i (List.mem_reverse.1 hmem)
  have hbefore : ∀ p ∈ textPiece c.bracket.span :: c.before, p.Grown lo hi :=
    List.forall_mem_cons.2 ⟨textPiece_grown _, h.before⟩
  exact List.forall_mem_append.2
    ⟨List.forall_mem_cons.2 ⟨textPiece_grown _, hinside⟩, hbefore⟩

theorem Grown.link (h : c.Grown lo hi) {stop : Nat} (hstop : stop ≤ hi) :
    ∀ p ∈ c.link stop, p.Grown lo hi := by
  have hevents := emphasise_inlineForest h.inside
  refine List.forall_mem_cons.2 ⟨hevents.tree ?_ ⟨h.opener, hstop⟩, ?_⟩
  · split <;> rfl
  · split
    · exact h.before
    · intro p hp
      obtain ⟨q, hq, rfl⟩ := List.mem_map.1 hp
      exact disable_grown (h.before q hq)

theorem Grown.footnote (h : c.Grown lo hi) : ∀ p ∈ c.footnote, p.Grown lo hi := by
  have hbefore : ∀ p ∈ c.before.map (Piece.inline ·.asInline), p.Grown lo hi := by
    intro p hp
    obtain ⟨q, hq, rfl⟩ := List.mem_map.1 hp
    exact asInline_grown (h.before q hq)
  unfold Closed.footnote
  dsimp only
  split
  · exact List.forall_mem_cons.2 ⟨InlineForest.leaf rfl nofun,
      List.forall_mem_cons.2 ⟨textPiece_grown _, hbefore⟩⟩
  · exact List.forall_mem_cons.2 ⟨InlineForest.leaf rfl nofun, hbefore⟩

end Closed

/-! ### Tokens -/

/-- The pieces are forests, and the tokens that are left lie between the two positions. -/
structure Resolved (lo hi : Nat) (r : List Piece × List Token) : Prop where
  pieces : ∀ p ∈ r.1, p.Grown lo hi
  tokens : TokensIn lo hi r.2

theorem TokensIn.of_suffix {tokens rest : List Token} (h : TokensIn lo hi tokens)
    (hrest : rest <:+ tokens) : TokensIn lo hi rest := fun t ht => h t (hrest.subset ht)

/-- A token that is cut is cut at its start. -/
theorem TokensIn.tokensAfter {tokens : List Token} (h : TokensIn lo hi tokens) (pos : Nat) :
    TokensIn lo hi (tokensAfter pos tokens) := by
  unfold Markdown.tokensAfter
  split
  · exact .nil
  next t rest hdrop =>
    have hsuffix : t :: rest <:+ tokens := hdrop ▸ List.dropWhile_suffix _
    obtain ⟨ht, hrest⟩ := List.forall_mem_cons.1 (h.of_suffix hsuffix)
    exact List.forall_mem_cons.2 ⟨⟨Nat.le_trans ht.1 (Nat.le_max_left _ _), ht.2⟩, hrest⟩

/-- A label ends with a token at the earliest. -/
theorem endLabel?_tokensIn {stop : Nat} {tokens barred after : List Token}
    (h : endLabel? stop tokens = some (barred, after)) (htokens : TokensIn lo hi tokens) :
    stop ≤ hi ∧ TokensIn lo hi barred ∧ TokensIn lo hi after := by
  fun_induction endLabel? stop tokens generalizing barred after with
  | case1 => cases h
  | case2 t rest _ ih =>
    obtain ⟨ht, hrest⟩ := List.forall_mem_cons.1 htokens
    obtain ⟨⟨barred, after⟩, hfound, hresult⟩ := Option.map_eq_some_iff.1 h
    obtain ⟨rfl, rfl⟩ := Prod.mk.inj hresult
    obtain ⟨hstop, hbarred, hafter⟩ := ih hfound hrest
    exact ⟨hstop, List.forall_mem_cons.2 ⟨ht, hbarred⟩, hafter⟩
  | case3 t rest hlast =>
    obtain ⟨ht, hrest⟩ := List.forall_mem_cons.1 htokens
    obtain ⟨rfl, rfl⟩ := Prod.mk.inj (Option.some.inj h)
    exact ⟨Nat.le_trans (Nat.not_lt.1 hlast) ht.2, List.forall_mem_cons.2 ⟨ht, hrest⟩, hrest⟩

/-! ### Ends of links -/

/-- What is read at the head of the rest of a passage ends within the passage. -/
theorem Passage.add_le_of_after {p : Passage} {pos n : Nat} (hpos : 0 < n)
    (hn : n ≤ (p.after pos).length) : pos + n ≤ p.start + p.text.length := by
  rw [Passage.after, List.length_drop] at hn
  omega

theorem inlineTarget?_le {p : Passage} {tokens : List Token} {pos stop : Nat}
    (h : inlineTarget? p tokens pos = some stop) : stop ≤ p.start + p.text.length := by
  unfold inlineTarget? at h
  split at h
  · simp only [Option.bind_eq_bind, Option.bind_eq_some_iff] at h
    obtain ⟨n, -, h⟩ := h
    obtain ⟨hclose, hstop⟩ := Option.ite_none_right_eq_some.1 h
    obtain ⟨after, hafter⟩ := List.head?_eq_some_iff.1 hclose
    refine Option.some.inj hstop ▸ Passage.add_le_of_after Nat.one_pos ?_
    rw [hafter]
    exact Nat.succ_le_succ (Nat.zero_le _)
  · cases h

theorem length_takeWhile_add_lt {p : Char → Bool} {text rest : List Char} {c : Char}
    (h : text.drop (text.takeWhile p).length = c :: rest) :
    (text.takeWhile p).length + rest.length + 1 = text.length := by
  have hlength := congrArg List.length h
  have hle := (List.takeWhile_prefix (l := text) p).length_le
  rw [List.length_drop, List.length_cons] at hlength
  omega

theorem uriAutolink?_le {text : List Char} {n : Nat} (h : uriAutolink? text = some n) :
    0 < n ∧ n ≤ text.length := by
  unfold uriAutolink? at h
  split at h
  · cases h
  dsimp only at h
  split at h
  · cases h
  split at h
  next rest hscheme =>
    split at h
    next hbody =>
      obtain rfl := Option.some.inj h
      have hscheme := length_takeWhile_add_lt hscheme
      have hbody := length_takeWhile_add_lt hbody
      omega
    · cases h
  · cases h

theorem mailDomain?_le {fuel n stop : Nat} {text : List Char}
    (h : mailDomain? fuel n text = some stop) : n < stop ∧ stop ≤ n + text.length := by
  fun_induction mailDomain? fuel n text with
  | case1 | case2 => cases h
  | case3 _ n text label _ rest hdot ih =>
    have hlength := length_takeWhile_add_lt hdot
    have hrest := ih h
    simp only [label] at *
    omega
  | case4 _ n text label _ _ hend =>
    obtain rfl := Option.some.inj h
    have hlength := length_takeWhile_add_lt hend
    simp only [label] at *
    omega
  | case5 => cases h

/-- An autolink is a part of the text at whose head it stands. -/
theorem autolink?_le {text : List Char} {n : Nat} (h : autolink? text = some n) :
    0 < n ∧ n ≤ text.length := by
  unfold autolink? at h
  split at h
  next huri => exact Option.some.inj h ▸ uriAutolink?_le huri
  · unfold mailAutolink? at h
    dsimp only at h
    split at h
    next rest hat =>
      split at h
      · cases h
      · have hmail := mailDomain?_le h
        have hlength := length_takeWhile_add_lt hat
        omega
    · cases h

namespace Closed.Grown

variable {c : Closed} {p : Passage} {rest after : List Token}

theorem resolved_text (h : c.Grown lo hi) (hrest : TokensIn lo hi rest) :
    Resolved lo hi (c.asText, rest) := ⟨h.asText, hrest⟩

theorem reference (h : c.Grown lo hi) (p : Passage) (hrest : TokensIn lo hi rest)
    (hafter : TokensIn lo hi after) : Resolved lo hi (c.reference p rest after) := by
  fun_cases Closed.reference c p rest after with
  | case1 => exact ⟨h.link h.close, hafter⟩
  | case3 => exact ⟨h.footnote, hrest⟩
  | case2 | case4 | case5 => exact h.resolved_text hrest

theorem resolve (h : c.Grown lo hi) (hp : p.start + p.text.length ≤ hi) (mayRefer : Bool)
    (hrest : TokensIn lo hi rest) : Resolved lo hi (c.resolve p mayRefer rest) := by
  unfold Closed.resolve
  split
  · exact h.resolved_text hrest
  split
  next htarget => exact ⟨h.link (Nat.le_trans (inlineTarget?_le htarget) hp), hrest.tokensAfter _⟩
  split
  · split
    · exact h.resolved_text hrest
    next hlabel =>
      obtain ⟨hstop, hbarred, hafter⟩ := endLabel?_tokensIn hlabel hrest
      split
      · exact ⟨h.link hstop, hafter⟩
      · exact h.resolved_text hbarred
  · split
    · exact h.reference p hrest (hrest.of_suffix (List.drop_suffix 2 rest))
    · exact h.resolved_text hrest
  · split
    · exact h.reference p hrest hrest
    · exact h.resolved_text hrest

end Closed.Grown

/-! ### Resolving tokens -/

theorem closingBackticks?_tokensIn {n stop : Nat} {tokens rest : List Token}
    (h : closingBackticks? n tokens = some (stop, rest)) (htokens : TokensIn lo hi tokens) :
    TokensIn lo hi rest := by
  fun_induction closingBackticks? n tokens with
  | case1 => cases h
  | case2 =>
    obtain ⟨-, rfl⟩ := Prod.mk.inj (Option.some.inj h)
    exact (List.forall_mem_cons.1 htokens).2
  | case3 _ _ _ _ _ _ ih | case4 _ _ _ ih => exact ih h (List.forall_mem_cons.1 htokens).2

/-- Math ends with a token. -/
theorem closingDollar?_tokensIn {display : Bool} {braces stop : Nat} {tokens rest : List Token}
    (h : closingDollar? display braces tokens = some (stop, rest))
    (htokens : TokensIn lo hi tokens) : stop ≤ hi ∧ TokensIn lo hi rest := by
  fun_induction closingDollar? display braces tokens with
  | case1 | case4 | case6 => cases h
  | case2 _ _ _ _ _ _ _ ih | case7 _ _ _ ih => exact ih h (List.forall_mem_cons.1 htokens).2
  | case3 =>
    obtain ⟨rfl, rfl⟩ := Prod.mk.inj (Option.some.inj h)
    obtain ⟨hdollar, hrest⟩ := List.forall_mem_cons.1 (List.forall_mem_cons.1 htokens).2
    exact ⟨hdollar.2, hrest⟩
  | case5 =>
    obtain ⟨rfl, rfl⟩ := Prod.mk.inj (Option.some.inj h)
    obtain ⟨hdollar, hrest⟩ := List.forall_mem_cons.1 htokens
    exact ⟨hdollar.2, hrest⟩

/-- What opens at a token is a forest, and the tokens behind it lie between the two positions. -/
def Opens (lo hi : Nat) (found : Option (List Event × List Token)) : Prop :=
  ∀ events rest, found = some (events, rest) → InlineForest lo hi events ∧ TokensIn lo hi rest

variable {t : Token} {rest : List Token} {pieces : List Piece} {p : Passage}

theorem codeSpan?_opens (t : Token) (count : Nat) (escaped : Bool) (hrest : TokensIn lo hi rest) :
    Opens lo hi (codeSpan? t count escaped rest) := by
  have hcode (span : Span) : InlineForest lo hi [⟨.code, span⟩] := .leaf rfl nofun
  intro events after h
  unfold codeSpan? at h
  split at h
  · split at h
    · cases h
    · obtain ⟨⟨stop, after⟩, hclosing, hevents⟩ := Option.map_eq_some_iff.1 h
      obtain ⟨rfl, rfl⟩ := Prod.mk.inj hevents
      exact ⟨(InlineForest.text _).append (hcode _), closingBackticks?_tokensIn hclosing hrest⟩
  · obtain ⟨⟨stop, after⟩, hclosing, hevents⟩ := Option.map_eq_some_iff.1 h
    obtain ⟨rfl, rfl⟩ := Prod.mk.inj hevents
    exact ⟨hcode _, closingBackticks?_tokensIn hclosing hrest⟩

theorem math?_opens (ht : Between lo hi t.span) (braces : Nat) (hrest : TokensIn lo hi rest) :
    Opens lo hi (math? t braces rest) := by
  have hmath {kind : EventKind} (hkind : kind.isLeaf = true)
      {closing : Option (Nat × List Token)} (hclosing : ∀ stop after, closing = some (stop, after) →
        stop ≤ hi ∧ TokensIn lo hi after) :
      Opens lo hi (closing.map fun r => ([⟨kind, ⟨t.span.start, r.1⟩⟩], r.2)) := by
    intro events after h
    obtain ⟨⟨stop, after⟩, hfound, hevents⟩ := Option.map_eq_some_iff.1 h
    obtain ⟨rfl, rfl⟩ := Prod.mk.inj hevents
    obtain ⟨hstop, hafter⟩ := hclosing _ _ hfound
    exact ⟨.leaf hkind fun _ => ⟨ht.1, hstop⟩, hafter⟩
  unfold math?
  split
  next hclosing =>
    split at hclosing
    · obtain ⟨rfl, rfl⟩ := Prod.mk.inj hclosing
      exact hmath rfl fun _ _ h => closingDollar?_tokensIn h (List.forall_mem_cons.1 hrest).2
    · obtain ⟨rfl, rfl⟩ := Prod.mk.inj hclosing
      exact hmath rfl fun _ _ h => closingDollar?_tokensIn h hrest

theorem angled?_opens (hp : p.start + p.text.length ≤ hi) (ht : Between lo hi t.span)
    (hrest : TokensIn lo hi rest) : Opens lo hi (angled? p t rest) := by
  intro events after h
  unfold angled? at h
  split at h
  · cases h
  · dsimp only at h
    split at h
    next next _ _ n hlink =>
      obtain ⟨rfl, rfl⟩ := Prod.mk.inj (Option.some.inj h)
      obtain ⟨hpos, hn⟩ := autolink?_le hlink
      have hstop : next.span.start + n ≤ hi := Nat.le_trans (Passage.add_le_of_after hpos hn) hp
      exact ⟨(InlineForest.text _).tree rfl ⟨ht.1, hstop⟩, hrest.tokensAfter _⟩
    · obtain ⟨_, -, hevents⟩ := Option.map_eq_some_iff.1 h
      obtain ⟨rfl, rfl⟩ := Prod.mk.inj hevents
      exact ⟨.leaf rfl nofun, hrest.tokensAfter _⟩

theorem orText_resolved (t : Token) (h : Resolved lo hi (pieces, rest))
    {found : Option (List Event × List Token)} (hfound : Opens lo hi found) :
    Resolved lo hi (orText t pieces rest found) := by
  cases found with
  | none => exact ⟨List.forall_mem_cons.2 ⟨textPiece_grown _, h.pieces⟩, h.tokens⟩
  | some r =>
    obtain ⟨hevents, hafter⟩ := hfound r.1 r.2 rfl
    exact ⟨List.forall_mem_cons.2 ⟨hevents, h.pieces⟩, hafter⟩

theorem resolveToken_resolved (hp : p.start + p.text.length ≤ hi) (ht : Between lo hi t.span)
    (h : Resolved lo hi (pieces, rest)) : Resolved lo hi (resolveToken p pieces t rest) := by
  have hleaf {kind : EventKind} (hkind : kind.isLeaf = true) :
      Resolved lo hi (.inline (.done [⟨kind, t.span⟩]) :: pieces, rest) :=
    ⟨List.forall_mem_cons.2 ⟨InlineForest.leaf hkind fun _ => ht, h.pieces⟩, h.tokens⟩
  unfold resolveToken
  dsimp only
  split
  · exact hleaf rfl
  · exact hleaf rfl
  · exact hleaf rfl
  · exact hleaf rfl
  · exact ⟨List.forall_mem_cons.2 ⟨ht, h.pieces⟩, h.tokens⟩
  · refine orText_resolved t h ?_
    split
    · exact math?_opens ht _ h.tokens
    · exact nofun
  · exact orText_resolved t h (codeSpan?_opens t _ _ h.tokens)
  · exact orText_resolved t h (angled?_opens hp ht h.tokens)
  · exact ⟨List.forall_mem_cons.2 ⟨ht.1, h.pieces⟩, h.tokens⟩
  · exact ⟨List.forall_mem_cons.2 ⟨ht.1, h.pieces⟩, h.tokens⟩
  · split
    · exact ⟨List.forall_mem_cons.2 ⟨textPiece_grown _, h.pieces⟩, h.tokens⟩
    next hopen =>
      obtain ⟨hinside, hopener, hbefore⟩ :=
        openBracket?_grown hopen (List.forall_mem_nil _) h.pieces
      exact Closed.Grown.resolve ⟨hinside, hbefore, hopener, ht.2⟩ hp _ h.tokens

theorem resolveTokens_grown (hp : p.start + p.text.length ≤ hi) (fuel : Nat)
    {pieces : List Piece} {tokens : List Token} (h : Resolved lo hi (pieces, tokens)) :
    ∀ q ∈ resolveTokens p fuel pieces tokens, q.Grown lo hi := by
  fun_induction resolveTokens p fuel pieces tokens with
  | case1 | case2 => exact h.pieces
  | case3 _ pieces t rest _ _ hresolve ih =>
    obtain ⟨ht, hrest⟩ := List.forall_mem_cons.1 h.tokens
    have hstep : Resolved lo hi (resolveToken p pieces t rest) :=
      resolveToken_resolved hp ht ⟨h.pieces, hrest⟩
    rw [hresolve] at hstep
    exact ih hstep

/-- The inline events of a block are a forest, where its tokens lie. -/
theorem inlineEvents_inlineForest (source : List Char) (definitions : Definitions) {l : Leaf}
    (htokens : TokensIn lo hi l.tokens) (hspan : l.span.start ≤ l.span.stop)
    (hstop : l.span.stop ≤ hi) : InlineForest lo hi (inlineEvents source definitions l) := by
  have hp : (Passage.ofLeaf source definitions l).start +
      (Passage.ofLeaf source definitions l).text.length ≤ hi := by
    have htake : ((source.drop l.span.start).take l.span.length).length ≤ l.span.length :=
      List.length_take_le _ _
    simp only [Passage.ofLeaf, Span.length] at *
    omega
  refine emphasise_inlineForest fun i hi => ?_
  obtain ⟨q, hq, rfl⟩ := List.mem_map.1 hi
  exact asInline_grown (resolveTokens_grown hp _ ⟨List.forall_mem_nil _, htokens⟩ q
    (List.mem_reverse.1 hq))

end MarkdownPreview.Markdown
