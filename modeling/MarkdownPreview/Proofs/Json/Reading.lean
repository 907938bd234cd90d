import MarkdownPreview.Json.RoundTrip
import MarkdownPreview.Proofs.Text.Numeral
import MarkdownPreview.Proofs.Text.Trimming

/-! Values read back. Whatever the layout in which a value is written, a reader for its type reads
it and stops right behind it. An object is read member by member: if every member leads from the
state before it to the next, the object leads from the first state to the last. -/

namespace MarkdownPreview.Json

variable {α β σ : Type}

/-! ### Around a value -/

/-- What can stand behind a value. A number would go on with anything else. -/
def Closing (rest : List Char) : Prop :=
  ∀ c ∈ rest.head?, c = ',' ∨ c = '}' ∨ isSpace c = true

theorem closing_nil : Closing [] := by simp [Closing]

theorem isSpace_of_mem_lineBreak {l : Layout} {c : Char} (h : c ∈ l.lineBreak) :
    isSpace c = true := by
  cases l with
  | line => cases h
  | indented depth =>
    rcases List.mem_cons.1 h with rfl | h
    · rfl
    · rw [List.eq_of_mem_replicate h]
      rfl

theorem skipSpace_lineBreak (l : Layout) (text : List Char) :
    skipSpace (l.lineBreak ++ text) = skipSpace text :=
  List.dropWhile_append_of_pos fun _ => isSpace_of_mem_lineBreak

theorem skipSpace_cons {c : Char} (h : isSpace c = false) (rest : List Char) :
    skipSpace (c :: rest) = c :: rest := by
  rw [skipSpace, List.dropWhile_cons_of_neg (by simp [h])]

theorem closing_lineBreak (l : Layout) (rest : List Char) :
    Closing (l.lineBreak ++ '}' :: rest) := by
  intro c hc
  cases l with
  | line => exact .inr (.inl (Option.some.inj hc).symm)
  | indented depth =>
    obtain rfl := Option.some.inj hc
    exact .inr (.inr rfl)

/-- An object starts with its brace. -/
theorem exists_render_object (l : Layout) (members : List (List Char × Json)) :
    ∃ tail, (object members).render l = '\x7b' :: tail := by
  rw [render, enclose.eq_def]
  split
  · exact ⟨_, rfl⟩
  · exact ⟨_, rfl⟩

/-- No value starts with white space. -/
theorem exists_render (l : Layout) (v : Json) :
    ∃ c tail, v.render l = c :: tail ∧ isSpace c = false := by
  cases v with
  | null => exact ⟨'n', "ull".toList, rfl, rfl⟩
  | bool b =>
    cases b with
    | false => exact ⟨'f', "alse".toList, rfl, rfl⟩
    | true => exact ⟨'t', "rue".toList, rfl, rfl⟩
  | natural n =>
    cases h : Text.decimal n with
    | nil => exact absurd h (Text.decimal_ne_nil n)
    | cons c tail =>
      have hdigit := Text.isDigit_of_mem_decimal (h ▸ List.mem_cons_self : c ∈ Text.decimal n)
      refine ⟨c, tail, h, ?_⟩
      simp only [isSpace, Bool.or_eq_false_iff, beq_eq_false_iff_ne]
      refine ⟨⟨⟨?_, ?_⟩, ?_⟩, ?_⟩ <;> rintro rfl <;> exact absurd hdigit (by decide)
  | string text => exact ⟨'"', _, rfl, rfl⟩
  | array items =>
    rw [render, enclose.eq_def]
    split
    · exact ⟨_, _, rfl, rfl⟩
    · exact ⟨_, _, rfl, rfl⟩
  | object members =>
    obtain ⟨tail, htail⟩ := exists_render_object l members
    exact ⟨_, tail, htail, rfl⟩

theorem skipSpace_render (l : Layout) (v : Json) (rest : List Char) :
    skipSpace (v.render l ++ rest) = v.render l ++ rest := by
  obtain ⟨c, tail, hv, hc⟩ := exists_render l v
  rw [hv]
  exact skipSpace_cons hc _

/-! ### Values -/

/-- The reader reads the value as `a` in every layout. -/
def Reads (read? : Reader α) (v : Json) (a : α) : Prop :=
  ∀ l rest, Closing rest → read? (v.render l ++ rest) = some (a, rest)

theorem reads_bool (b : Bool) : Reads bool? (bool b) b := by
  intro l rest _
  cases b with
  | true =>
    have htrue : afterText? "true".toList ("true".toList ++ rest) = some rest :=
      afterText?_append _ rest
    simp only [bool?, render, if_true, htrue]
  | false =>
    have hfalse : afterText? "false".toList ("false".toList ++ rest) = some rest :=
      afterText?_append _ rest
    have htrue : afterText? "true".toList ("false".toList ++ rest) = none := rfl
    simp only [bool?, render, Bool.false_eq_true, if_false, htrue, hfalse]
    rfl

theorem reads_string (text : List Char) : Reads string? (string text) text :=
  fun _ rest _ => string?_quote text rest

/-- What closes a value is no part of a number. -/
theorem Closing.not_number {c : Char} {rest : List Char} (h : Closing (c :: rest)) :
    isDigit c = false ∧ ¬ (c = '.' ∨ c = 'e' ∨ c = 'E') := by
  rcases h c rfl with rfl | rfl | hspace
  · decide
  · decide
  · simp only [isSpace, Bool.or_eq_true, beq_iff_eq] at hspace
    rcases hspace with ((rfl | rfl) | rfl) | rfl <;> decide

/-- The digits of a numeral end with it. -/
theorem span_decimal (n : Nat) {rest : List Char} (h : Closing rest) :
    (Text.decimal n ++ rest).takeWhile isDigit = Text.decimal n ∧
      (Text.decimal n ++ rest).dropWhile isDigit = rest := by
  have hdigits : ∀ c ∈ Text.decimal n, isDigit c = true := fun _ => Text.isDigit_of_mem_decimal
  have hrest : ∀ c, rest.head? = some c → isDigit c = false := by
    intro c hc
    obtain ⟨rest, rfl⟩ := List.head?_eq_some_iff.1 hc
    exact h.not_number.1
  exact ⟨Text.takeWhile_append_of_head? hdigits hrest,
    Text.dropWhile_append_of_head? hdigits hrest⟩

theorem skipWhole?_decimal (n : Nat) {rest : List Char} (h : Closing rest) :
    skipWhole? (Text.decimal n ++ rest) = some rest := by
  obtain rfl | hn := Nat.eq_zero_or_pos n
  · cases rest with
    | nil => rfl
    | cons c rest =>
      change (if isDigit c then none else some (c :: rest)) = _
      rw [if_neg (by simp [h.not_number.1])]
  · have hspan := (span_decimal n h).2
    have hzero := Text.head?_decimal_ne_zero hn
    cases hdecimal : Text.decimal n with
    | nil => exact absurd hdecimal (Text.decimal_ne_nil n)
    | cons c digits =>
      have hdigit : isDigit c = true :=
        Text.isDigit_of_mem_decimal (hdecimal ▸ List.mem_cons_self : c ∈ Text.decimal n)
      rw [hdecimal] at hspan hzero
      rw [List.cons_append, skipWhole?]
      · rw [if_pos hdigit]
        exact congrArg some hspan
      · rintro _ _ rfl
        exact absurd rfl hzero

theorem reads_natural {n : Nat} (h : n ≤ Text.maxWord) : Reads word? (natural n) n := by
  intro l rest hrest
  simp only [render, word?, skipWhole?_decimal n hrest, (span_decimal n hrest).1,
    Text.decimal?_decimal, Option.bind_eq_bind, Option.bind_some, if_pos h]
  cases rest with
  | nil => rfl
  | cons c rest => exact if_neg hrest.not_number.2

/-- A value that may be null is read as itself where it does not start like null. -/
theorem Reads.optional {read? : Reader α} {v : Json} {a : α} (h : Reads read? v a)
    (hnull : ∀ l rest, null? (v.render l ++ rest) = none) : Reads (optional? read?) v (some a) := by
  intro l rest hrest
  rw [optional?, hnull l rest, h l rest hrest]
  rfl

theorem reads_optional_string (text : List Char) :
    Reads (optional? string?) (string text) (some text) :=
  (reads_string text).optional fun _ _ => rfl

/-- A field that has not been given yet is read as its value. -/
theorem Reads.field {read? : Reader α} {v : Json} {a : α} (h : Reads read? v a) (set : α → σ) :
    Reads (field? read? none set) v (set a) := by
  intro l rest hrest
  rw [field?, h l rest hrest]
  rfl

/-! ### Objects -/

/-- The members lead from one state to another, each from where the one before it has led. -/
inductive ReadsMembers (member? : List Char → σ → Reader σ) :
    σ → List (List Char × Json) → σ → Prop
  | nil (s : σ) : ReadsMembers member? s [] s
  | cons {s t u : σ} {key : List Char} {v : Json} {members : List (List Char × Json)}
      (hv : Reads (member? key s) v t) (hrest : ReadsMembers member? t members u) :
      ReadsMembers member? s ((key, v) :: members) u

/-- What follows a member up to the end of the object. -/
def afterMember (l : Layout) (members : List (List Char × Json)) (closing : List Char) :
    List Char :=
  (renderMembers l members).flatMap (fun member => ',' :: l.lineBreak ++ member) ++ closing

theorem length_le_afterMember (l : Layout) (members : List (List Char × Json))
    (closing : List Char) : members.length ≤ (afterMember l members closing).length := by
  induction members with
  | nil => exact Nat.zero_le _
  | cons member members ih =>
    simp only [afterMember, renderMembers, List.flatMap_cons, List.length_append,
      List.length_cons] at ih ⊢
    omega

theorem key?_member (l : Layout) (key : List Char) (v : Json) (rest : List Char) :
    key? (quote key ++ l.colon ++ v.render l ++ rest) = some (key, v.render l ++ rest) := by
  have hvalue : ∃ gap, l.colon ++ (v.render l ++ rest) = ':' :: gap ∧
      skipSpace gap = v.render l ++ rest := by
    cases l with
    | line => exact ⟨_, rfl, skipSpace_render _ v rest⟩
    | indented depth => exact ⟨_, rfl, skipSpace_render _ v rest⟩
  obtain ⟨gap, hgap, hskip⟩ := hvalue
  rw [key?, List.append_assoc, List.append_assoc, string?_quote]
  have hcolon : skipSpace (':' :: gap) = ':' :: gap := skipSpace_cons rfl gap
  simp only [Option.bind_eq_bind, Option.bind_some, hgap, hcolon, hskip]

theorem members?_afterMember {member? : List Char → σ → Reader σ} (l : Layout)
    {closing rest : List Char} (hclosing : Closing closing)
    (hskip : skipSpace closing = '\x7d' :: rest)
    {members : List (List Char × Json)} {s t u : σ} {key : List Char} {v : Json}
    (hv : Reads (member? key s) v t) (hrest : ReadsMembers member? t members u) {fuel : Nat}
    (hfuel : members.length < fuel) :
    members? member? fuel s
      (quote key ++ l.colon ++ v.render l ++ afterMember l members closing) = some (u, rest) := by
  induction hrest generalizing s key v fuel with
  | nil t =>
    obtain ⟨fuel, rfl⟩ := Nat.exists_eq_add_of_lt hfuel
    have hvalue := hv l _ hclosing
    simp only [members?, key?_member, afterMember, renderMembers, List.flatMap_nil, List.nil_append,
      Option.bind_eq_bind, Option.bind_some, hvalue, hskip]
  | @cons t _ _ nextKey next members hnext hrest ih =>
    obtain ⟨fuel, rfl⟩ := Nat.exists_eq_add_of_lt hfuel
    -- from the comma on, the rest of the object reads like an object of its own
    let later := quote nextKey ++ l.colon ++ next.render l ++ afterMember l members closing
    have hafter : afterMember l ((nextKey, next) :: members) closing =
        ',' :: (l.lineBreak ++ later) := by
      simp [afterMember, renderMembers, later]
    have hvalue := hv l (afterMember l ((nextKey, next) :: members) closing)
      (by simp [hafter, Closing])
    have hcomma : skipSpace (',' :: (l.lineBreak ++ later)) = ',' :: (l.lineBreak ++ later) :=
      skipSpace_cons rfl _
    have hlater : skipSpace (l.lineBreak ++ later) = later :=
      (skipSpace_lineBreak l later).trans (skipSpace_cons rfl _)
    rw [members?, key?_member]
    simp only [Option.bind_eq_bind, Option.bind_some]
    rw [hvalue, hafter]
    simp only [Option.bind_some, hcomma, hlater]
    exact ih hnext (by simp only [List.length_cons]; omega)

/-- An object whose members lead from one state to another is read as the latter. -/
theorem ReadsMembers.object {member? : List Char → σ → Reader σ}
    {members : List (List Char × Json)} {s t : σ} (h : ReadsMembers member? s members t) :
    Reads (object? member? s) (object members) t := by
  intro l rest hrest
  cases h with
  | nil => rfl
  | @cons _ _ _ key v members hv hmembers =>
    let first := quote key ++ l.inner.colon ++ v.render l.inner ++
      afterMember l.inner members (l.lineBreak ++ '\x7d' :: rest)
    have htext : (Json.object ((key, v) :: members)).render l ++ rest =
        '\x7b' :: (l.inner.lineBreak ++ first) := by
      simp [render, renderMembers, enclose, afterMember, first]
    have hskip : skipSpace (l.inner.lineBreak ++ first) = first :=
      (skipSpace_lineBreak l.inner first).trans (skipSpace_cons rfl _)
    have hend : skipSpace (l.lineBreak ++ '\x7d' :: rest) = '\x7d' :: rest :=
      (skipSpace_lineBreak l _).trans (skipSpace_cons rfl rest)
    have hfuel : members.length < first.length + 1 := by
      have := length_le_afterMember l.inner members (l.lineBreak ++ '\x7d' :: rest)
      simp only [first, List.length_append]
      omega
    have hread := members?_afterMember l.inner (closing_lineBreak l rest) hend hv hmembers hfuel
    rw [htext, object?, hskip]
    exact hread

/-- The same with the text of the object from its brace on. -/
theorem ReadsMembers.exists_object {member? : List Char → σ → Reader σ}
    {members : List (List Char × Json)} {s t : σ} (h : ReadsMembers member? s members t)
    (l : Layout) {rest : List Char} (hrest : Closing rest) :
    ∃ tail, (Json.object members).render l ++ rest = '\x7b' :: tail ∧
      object? member? s ('\x7b' :: tail) = some (t, rest) := by
  obtain ⟨tail, htail⟩ := exists_render_object l members
  have hread := h.object l rest hrest
  rw [htail] at hread
  exact ⟨tail ++ rest, by rw [htail, List.cons_append], hread⟩

/-- A text that is one value is read as that value. -/
theorem document?_render {read? : Reader α} {v : Json} {a : α} (h : Reads read? v a) (l : Layout) :
    document? read? (v.render l) = some a := by
  have hskip := skipSpace_render l v []
  have hread := h l [] closing_nil
  rw [List.append_nil] at hskip hread
  rw [document?, hskip, hread]
  rfl

end MarkdownPreview.Json
