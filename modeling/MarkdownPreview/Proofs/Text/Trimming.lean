import Mathlib.Data.List.TakeWhile
import MarkdownPreview.Text.Blank

/-! Texts trimmed. Only characters in the class go, and only from the two ends. No digit is white
space, so that numbers stay as they are. -/

namespace MarkdownPreview.Text

variable {p : Char → Bool} {text u v : List Char} {c : Char}

theorem isBlank_eq_false_of_digit (h : '0' ≤ c ∧ c ≤ '9') : isBlank c = false := by
  have hlow : 48 ≤ c.toNat := h.1
  have hhigh : c.toNat ≤ 57 := h.2
  simp only [isBlank, Bool.or_eq_false_iff, Bool.and_eq_false_iff, decide_eq_false_iff_not,
    beq_eq_false_iff_ne]
  omega

theorem isBlank_of_isLineEnding (h : isLineEnding c = true) : isBlank c = true := by
  simp only [isLineEnding, Bool.or_eq_true, beq_iff_eq] at h
  obtain rfl | rfl := h <;> decide

theorem isSpaceOrTab_of_isLineEnding (h : isLineEnding c = true) : isSpaceOrTab c = false := by
  simp only [isLineEnding, Bool.or_eq_true, beq_iff_eq] at h
  obtain rfl | rfl := h <;> rfl

/-! ### Ends of texts -/

theorem mem_of_head?_append (hu : u ≠ []) (h : (u ++ v).head? = some c) : c ∈ u := by
  cases u with
  | nil => exact absurd rfl hu
  | cons d u => exact Option.some.inj h ▸ List.mem_cons_self

theorem mem_of_getLast?_append (hv : v ≠ []) (h : (u ++ v).getLast? = some c) : c ∈ v := by
  rw [List.getLast?_append, List.getLast?_eq_some_getLast hv, Option.some_or] at h
  exact Option.some.inj h ▸ List.getLast_mem hv

/-! ### Runs -/

theorem head?_dropWhile_ne (p : Char → Bool) (text : List Char)
    (h : (text.dropWhile p).head? = some c) : p c = false := by
  have := List.head?_dropWhile_not p text
  rw [h] at this
  simpa using this

/-- A run of a class ends where a character follows that is not in the class. -/
theorem takeWhile_append_of_head? (hu : ∀ c ∈ u, p c = true)
    (hv : ∀ c, v.head? = some c → p c = false) : (u ++ v).takeWhile p = u := by
  have hstop : v.takeWhile p = [] := by
    cases v with
    | nil => rfl
    | cons c v => exact List.takeWhile_cons_of_neg (by simp [hv c rfl])
  rw [List.takeWhile_append_of_pos hu, hstop, List.append_nil]

theorem dropWhile_append_of_head? (hu : ∀ c ∈ u, p c = true)
    (hv : ∀ c, v.head? = some c → p c = false) : (u ++ v).dropWhile p = v := by
  have hsplit := List.takeWhile_append_dropWhile (p := p) (l := u ++ v)
  rw [takeWhile_append_of_head? hu hv] at hsplit
  exact List.append_cancel_left hsplit

/-! ### Trimming -/

theorem trimEnd_isPrefix (p : Char → Bool) (text : List Char) : trimEnd p text <+: text :=
  ⟨_, trimEnd_append p text⟩

theorem withoutLineEnding_isPrefix (text : List Char) : withoutLineEnding text <+: text :=
  trimEnd_isPrefix _ _

theorem exists_append_trimEnd (p : Char → Bool) (text : List Char) :
    ∃ tail, text = trimEnd p text ++ tail ∧ ∀ c ∈ tail, p c = true :=
  ⟨_, (trimEnd_append p text).symm, fun _ hc => List.mem_takeWhile_imp (List.mem_reverse.1 hc)⟩

/-- What trimming leaves out belongs to the class. -/
theorem of_mem_drop_trimEnd (h : c ∈ text.drop (trimEnd p text).length) : p c = true := by
  have hdrop := congrArg (List.drop (trimEnd p text).length) (trimEnd_append p text)
  rw [List.drop_left] at hdrop
  rw [← hdrop, List.mem_reverse] at h
  exact List.mem_takeWhile_imp h

theorem trimEnd_eq_self (h : ∀ c, text.getLast? = some c → p c = false) :
    trimEnd p text = text := by
  rw [← List.head?_reverse] at h
  cases hrev : text.reverse with
  | nil => simp [trimEnd, List.reverse_eq_nil_iff.1 hrev]
  | cons c before =>
    have hc : p c = false := h c (by rw [hrev]; rfl)
    rw [trimEnd, hrev, List.dropWhile_cons_of_neg (by simp [hc]), ← hrev, List.reverse_reverse]

theorem getLast?_trimEnd_ne (p : Char → Bool) (text : List Char)
    (h : (trimEnd p text).getLast? = some c) : p c = false := by
  rw [trimEnd, List.getLast?_reverse] at h
  exact head?_dropWhile_ne p _ h

/-- Trimming stops at a text that does not end in the class. -/
theorem trimEnd_append_of_getLast? (h : ∀ c, u.getLast? = some c → p c = false) (v : List Char) :
    trimEnd p (u ++ v) = u ++ trimEnd p v := by
  rw [trimEnd, List.reverse_append, List.dropWhile_append, trimEnd]
  split
  next hnone =>
    rw [List.isEmpty_iff.1 hnone, List.reverse_nil, List.append_nil]
    exact trimEnd_eq_self h
  · rw [List.reverse_append, List.reverse_reverse]

/-- Trimming goes over what belongs to the class. -/
theorem trimEnd_append_of_mem (text : List Char) {tail : List Char} (h : ∀ c ∈ tail, p c = true) :
    trimEnd p (text ++ tail) = trimEnd p text := by
  have htail : ∀ c ∈ tail.reverse, p c = true := fun c hc => h c (List.mem_reverse.1 hc)
  rw [trimEnd, List.reverse_append, List.dropWhile_append_of_pos htail, trimEnd]

/-- Trimming cuts a text where its tail in the class begins. -/
theorem trimEnd_eq_iff : trimEnd p text = u ↔
    (∃ v, text = u ++ v ∧ ∀ c ∈ v, p c = true) ∧ ∀ c, u.getLast? = some c → p c = false := by
  constructor
  · rintro rfl
    exact ⟨exists_append_trimEnd p text, fun c hc => getLast?_trimEnd_ne p text hc⟩
  · rintro ⟨⟨v, rfl, hv⟩, hu⟩
    rw [trimEnd_append_of_mem u hv]
    exact trimEnd_eq_self hu

/-- Without a character in the class, trimming changes nothing. -/
theorem trim_eq_self (h : ∀ c ∈ text, p c = false) : trim p text = text := by
  have hhead : text.dropWhile p = text := by
    cases text with
    | nil => rfl
    | cons c rest => exact List.dropWhile_cons_of_neg (by simp [h c List.mem_cons_self])
  rw [trim, hhead]
  exact trimEnd_eq_self fun c hc => h c (List.mem_of_getLast? hc)

theorem mem_dropWhile (hc : c ∈ text) (hp : p c = false) : c ∈ text.dropWhile p := by
  rw [← List.takeWhile_append_dropWhile (p := p) (l := text), List.mem_append] at hc
  refine hc.resolve_left fun htake => ?_
  rw [List.mem_takeWhile_imp htake] at hp
  cases hp

/-- A character that is not in the class stays. -/
theorem mem_trim (hc : c ∈ text) (hp : p c = false) : c ∈ trim p text := by
  rw [trim, trimEnd, List.mem_reverse]
  exact mem_dropWhile (List.mem_reverse.2 (mem_dropWhile hc hp)) hp

theorem trim_eq_nil_iff : trim p text = [] ↔ ∀ c ∈ text, p c = true := by
  constructor
  · intro h c hc
    by_contra hp
    have hmem := mem_trim hc (Bool.not_eq_true _ ▸ hp)
    rw [h] at hmem
    cases hmem
  · intro h
    rw [trim, List.dropWhile_eq_nil_iff.2 h]
    rfl

/-- Runs of the class before and behind a text are trimmed with those of its own. -/
theorem trim_append_of_mem {lead trail : List Char} (text : List Char)
    (hlead : ∀ c ∈ lead, p c = true) (htrail : ∀ c ∈ trail, p c = true) :
    trim p (lead ++ text ++ trail) = trim p text := by
  rw [List.append_assoc, trim, List.dropWhile_append_of_pos hlead, List.dropWhile_append, trim]
  split
  next hnone => rw [List.isEmpty_iff.1 hnone, List.dropWhile_eq_nil_iff.2 htrail]
  · exact trimEnd_append_of_mem _ htrail

/-- A text is what trimming leaves between two runs of the class. -/
theorem exists_append_trim (p : Char → Bool) (text : List Char) :
    ∃ lead trail, text = lead ++ trim p text ++ trail ∧ (∀ c ∈ lead, p c = true) ∧
      ∀ c ∈ trail, p c = true := by
  refine ⟨text.takeWhile p, ((text.dropWhile p).reverse.takeWhile p).reverse, ?_,
    fun c hc => List.mem_takeWhile_imp hc,
    fun c hc => List.mem_takeWhile_imp (List.mem_reverse.1 hc)⟩
  rw [List.append_assoc, trim, trimEnd_append, List.takeWhile_append_dropWhile]

/-! ### Texts that end a run -/

/-- A run that ends inside a text is the same whatever follows the text. -/
theorem takeWhile_append_of_mem (hc : c ∈ text) (hp : p c = false) (behind : List Char) :
    (text ++ behind).takeWhile p = text.takeWhile p := by
  rw [List.takeWhile_append, if_neg]
  intro hall
  rw [← (List.takeWhile_prefix p).eq_of_length hall] at hc
  rw [List.mem_takeWhile_imp hc] at hp
  cases hp

theorem dropWhile_append_of_mem (hc : c ∈ text) (hp : p c = false) (behind : List Char) :
    (text ++ behind).dropWhile p = text.dropWhile p ++ behind := by
  rw [List.dropWhile_append, if_neg]
  rw [List.isEmpty_iff]
  exact List.ne_nil_of_mem (mem_dropWhile hc hp)

end MarkdownPreview.Text
