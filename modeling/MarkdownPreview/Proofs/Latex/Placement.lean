import MarkdownPreview.Latex.Scan
import MarkdownPreview.Proofs.Syntax.Pieces

/-! Where substitutions sit. A construct covers a piece at the head of the text that it is read
from, so every substitution of a scan covers at least two characters inside the text, and its source
is just those characters. -/

namespace MarkdownPreview.Latex

open Syntax (takeWhile_append_isPrefix takeWhile_ne_append)

/-- A recognised construct covers two characters or more at the head of the text. -/
def ReadsHead (construct? : List Char → Option Fragment) : Prop :=
  ∀ text f, construct? text = some f → f.source <+: text ∧ 2 ≤ f.source.length

/-! ### Constructs -/

theorem braced?_cons (c : Char) (rest : List Char) : braced? (c :: rest) =
    if c = '{' ∧ rest.contains '}' = true then some (rest.takeWhile (· != '}')) else none := by
  by_cases hc : c = '{'
  · subst hc
    simp [braced?]
  · simp [braced?, hc]

theorem braced?_isPrefix {text arg : List Char} (h : braced? text = some arg) :
    inBraces arg <+: text := by
  simp only [braced?] at h
  split at h
  next rest =>
    split at h
    next hclose =>
      obtain rfl := Option.some.inj h
      exact List.cons_prefix_cons.2 ⟨rfl, takeWhile_ne_append (by simpa using hclose)⟩
    · simp at h
  · simp at h

theorem length_inBraces (arg : List Char) : (inBraces arg).length = arg.length + 2 := by
  simp [inBraces]

theorem after?_append (head rest : List Char) : after? head (head ++ rest) = some rest := by
  induction head with
  | nil => rfl
  | cons c head ih => simp [after?, ih]

theorem eq_append_of_after? {head text rest : List Char} (h : after? head text = some rest) :
    text = head ++ rest := by
  induction head generalizing text with
  | nil => simpa [after?] using h
  | cons p ps ih =>
    cases text with
    | nil => simp [after?] at h
    | cons c cs =>
      simp only [after?] at h
      split at h
      next hpc => rw [hpc, ih h, List.cons_append]
      · simp at h

theorem command?_of_ne {c : Char} (hc : c ≠ '\\') (rest : List Char) :
    command? (c :: rest) = none := by
  simp [command?, hc]

theorem readsHead_command? : ReadsHead command? := by
  intro text f h
  simp only [command?] at h
  split at h
  next rest =>
    split at h
    · split at h
      · split at h
        · obtain rfl := Option.some.inj h
          exact ⟨⟨_, rfl⟩, Nat.le_refl 2⟩
        · simp at h
      · simp at h
    next hname =>
      have hpos := List.length_pos_iff.2 hname
      split at h
      next arg harg =>
        obtain rfl := Option.some.inj h
        refine ⟨List.cons_prefix_cons.2
          ⟨rfl, takeWhile_append_isPrefix _ (braced?_isPrefix harg)⟩, ?_⟩
        simp only [List.cons_append, List.length_cons, List.length_append, length_inBraces]
        omega
      · obtain rfl := Option.some.inj h
        refine ⟨List.cons_prefix_cons.2 ⟨rfl, List.takeWhile_prefix _⟩, ?_⟩
        rw [List.length_cons]
        omega
  · simp at h

theorem readsHead_script? : ReadsHead script? := by
  intro text f h
  simp only [script?] at h
  split at h
  next c rest =>
    split at h
    · simp at h
    next a _ =>
      split at h
      next arg harg =>
        split at h
        · simp at h
        · obtain rfl := Option.some.inj h
          refine ⟨List.cons_prefix_cons.2 ⟨rfl, braced?_isPrefix harg⟩, ?_⟩
          simp only [scriptFragment, List.length_cons, length_inBraces]
          omega
      · split at h
        · split at h
          · obtain rfl := Option.some.inj h
            exact ⟨⟨_, rfl⟩, Nat.le_refl 2⟩
          · simp at h
        · simp at h
  · simp at h

theorem readsHead_fraction? : ReadsHead fraction? := by
  intro text f h
  simp only [fraction?, Option.bind_eq_bind, Option.bind_eq_some_iff] at h
  obtain ⟨rest, hrest, num, hnum, rest', hrest', den, hden, hf⟩ := h
  obtain rfl := Option.some.inj hf
  obtain ⟨after, hafter⟩ := braced?_isPrefix hden
  refine ⟨⟨after, ?_⟩, by simp [length_inBraces]⟩
  rw [eq_append_of_after? hrest, eq_append_of_after? hrest', ← hafter]
  simp

/-! ### Scans -/

/-- The substitution is a construct with a rendering, read off what is left of a text behind some of
its characters, `skip` of them or more. The first character of the text has the offset `pos`. -/
def FoundIn (construct? : List Char → Option Fragment) (pos skip : Nat) (text : List Char)
    (s : Substitution) : Prop :=
  ∃ before after, text = before ++ after ∧ skip ≤ before.length ∧
    construct? after = some ⟨s.source, some s.display⟩ ∧ s.start = pos + before.length ∧
    s.stop = s.start + s.source.length

section

variable {construct? : List Char → Option Fragment} {pos skip : Nat} {text : List Char}
  {s : Substitution}

theorem FoundIn.cons (c : Char) (h : FoundIn construct? (pos + 1) skip text s) :
    FoundIn construct? pos (skip + 1) (c :: text) s := by
  obtain ⟨before, after, rfl, hskip, hread, hstart, hstop⟩ := h
  refine ⟨c :: before, after, rfl, Nat.succ_le_succ hskip, hread, ?_, hstop⟩
  rw [hstart, List.length_cons]
  omega

theorem FoundIn.anywhere (h : FoundIn construct? pos skip text s) :
    FoundIn construct? pos 0 text s := by
  obtain ⟨before, after, htext, -, hread⟩ := h
  exact ⟨before, after, htext, Nat.zero_le _, hread⟩

theorem foundIn_of_mem_scanFrom (h : s ∈ scanFrom construct? pos skip text) :
    FoundIn construct? pos skip text s := by
  induction text generalizing pos skip with
  | nil => simp [scanFrom] at h
  | cons c rest ih =>
    cases skip with
    | succ skip => exact (ih h).cons c
    | zero =>
      simp only [scanFrom] at h
      split at h
      · exact ((ih h).cons c).anywhere
      next f hf =>
        rcases List.mem_append.1 h with h | h
        · split at h
          next display hdisplay =>
            obtain rfl := List.mem_singleton.1 h
            exact ⟨[], c :: rest, rfl, Nat.le_refl 0, by rw [hf, ← hdisplay], rfl, rfl⟩
          · simp at h
        · exact ((ih h).cons c).anywhere

end

/-- The substitution covers two characters or more of a text whose first character has the offset
`pos`, and they are its source. -/
def Covers (pos : Nat) (text : List Char) (s : Substitution) : Prop :=
  ∃ before after, text = before ++ s.source ++ after ∧ s.start = pos + before.length ∧
    s.stop = s.start + s.source.length ∧ 2 ≤ s.source.length

theorem Covers.start_lt_stop {pos : Nat} {text : List Char} {s : Substitution}
    (h : Covers pos text s) : s.start < s.stop := by
  obtain ⟨_, _, _, _, hstop, hlen⟩ := h
  omega

theorem Covers.le_start {pos : Nat} {text : List Char} {s : Substitution}
    (h : Covers pos text s) : pos ≤ s.start := by
  obtain ⟨_, _, _, hstart, _, _⟩ := h
  omega

theorem Covers.stop_le {pos : Nat} {text : List Char} {s : Substitution}
    (h : Covers pos text s) : s.stop ≤ pos + text.length := by
  obtain ⟨before, after, rfl, hstart, hstop, _⟩ := h
  simp only [List.length_append]
  omega

/-- What is covered behind the front of a text is covered in the rest. -/
theorem Covers.behind {pos : Nat} {front rest : List Char} {s : Substitution}
    (h : Covers pos (front ++ rest) s) (hle : pos + front.length ≤ s.start) :
    Covers (pos + front.length) rest s := by
  obtain ⟨before, after, htext, hstart, hstop, hlen⟩ := h
  have hfront : front <+: before := by
    refine List.prefix_of_prefix_length_le ⟨rest, rfl⟩ ?_ (by omega)
    exact ⟨s.source ++ after, by rw [htext, List.append_assoc]⟩
  obtain ⟨gap, rfl⟩ := hfront
  refine ⟨gap, after, ?_, by rw [hstart, List.length_append, Nat.add_assoc], hstop, hlen⟩
  simpa only [List.append_assoc, List.append_cancel_left_eq] using htext

theorem scanFrom_covers {construct? : List Char → Option Fragment} (hc : ReadsHead construct?)
    {pos skip : Nat} {text : List Char} :
    ∀ s ∈ scanFrom construct? pos skip text, Covers pos text s := by
  intro s hs
  obtain ⟨before, after, rfl, -, hread, hstart, hstop⟩ := foundIn_of_mem_scanFrom hs
  obtain ⟨⟨behind, rfl⟩, hlen⟩ := hc _ _ hread
  exact ⟨before, behind, (List.append_assoc _ _ _).symm, hstart, hstop, hlen⟩

theorem findSubstitutions_covers (text : List Char) (offset : Nat) :
    ∀ s ∈ findSubstitutions text offset, Covers offset text s := by
  intro s hs
  simp only [findSubstitutions, List.mem_append] at hs
  rcases hs with (hs | hs) | hs
  · exact scanFrom_covers readsHead_command? s hs
  · exact scanFrom_covers readsHead_script? s hs
  · exact scanFrom_covers readsHead_fraction? s hs

end MarkdownPreview.Latex
