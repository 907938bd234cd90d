import MarkdownPreview.Proofs.Latex.Overlaps
import MarkdownPreview.Proofs.Latex.Placement
import MarkdownPreview.Proofs.Latex.Shift

/-! Where substitutions start. Those of one scan follow one another, for what a construct covers is
not looked at again. Those of different scans may overlap, but no two of them start together:
commands and fractions start with a backslash, scripts do not, and the command that a fraction
starts with has no rendering of its own. So the order in which the scans are put together does not
matter once overlaps are resolved. -/

namespace MarkdownPreview.Latex

variable {construct? first? second? : List Char → Option Fragment} {pos : Nat}
  {text rest : List Char}

/-! ### One scan -/

/-- The substitutions of a scan follow one another. -/
theorem pairwise_scanFrom (hc : ReadsHead construct?) (pos skip : Nat) (text : List Char) :
    (scanFrom construct? pos skip text).Pairwise fun s t => s.stop ≤ t.start := by
  induction text generalizing pos skip with
  | nil => exact .nil
  | cons c rest ih =>
    cases skip with
    | succ skip => exact ih (pos + 1) skip
    | zero =>
      simp only [scanFrom]
      split
      · exact ih (pos + 1) 0
      next f hf =>
        have hlen := (hc _ _ hf).2
        refine List.pairwise_append.2 ⟨by split <;> simp, ih (pos + 1) _, fun s hs t ht => ?_⟩
        obtain ⟨before, -, -, hskip, -, hstart, -⟩ := foundIn_of_mem_scanFrom ht
        split at hs
        · obtain rfl := List.mem_singleton.1 hs
          change pos + f.source.length ≤ t.start
          omega
        · simp at hs

/-! ### Two scans -/

/-- No text has constructs with a rendering of both kinds at its head. -/
def Exclusive (first? second? : List Char → Option Fragment) : Prop :=
  ∀ text source display, first? text = some ⟨source, some display⟩ →
    ∀ source display, second? text ≠ some ⟨source, some display⟩

theorem start_ne_of_mem_scanFrom (hex : Exclusive first? second?) {s t : Substitution}
    (hs : s ∈ scanFrom first? pos 0 text) (ht : t ∈ scanFrom second? pos 0 text) :
    s.start ≠ t.start := by
  intro hstart
  obtain ⟨before, after, rfl, -, hfirst, hs, -⟩ := foundIn_of_mem_scanFrom hs
  obtain ⟨before', after', htext, -, hsecond, ht, -⟩ := foundIn_of_mem_scanFrom ht
  obtain ⟨-, rfl⟩ := List.append_inj htext (by omega)
  exact hex _ _ _ hfirst _ _ hsecond

/-! ### What constructs start with -/

theorem head?_of_command? {f : Fragment} (h : command? text = some f) : text.head? = some '\\' := by
  simp only [command?] at h
  split at h
  · rfl
  · simp at h

theorem head?_of_script? {f : Fragment} (h : script? text = some f) :
    text.head? = some '_' ∨ text.head? = some '^' := by
  simp only [script?] at h
  split at h
  next c rest =>
    split at h
    · simp at h
    next a ha =>
      simp only [scriptAlphabet?] at ha
      split at ha
      next hc => exact .inl (congrArg some hc)
      split at ha
      next hc => exact .inr (congrArg some hc)
      · simp at ha
  · simp at h

theorem eq_append_of_fraction? {f : Fragment} (h : fraction? text = some f) :
    ∃ rest, text = "\\frac".toList ++ '{' :: rest := by
  simp only [fraction?, Option.bind_eq_bind, Option.bind_eq_some_iff] at h
  obtain ⟨rest, hrest, num, hnum, -⟩ := h
  obtain ⟨behind, rfl⟩ := braced?_isPrefix hnum
  exact ⟨num ++ ['}'] ++ behind, eq_append_of_after? hrest⟩

/-- A command with a name is drawn as its name says. -/
theorem display_of_command? {f : Fragment} (h : command? ('\\' :: rest) = some f)
    (hname : rest.takeWhile isLetter ≠ []) :
    ∃ arg, f.display = commandDisplay? (rest.takeWhile isLetter) arg := by
  simp only [command?, if_neg hname] at h
  split at h
  next arg _ =>
    obtain rfl := Option.some.inj h
    exact ⟨some arg, rfl⟩
  · obtain rfl := Option.some.inj h
    exact ⟨none, rfl⟩

/-- There is nothing to draw for the command that a fraction starts with. -/
theorem commandDisplay?_frac (arg : Option (List Char)) :
    commandDisplay? "frac".toList arg = none := by
  cases arg with
  | none => decide +kernel
  | some arg => simp [commandDisplay?, isAccent, accents]

theorem exclusive_command?_script? : Exclusive command? script? := by
  intro text _ _ hcommand _ _ hscript
  have hbackslash := head?_of_command? hcommand
  rcases head?_of_script? hscript with h | h <;> simp [hbackslash] at h

theorem exclusive_command?_fraction? : Exclusive command? fraction? := by
  intro text _ _ hcommand _ _ hfraction
  obtain ⟨rest, rfl⟩ := eq_append_of_fraction? hfraction
  have hhead : "\\frac".toList ++ '{' :: rest = '\\' :: ("frac".toList ++ '{' :: rest) := rfl
  have hname : ("frac".toList ++ '{' :: rest).takeWhile isLetter = "frac".toList := rfl
  rw [hhead] at hcommand
  obtain ⟨arg, hdisplay⟩ := display_of_command? hcommand (by rw [hname]; decide)
  rw [hname, commandDisplay?_frac] at hdisplay
  cases hdisplay

theorem exclusive_script?_fraction? : Exclusive script? fraction? := by
  intro text _ _ hscript _ _ hfraction
  obtain ⟨rest, rfl⟩ := eq_append_of_fraction? hfraction
  rcases head?_of_script? hscript with h | h <;> simp at h

/-! ### All scans -/

/-- No two substitutions of a text start at the same character. -/
theorem pairwise_start_ne (text : List Char) (offset : Nat) :
    (findSubstitutions text offset).Pairwise fun s t => s.start ≠ t.start := by
  have hscan {construct? : List Char → Option Fragment} (hc : ReadsHead construct?) :
      (scanFrom construct? offset 0 text).Pairwise fun s t => s.start ≠ t.start := by
    refine (pairwise_scanFrom hc offset 0 text).imp_of_mem fun hs _ hst heq => ?_
    have := (scanFrom_covers hc _ hs).start_lt_stop
    omega
  refine List.pairwise_append.2 ⟨List.pairwise_append.2 ⟨hscan readsHead_command?,
    hscan readsHead_script?, fun s hs t ht => ?_⟩, hscan readsHead_fraction?, fun s hs t ht => ?_⟩
  · exact start_ne_of_mem_scanFrom exclusive_command?_script? hs ht
  · rcases List.mem_append.1 hs with hs | hs
    · exact start_ne_of_mem_scanFrom exclusive_command?_fraction? hs ht
    · exact start_ne_of_mem_scanFrom exclusive_script?_fraction? hs ht

theorem nodup_spans (text : List Char) (offset : Nat) :
    ((findSubstitutions text offset).map Substitution.span).Nodup :=
  List.pairwise_map.2 <| (pairwise_start_ne text offset).imp fun hne heq =>
    hne (congrArg Text.Span.start heq)

/-- The substitutions of a text with offsets counted from anywhere. They are those counted from its
first character, moved along. Each covers two characters or more of the text, which are its source.
Those of one scan follow one another, and no two of all of them start together. So overlaps are
resolved alike in whatever order the scans are put together. -/
theorem findSubstitutions_placed (text : List Char) (offset : Nat) :
    findSubstitutions text offset = (findSubstitutions text 0).map (·.shift offset) ∧
    (∀ s ∈ findSubstitutions text offset, Covers offset text s) ∧
    (∀ scan ∈ [commands, scripts, fractions],
      (scan text offset).Pairwise fun s t => s.stop ≤ t.start) ∧
    (findSubstitutions text offset).Pairwise (fun s t => s.start ≠ t.start) ∧
    ∀ scans : List (List Substitution),
      scans.Perm [commands text offset, scripts text offset, fractions text offset] →
      nonOverlapping scans.flatten = nonOverlapping (findSubstitutions text offset) := by
  have hshift := findSubstitutions_shift offset text 0
  rw [Nat.zero_add] at hshift
  refine ⟨hshift, findSubstitutions_covers text offset, fun scan hscan => ?_,
    pairwise_start_ne text offset, fun scans hperm => ?_⟩
  · simp only [List.mem_cons, List.not_mem_nil, or_false] at hscan
    rcases hscan with rfl | rfl | rfl
    · exact pairwise_scanFrom readsHead_command? offset 0 text
    · exact pairwise_scanFrom readsHead_script? offset 0 text
    · exact pairwise_scanFrom readsHead_fraction? offset 0 text
  · have hall : [commands text offset, scripts text offset, fractions text offset].flatten =
        findSubstitutions text offset := by
      simp [findSubstitutions]
    exact nonOverlapping_perm (nodup_spans text offset) (hall ▸ hperm.flatten)

/-- A fraction of a script and a command, which a command without a rendering and another script
overlap, after a character of two bytes. -/
theorem findSubstitutions_placed_nested :
    let text := ['é', '\\', 'f', 'r', 'a', 'c', '{', 'x', '_', '1', '}', '{', '\\', 'p', 'i', '}']
    [fractions text 7, scripts text 7, commands text 7].Perm
      [commands text 7, scripts text 7, fractions text 7] ∧
    (∀ s ∈ findSubstitutions text 7, Covers 7 text s) ∧
    (findSubstitutions text 7).map (·.start) = [19, 15, 8] ∧
    nonOverlapping ([fractions text 7, scripts text 7, commands text 7].flatten) =
      nonOverlapping (findSubstitutions text 7) := by
  intro text
  have hperm : [fractions text 7, scripts text 7, commands text 7].Perm
      [commands text 7, scripts text 7, fractions text 7] :=
    List.reverse_perm [commands text 7, scripts text 7, fractions text 7]
  obtain ⟨-, hcovers, -, -, horder⟩ := findSubstitutions_placed text 7
  exact ⟨hperm, hcovers, by decide +kernel, horder _ hperm⟩

end MarkdownPreview.Latex
