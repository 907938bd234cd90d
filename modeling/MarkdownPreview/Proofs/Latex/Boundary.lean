import MarkdownPreview.Proofs.Latex.Rendering
import MarkdownPreview.Proofs.Latex.Starts
import MarkdownPreview.Proofs.Text.Trimming

/-! Texts put together where no construct reaches over from one to the other. A space ends the name
of a command and is no script, and an argument ends at the first closing brace, so nothing that is
read in a text depends on what follows it if the text ends in a space and no brace is open there.
Scans, substitutions and renderings of such a text and of what follows are then put together as the
texts are. -/

namespace MarkdownPreview.Latex

open Text

/-! ### Closed texts -/

/-- Nothing in the text can go on behind its end: it ends in a space, if there is anything in it,
and the last brace that opens is closed. -/
structure Closed (u : List Char) : Prop where
  space : ∀ c ∈ u.getLast?, c = ' '
  braces : '{' ∉ u.reverse.takeWhile (· != '}')

variable {construct? : List Char → Option Fragment} {c : Char} {u : List Char}

namespace Closed

/-- The end of a closed text is closed. -/
theorem of_append (front : List Char) (h : Closed (front ++ u)) : Closed u where
  space c hc := h.space c (by simp [Option.mem_def.1 hc])
  braces hopen := by
    refine h.braces ?_
    rw [List.reverse_append, List.takeWhile_append]
    split
    · exact List.mem_append_left _ ((List.takeWhile_sublist _).subset hopen)
    · exact hopen

theorem tail (h : Closed (c :: u)) : Closed u := of_append [c] h

/-- Behind anything but a space a closed text goes on. -/
theorem ne_nil_of_append (front : List Char) (h : Closed (front ++ u))
    (hlast : front.getLast? = some c) (hc : c ≠ ' ') : u ≠ [] := by
  rintro rfl
  rw [List.append_nil] at h
  exact hc (h.space c hlast)

theorem ne_nil (h : Closed (c :: u)) (hc : c ≠ ' ') : u ≠ [] :=
  ne_nil_of_append [c] h rfl hc

theorem space_mem (h : Closed u) (hu : u ≠ []) : ' ' ∈ u := by
  have hlast := h.space (u.getLast hu) (List.getLast?_eq_some_getLast hu)
  exact hlast ▸ List.getLast_mem hu

theorem close_mem (h : Closed ('{' :: u)) : '}' ∈ u := by
  by_contra hnone
  have hopen : ∀ c ∈ ('{' :: u).reverse, (c != '}') = true := by
    intro c hc
    rw [List.mem_reverse, List.mem_cons] at hc
    rcases hc with rfl | hc
    · decide
    · exact bne_iff_ne.2 fun hclose => hnone (hclose ▸ hc)
  refine h.braces ?_
  rw [List.takeWhile_eq_self_iff.2 hopen, List.mem_reverse]
  exact List.mem_cons_self

end Closed

/-! ### Constructs -/

/-- What is read at the head of a closed text does not depend on what follows the text. -/
def StaysIn (construct? : List Char → Option Fragment) : Prop :=
  ∀ u v, Closed u → u ≠ [] → construct? (u ++ v) = construct? u

theorem braced?_append (h : Closed u) (hu : u ≠ []) (v : List Char) :
    braced? (u ++ v) = braced? u := by
  cases u with
  | nil => contradiction
  | cons c rest =>
    rw [List.cons_append, braced?_cons, braced?_cons]
    by_cases hc : c = '{'
    · subst hc
      have hclose := h.close_mem
      rw [takeWhile_append_of_mem hclose rfl]
      simp [hclose]
    · rw [if_neg fun h => hc h.1, if_neg fun h => hc h.1]

theorem staysIn_command? : StaysIn command? := by
  intro u v h hu
  cases u with
  | nil => contradiction
  | cons c rest =>
    by_cases hc : c = '\\'
    · subst hc
      have hrest : rest ≠ [] := h.ne_nil (by decide)
      have hspace : ' ' ∈ rest := h.tail.space_mem hrest
      have hname : (rest ++ v).takeWhile isLetter = rest.takeWhile isLetter :=
        takeWhile_append_of_mem hspace rfl v
      have hbehind : (rest ++ v).dropWhile isLetter = rest.dropWhile isLetter ++ v :=
        dropWhile_append_of_mem hspace rfl v
      have hclosed : Closed (rest.dropWhile isLetter) :=
        Closed.of_append (rest.takeWhile isLetter)
          (List.takeWhile_append_dropWhile.symm ▸ h.tail)
      have hne : rest.dropWhile isLetter ≠ [] := List.ne_nil_of_mem (mem_dropWhile hspace rfl)
      obtain ⟨d, tail, rfl⟩ := List.exists_cons_of_ne_nil hrest
      simp only [List.cons_append] at hname hbehind ⊢
      simp only [command?, hname, hbehind, braced?_append hclosed hne]
    · rw [List.cons_append, command?_of_ne hc, command?_of_ne hc]

theorem staysIn_script? : StaysIn script? := by
  intro u v h hu
  cases u with
  | nil => contradiction
  | cons c rest =>
    cases ha : scriptAlphabet? c with
    | none => simp only [List.cons_append, script?, ha]
    | some a =>
      have hc : c ≠ ' ' := by
        rintro rfl
        cases ha
      have hrest := h.ne_nil hc
      obtain ⟨d, tail, rfl⟩ := List.exists_cons_of_ne_nil hrest
      have hbraced := braced?_append h.tail hrest v
      simp only [List.cons_append] at hbraced ⊢
      simp only [script?, ha, hbraced]

/-- A head without spaces is not cut off at the end of a closed text. -/
theorem after?_append_closed {head : List Char} (hhead : ' ' ∉ head) (h : Closed u) (hu : u ≠ [])
    (v : List Char) : after? head (u ++ v) = (after? head u).map (· ++ v) := by
  induction head generalizing u with
  | nil => rfl
  | cons p head ih =>
    obtain ⟨hp, hhead⟩ := not_or.1 (mt List.mem_cons.2 hhead)
    cases u with
    | nil => contradiction
    | cons c rest =>
      simp only [List.cons_append, after?]
      split
      next hpc => exact ih hhead h.tail (h.ne_nil (hpc ▸ Ne.symm hp))
      · rfl

theorem staysIn_fraction? : StaysIn fraction? := by
  intro u v h hu
  have hfrac := after?_append_closed (show ' ' ∉ "\\frac".toList by decide) h hu v
  simp only [fraction?, hfrac, Option.bind_eq_bind]
  cases hrest : after? "\\frac".toList u with
  | none => rfl
  | some rest =>
    obtain rfl := eq_append_of_after? hrest
    have hclosed := h.of_append _
    have hne := h.ne_nil_of_append (c := 'c') _ rfl (by decide)
    simp only [Option.map_some, Option.bind_some, braced?_append hclosed hne]
    cases hnum : braced? rest with
    | none => rfl
    | some num =>
      -- behind the first argument the text goes on, so the second is read from a closed text too
      obtain ⟨behind, rfl⟩ := braced?_isPrefix hnum
      have hgoes := hclosed.ne_nil_of_append (c := '}') _ List.getLast?_concat (by decide)
      simp only [Option.bind_some, List.append_assoc, after?_append,
        braced?_append (hclosed.of_append _) hgoes]

/-! ### Scans -/

/-- A scan of a closed text and of what follows finds what the scans of the two find. -/
theorem scanFrom_append (hc : ReadsHead construct?) (hstays : StaysIn construct?) (h : Closed u)
    (v : List Char) {pos skip : Nat} (hskip : skip ≤ u.length) :
    scanFrom construct? pos skip (u ++ v) =
      scanFrom construct? pos skip u ++ scanFrom construct? (pos + u.length) 0 v := by
  induction u generalizing pos skip with
  | nil =>
    obtain rfl := Nat.le_zero.1 hskip
    rfl
  | cons c rest ih =>
    have hpos : pos + (c :: rest).length = pos + 1 + rest.length := by
      rw [List.length_cons]
      omega
    have hhead := hstays (c :: rest) v h (List.cons_ne_nil c rest)
    rw [List.cons_append] at hhead ⊢
    rw [hpos]
    cases skip with
    | succ skip => exact ih h.tail (Nat.le_of_succ_le_succ hskip)
    | zero =>
      simp only [scanFrom, hhead]
      cases hf : construct? (c :: rest) with
      | none => exact ih h.tail (Nat.zero_le _)
      | some f =>
        -- the construct stops in the closed text, so the scan gets to its end with nothing to skip
        have hlen : f.source.length - 1 ≤ rest.length := by
          have := (hc _ _ hf).1.length_le
          rw [List.length_cons] at this
          omega
        simp only [ih h.tail hlen, List.append_assoc]

/-! ### Renderings -/

/-- The substitutions of a closed text and of what follows are those of the two, those of each scan
put together. -/
theorem findSubstitutions_append_perm (h : Closed u) (v : List Char) (offset : Nat) :
    (findSubstitutions (u ++ v) offset).Perm
      (findSubstitutions u offset ++ findSubstitutions v (offset + u.length)) := by
  have hskip := Nat.zero_le u.length
  simp only [findSubstitutions, commands, scripts, fractions,
    scanFrom_append readsHead_command? staysIn_command? h v hskip,
    scanFrom_append readsHead_script? staysIn_script? h v hskip,
    scanFrom_append readsHead_fraction? staysIn_fraction? h v hskip]
  refine List.perm_iff_count.2 fun s => ?_
  simp only [List.count_append]
  omega

/-- Overlaps are resolved in a closed text and in what follows each by itself. -/
theorem nonOverlapping_findSubstitutions_append (h : Closed u) (v : List Char) (offset : Nat) :
    nonOverlapping (findSubstitutions (u ++ v) offset) =
      nonOverlapping (findSubstitutions u offset) ++
        nonOverlapping (findSubstitutions v (offset + u.length)) := by
  have hperm := findSubstitutions_append_perm h v offset
  rw [← nonOverlapping_perm (nodup_spans (u ++ v) offset) hperm.symm]
  refine nonOverlapping_append (fun s hs => ?_) fun s hs t ht => ?_
  · exact (findSubstitutions_covers u offset s hs).start_lt_stop
  · have hstop := (findSubstitutions_covers u offset s hs).stop_le
    have hstart := (findSubstitutions_covers v _ t ht).le_start
    omega

/-- Let a text end in a space, and let no brace open in it behind the last one that closes, nor any
if none closes. Put before another text, each scan finds in the two together what it finds in the
first, followed by what it finds in the second, moved by the length of the first. So the two
together are drawn as the first followed by the second. -/
theorem renderUnicode_append (u v : List Char) (hspace : u.getLast? = some ' ')
    (hbraces : '{' ∉ u.reverse.takeWhile (· != '}')) :
    (∀ offset, ∀ scan ∈ [commands, scripts, fractions],
      scan (u ++ v) offset = scan u offset ++ (scan v offset).map (·.shift u.length)) ∧
    renderUnicode (u ++ v) = renderUnicode u ++ renderUnicode v := by
  have hclosed : Closed u := ⟨by simp [hspace], hbraces⟩
  constructor
  · intro offset scan hscan
    have happend {construct? : List Char → Option Fragment} (hc : ReadsHead construct?)
        (hstays : StaysIn construct?) : scanFrom construct? offset 0 (u ++ v) =
          scanFrom construct? offset 0 u ++
            (scanFrom construct? offset 0 v).map (·.shift u.length) := by
      rw [scanFrom_append hc hstays hclosed v (Nat.zero_le _), scanFrom_shift]
    simp only [List.mem_cons, List.not_mem_nil, or_false] at hscan
    rcases hscan with rfl | rfl | rfl
    · exact happend readsHead_command? staysIn_command?
    · exact happend readsHead_script? staysIn_script?
    · exact happend readsHead_fraction? staysIn_fraction?
  · have hparts : Replaces 0 (nonOverlapping (findSubstitutions (u ++ v) 0)) (u ++ v)
        (renderUnicode u ++ renderUnicode v) := by
      rw [nonOverlapping_findSubstitutions_append hclosed]
      exact (replaces_renderUnicode u 0).append (replaces_renderUnicode v _)
    exact hparts.eq_renderUnicode.symm

/-- A command with nothing but a space between it and an argument: it does not take the argument. -/
theorem renderUnicode_append_accent :
    let u := ['{', 'a', '}', '\\', 'h', 'a', 't', ' ']
    let v := ['{', 'x', '}', '_', '1']
    u.getLast? = some ' ' ∧ '{' ∉ u.reverse.takeWhile (· != '}') ∧
    (∀ offset, ∀ scan ∈ [commands, scripts, fractions],
      scan (u ++ v) offset = scan u offset ++ (scan v offset).map (·.shift u.length)) ∧
    renderUnicode (u ++ v) = renderUnicode u ++ renderUnicode v := by
  intro u v
  have hspace : u.getLast? = some ' ' := rfl
  have hbraces : '{' ∉ u.reverse.takeWhile (· != '}') := by decide
  exact ⟨hspace, hbraces, renderUnicode_append u v hspace hbraces⟩

end MarkdownPreview.Latex
