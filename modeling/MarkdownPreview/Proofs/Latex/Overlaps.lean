import Mathlib.Data.List.Nodup
import MarkdownPreview.Latex.Substitution
import MarkdownPreview.Proofs.Text.Sorting

/-! Which of the substitutions that overlap one another are left. They are gone through in the order
of their starts, the longest first where starts agree, and each is compared only with the last one
kept. That is enough: everything kept lies before the end of the last one, so what does not overlap
that one overlaps none of them, and what does overlap it comes after it. -/

namespace MarkdownPreview.Latex

open Text

/-! ### Order -/

namespace Substitution

variable {s t : Substitution}

theorem comesFirst_iff :
    s.comesFirst t = true ↔ s.start < t.start ∨ s.start = t.start ∧ t.stop ≤ s.stop := by
  simp [comesFirst]

theorem comesFirst_trans (s t u : Substitution) (hst : s.comesFirst t = true)
    (htu : t.comesFirst u = true) : s.comesFirst u = true := by
  rw [comesFirst_iff] at *
  omega

theorem comesFirst_total (s t : Substitution) : s.comesFirst t = true ∨ t.comesFirst s = true := by
  rw [comesFirst_iff, comesFirst_iff]
  omega

/-- Only substitutions of the same characters come before each other. -/
theorem span_eq_of_comesFirst (hst : s.comesFirst t = true) (hts : t.comesFirst s = true) :
    s.span = t.span := by
  rw [comesFirst_iff] at hst hts
  have hstart : s.start = t.start := by omega
  have hstop : s.stop = t.stop := by omega
  rw [span, span, hstart, hstop]

theorem overlaps_iff : s.overlaps t = true ↔ s.start < t.stop ∧ t.start < s.stop := by
  rw [overlaps, Span.overlaps, Bool.and_eq_true, decide_eq_true_eq, decide_eq_true_eq]
  rfl

theorem not_overlaps_of_stop_le (h : s.stop ≤ t.start) : s.overlaps t = false := by
  rw [Bool.eq_false_iff, ne_eq, overlaps_iff]
  omega

/-- What starts behind another one without overlapping it starts where that one stops, or later. -/
theorem stop_le_of_comesFirst (h : s.comesFirst t = true) (ht : t.start < t.stop)
    (hapart : s.overlaps t = false) : s.stop ≤ t.start := by
  have hnot : ¬ (s.start < t.stop ∧ t.start < s.stop) := by simp [← overlaps_iff, hapart]
  rw [comesFirst_iff] at h
  omega

end Substitution

theorem pairwise_comesFirst (subs : List Substitution) :
    (stableSort Substitution.comesFirst subs).Pairwise (Substitution.comesFirst · ·) :=
  pairwise_stableSort Substitution.comesFirst_trans Substitution.comesFirst_total subs

/-! ### The pass over sorted substitutions -/

variable {last : Option Substitution} {kept s : Substitution} {subs rest : List Substitution}

theorem dropOverlapping_of_overlaps (h : kept.overlaps s = true) :
    dropOverlapping (some kept) (s :: rest) = dropOverlapping (some kept) rest := by
  rw [dropOverlapping, if_pos h]

theorem dropOverlapping_of_apart (h : ∀ kept ∈ last, kept.overlaps s = false) :
    dropOverlapping last (s :: rest) = s :: dropOverlapping (some s) rest := by
  cases last with
  | none => rfl
  | some kept => rw [dropOverlapping, if_neg (by simp [h kept rfl])]

theorem overlaps_or_apart (last : Option Substitution) (s : Substitution) :
    (∃ kept, last = some kept ∧ kept.overlaps s = true) ∨
      ∀ kept ∈ last, kept.overlaps s = false := by
  cases last with
  | none => exact .inr (by simp)
  | some kept =>
    cases hover : kept.overlaps s with
    | true => exact .inl ⟨kept, rfl, hover⟩
    | false => exact .inr (by simpa using hover)

/-- What is kept follows the last substitution kept before, and one follows the other. -/
theorem pairwise_dropOverlapping (last : Option Substitution)
    (hsorted : (last.toList ++ subs).Pairwise (Substitution.comesFirst · ·))
    (hpos : ∀ s ∈ subs, s.start < s.stop) :
    (last.toList ++ dropOverlapping last subs).Pairwise fun s t => s.stop ≤ t.start := by
  induction subs generalizing last with
  | nil => cases last <;> simp [dropOverlapping]
  | cons s rest ih =>
    obtain ⟨hs, hpos⟩ := List.forall_mem_cons.1 hpos
    obtain ⟨kept, rfl, hover⟩ | hapart := overlaps_or_apart last s
    · rw [dropOverlapping_of_overlaps hover]
      exact ih _ (hsorted.sublist ((List.sublist_cons_self s rest).append_left _)) hpos
    · obtain ⟨-, hrest, hbefore⟩ := List.pairwise_append.1 hsorted
      have hkept := ih (some s) hrest hpos
      rw [dropOverlapping_of_apart hapart]
      -- all that is kept from here on lies behind `s`, and `s` behind what was kept last
      refine List.pairwise_append.2 ⟨by cases last <;> simp, hkept, fun kept hlast t ht => ?_⟩
      have hstop : kept.stop ≤ s.start :=
        Substitution.stop_le_of_comesFirst (hbefore kept hlast s List.mem_cons_self) hs
          (hapart kept (Option.mem_toList.1 hlast))
      rcases List.mem_cons.1 ht with rfl | ht
      · exact hstop
      · have := (List.pairwise_cons.1 hkept).1 t ht
        omega

/-- What is dropped overlaps something that comes first and is kept. -/
theorem exists_dropped (last : Option Substitution)
    (hsorted : (last.toList ++ subs).Pairwise (Substitution.comesFirst · ·)) :
    ∃ dropped, (dropOverlapping last subs ++ dropped).Perm subs ∧
      ∀ s ∈ dropped, ∃ kept ∈ last.toList ++ dropOverlapping last subs,
        kept.overlaps s = true ∧ kept.comesFirst s = true := by
  induction subs generalizing last with
  | nil => exact ⟨[], .refl _, by simp⟩
  | cons s rest ih =>
    obtain ⟨kept, rfl, hover⟩ | hapart := overlaps_or_apart last s
    · have hfirst : kept.comesFirst s = true :=
        (List.pairwise_cons.1 hsorted).1 s List.mem_cons_self
      obtain ⟨dropped, hperm, hdropped⟩ :=
        ih _ (hsorted.sublist ((List.sublist_cons_self s rest).append_left _))
      rw [dropOverlapping_of_overlaps hover]
      refine ⟨s :: dropped, List.perm_middle.trans (hperm.cons s), ?_⟩
      exact List.forall_mem_cons.2 ⟨⟨kept, List.mem_cons_self, hover, hfirst⟩, hdropped⟩
    · obtain ⟨dropped, hperm, hdropped⟩ := ih (some s) (List.pairwise_append.1 hsorted).2.1
      rw [dropOverlapping_of_apart hapart]
      refine ⟨dropped, hperm.cons s, fun t ht => ?_⟩
      obtain ⟨kept, hkept, hover⟩ := hdropped t ht
      exact ⟨kept, List.mem_append_right _ hkept, hover⟩

/-- Parts that do not overlap are gone through each by itself. -/
theorem dropOverlapping_append (last : Option Substitution) {later : List Substitution}
    (h : ∀ s ∈ last.toList ++ subs, ∀ t ∈ later, s.overlaps t = false) :
    dropOverlapping last (subs ++ later) =
      dropOverlapping last subs ++ dropOverlapping none later := by
  induction subs generalizing last with
  | nil =>
    cases later with
    | nil => rfl
    | cons t later =>
      refine dropOverlapping_of_apart fun kept hlast => ?_
      exact h kept (List.mem_append_left _ (Option.mem_toList.2 hlast)) t List.mem_cons_self
  | cons s rest ih =>
    obtain ⟨kept, rfl, hover⟩ | hapart := overlaps_or_apart last s
    · rw [List.cons_append, dropOverlapping_of_overlaps hover, dropOverlapping_of_overlaps hover]
      refine ih _ fun u hu => h u ?_
      exact ((List.sublist_cons_self s rest).append_left _).subset hu
    · rw [List.cons_append, dropOverlapping_of_apart hapart, dropOverlapping_of_apart hapart,
        List.cons_append,
        ih (some s) fun u hu => h u (List.mem_append_right _ hu)]

/-- The pass leaves substitutions as they are that follow one another. -/
theorem dropOverlapping_eq_self (last : Option Substitution)
    (h : (last.toList ++ subs).Pairwise fun s t => s.stop ≤ t.start) :
    dropOverlapping last subs = subs := by
  induction subs generalizing last with
  | nil => cases last <;> rfl
  | cons s rest ih =>
    obtain ⟨-, hrest, hbefore⟩ := List.pairwise_append.1 h
    have hapart : ∀ kept ∈ last, kept.overlaps s = false := fun kept hlast =>
      Substitution.not_overlaps_of_stop_le
        (hbefore kept (Option.mem_toList.2 hlast) s List.mem_cons_self)
    rw [dropOverlapping_of_apart hapart, ih (some s) hrest]

/-! ### Substitutions that are left -/

/-- The substitutions follow one another between two offsets, and each covers something. -/
structure Follow (pos stop : Nat) (subs : List Substitution) : Prop where
  start_lt_stop : ∀ s ∈ subs, s.start < s.stop
  le_start : ∀ s ∈ subs, pos ≤ s.start
  stop_le : ∀ s ∈ subs, s.stop ≤ stop
  ascending : subs.Pairwise fun s t => s.stop ≤ t.start

theorem pairwise_nonOverlapping (hpos : ∀ s ∈ subs, s.start < s.stop) :
    (nonOverlapping subs).Pairwise fun s t => s.stop ≤ t.start :=
  pairwise_dropOverlapping none (pairwise_comesFirst subs)
    fun s hs => hpos s (mem_stableSort.1 hs)

theorem nonOverlapping_follow {pos stop : Nat} (hpos : ∀ s ∈ subs, s.start < s.stop)
    (hstart : ∀ s ∈ subs, pos ≤ s.start) (hstop : ∀ s ∈ subs, s.stop ≤ stop) :
    Follow pos stop (nonOverlapping subs) where
  start_lt_stop s hs := hpos s (mem_of_mem_nonOverlapping hs)
  le_start s hs := hstart s (mem_of_mem_nonOverlapping hs)
  stop_le s hs := hstop s (mem_of_mem_nonOverlapping hs)
  ascending := pairwise_nonOverlapping hpos

/-- Substitutions that follow one another are all left. -/
theorem nonOverlapping_eq_self (hpos : ∀ s ∈ subs, s.start < s.stop)
    (h : subs.Pairwise fun s t => s.stop ≤ t.start) : nonOverlapping subs = subs := by
  have hsorted : subs.Pairwise (Substitution.comesFirst · ·) := by
    refine h.imp_of_mem fun {s t} hs _ hst => Substitution.comesFirst_iff.2 ?_
    have := hpos s hs
    omega
  rw [nonOverlapping, stableSort_eq_self hsorted]
  exact dropOverlapping_eq_self none h

/-- Where no two substitutions cover the same characters, their given order does not matter. -/
theorem nonOverlapping_perm {other : List Substitution}
    (hspans : (subs.map Substitution.span).Nodup) (h : other.Perm subs) :
    nonOverlapping other = nonOverlapping subs := by
  have hsort : stableSort Substitution.comesFirst subs = stableSort Substitution.comesFirst other :=
    stableSort_eq_of_perm Substitution.comesFirst_trans Substitution.comesFirst_total
      (fun s hs t ht hst hts => List.inj_on_of_nodup_map hspans hs ht
        (Substitution.span_eq_of_comesFirst hst hts)) h.symm
  rw [nonOverlapping, nonOverlapping, hsort]

/-- Overlaps are resolved apart in parts that lie one behind the other. -/
theorem nonOverlapping_append {later : List Substitution} (hpos : ∀ s ∈ subs, s.start < s.stop)
    (h : ∀ s ∈ subs, ∀ t ∈ later, s.stop ≤ t.start) :
    nonOverlapping (subs ++ later) = nonOverlapping subs ++ nonOverlapping later := by
  have hfirst : ∀ s ∈ subs, ∀ t ∈ later, s.comesFirst t = true := by
    intro s hs t ht
    have := hpos s hs
    have := h s hs t ht
    exact Substitution.comesFirst_iff.2 (.inl (by omega))
  rw [nonOverlapping, stableSort_append hfirst]
  refine dropOverlapping_append none fun s hs t ht => Substitution.not_overlaps_of_stop_le ?_
  exact h s (mem_stableSort.1 hs) t (mem_stableSort.1 ht)

/-- Let every substitution cover something. Those that are left are given ones, and follow one
another. Each of the others overlaps one that is left, which starts before it, or together with it
and stops no earlier. Resolving overlaps again changes nothing. If no two of the given substitutions
have the same start and the same stop, it does not matter in which order they are given. -/
theorem nonOverlapping_resolves (subs : List Substitution) (hpos : ∀ s ∈ subs, s.start < s.stop) :
    (∃ dropped, (nonOverlapping subs ++ dropped).Perm subs ∧
      ∀ s ∈ dropped, ∃ kept ∈ nonOverlapping subs, kept.overlaps s = true ∧
        (kept.start < s.start ∨ kept.start = s.start ∧ s.stop ≤ kept.stop)) ∧
    (nonOverlapping subs).Pairwise (fun s t => s.stop ≤ t.start) ∧
    nonOverlapping (nonOverlapping subs) = nonOverlapping subs ∧
    (subs.Pairwise (fun s t => ¬ (s.start = t.start ∧ s.stop = t.stop)) →
      ∀ other, other.Perm subs → nonOverlapping other = nonOverlapping subs) := by
  have hascending := pairwise_nonOverlapping hpos
  refine ⟨?_, hascending, ?_, fun hspans other hperm => ?_⟩
  · obtain ⟨dropped, hperm, hdropped⟩ := exists_dropped none (pairwise_comesFirst subs)
    refine ⟨dropped, hperm.trans (stableSort_perm _ subs), fun s hs => ?_⟩
    obtain ⟨kept, hkept, hover, hfirst⟩ := hdropped s hs
    exact ⟨kept, hkept, hover, Substitution.comesFirst_iff.1 hfirst⟩
  · exact nonOverlapping_eq_self (fun s hs => hpos s (mem_of_mem_nonOverlapping hs)) hascending
  · refine nonOverlapping_perm (List.pairwise_map.2 (hspans.imp fun hne heq => hne ?_)) hperm
    exact ⟨congrArg Span.start heq, congrArg Span.stop heq⟩

/-- Five substitutions, of which two pairs start together and each overlaps the next, in two
orders. -/
theorem nonOverlapping_resolves_chain :
    let sub (start stop : Nat) : Substitution := ⟨start, stop, [], []⟩
    let subs := [sub 4 8, sub 0 5, sub 4 6, sub 7 9, sub 0 3]
    (∀ s ∈ subs, s.start < s.stop) ∧
    subs.Pairwise (fun s t => ¬ (s.start = t.start ∧ s.stop = t.stop)) ∧
    nonOverlapping subs = [sub 0 5, sub 7 9] ∧
    (∃ dropped, (nonOverlapping subs ++ dropped).Perm subs ∧
      ∀ s ∈ dropped, ∃ kept ∈ nonOverlapping subs, kept.overlaps s = true ∧
        (kept.start < s.start ∨ kept.start = s.start ∧ s.stop ≤ kept.stop)) ∧
    (nonOverlapping subs).Pairwise (fun s t => s.stop ≤ t.start) ∧
    nonOverlapping (nonOverlapping subs) = nonOverlapping subs ∧
    nonOverlapping subs.reverse = nonOverlapping subs := by
  intro sub subs
  have hpos : ∀ s ∈ subs, s.start < s.stop := by decide
  have hspans : subs.Pairwise (fun s t => ¬ (s.start = t.start ∧ s.stop = t.stop)) := by decide
  obtain ⟨hdropped, hascending, hagain, hperm⟩ := nonOverlapping_resolves subs hpos
  exact ⟨hpos, hspans, by decide, hdropped, hascending, hagain,
    hperm hspans subs.reverse (List.reverse_perm subs)⟩

end MarkdownPreview.Latex
