import MarkdownPreview.Text.Blank
import MarkdownPreview.Text.Offset

/-! Texts with their line feeds replaced by carriage returns. Both are characters of one byte, so
every position stands for what it stood for, and a slice is the slice that it was with its own line
feeds replaced. A class of characters that has both or neither cuts the two texts alike. -/

namespace MarkdownPreview.Text

/-- A carriage return for a line feed, and any other character for itself. -/
def asReturn (c : Char) : Char := if c = '\n' then '\r' else c

/-- The text with every line feed replaced by a carriage return. -/
def withReturns (text : List Char) : List Char := text.map asReturn

variable (c : Char) (text u v : List Char)

/-! ### Characters -/

theorem asReturn_of_ne {c : Char} (h : c ≠ '\n') : asReturn c = c := if_neg h

@[simp] theorem utf8Size_asReturn : (asReturn c).utf8Size = c.utf8Size := by
  simp only [asReturn]
  split
  next h => rw [h]; rfl
  · rfl

/-- Only the two characters that end lines are confused. -/
theorem asReturn_eq_iff {d : Char} (hfeed : d ≠ '\n') (hreturn : d ≠ '\r') :
    asReturn c = d ↔ c = d := by
  simp only [asReturn]
  split
  next h =>
    subst h
    exact ⟨fun h => absurd h.symm hreturn, fun h => absurd h.symm hfeed⟩
  · exact Iff.rfl

theorem asReturn_ne_lineFeed : asReturn c ≠ '\n' := by
  simp only [asReturn]
  split
  · decide
  · assumption

/-- The class does not tell a carriage return from a line feed. -/
theorem apply_asReturn {p : Char → Bool} (h : p '\n' = p '\r') : p (asReturn c) = p c := by
  simp only [asReturn]
  split
  next hc => rw [hc, h]
  · rfl

/-! ### Texts -/

@[simp] theorem withReturns_nil : withReturns [] = [] := rfl

@[simp] theorem withReturns_cons : withReturns (c :: text) = asReturn c :: withReturns text := rfl

@[simp] theorem withReturns_append :
    withReturns (u ++ v) = withReturns u ++ withReturns v := List.map_append

@[simp] theorem length_withReturns : (withReturns text).length = text.length := List.length_map _

@[simp] theorem withReturns_eq_nil_iff : withReturns text = [] ↔ text = [] := List.map_eq_nil_iff

theorem withReturns_reverse : (withReturns text).reverse = withReturns text.reverse :=
  List.map_reverse.symm

theorem withReturns_drop (n : Nat) : (withReturns text).drop n = withReturns (text.drop n) :=
  List.map_drop.symm

theorem lineFeed_not_mem_withReturns : '\n' ∉ withReturns text := by
  rw [withReturns, List.mem_map]
  rintro ⟨c, -, hc⟩
  exact asReturn_ne_lineFeed c hc

theorem withReturns_of_not_mem {text : List Char} (h : '\n' ∉ text) : withReturns text = text := by
  have hself : text.map asReturn = text.map id := List.map_congr_left fun c hc =>
    asReturn_of_ne fun hfeed => h (hfeed ▸ hc)
  rw [withReturns, hself, List.map_id]

/-- A character that ends no line stands where it stood. -/
theorem exists_of_withReturns_eq_cons {d : Char} (hfeed : d ≠ '\n') (hreturn : d ≠ '\r')
    {text rest : List Char} (h : withReturns text = d :: rest) : ∃ rest, text = d :: rest := by
  obtain ⟨c, text, rfl, hc, -⟩ := List.map_eq_cons_iff.1 h
  exact ⟨text, by rw [(asReturn_eq_iff c hfeed hreturn).1 hc]⟩

theorem contains_withReturns {d : Char} (hfeed : d ≠ '\n') (hreturn : d ≠ '\r') :
    (withReturns text).contains d = text.contains d := by
  rw [Bool.eq_iff_iff, List.contains_iff_mem, List.contains_iff_mem, withReturns, List.mem_map]
  constructor
  · rintro ⟨c, hc, hd⟩
    exact (asReturn_eq_iff c hfeed hreturn).1 hd ▸ hc
  · exact fun hd => ⟨d, hd, asReturn_of_ne hfeed⟩

/-! ### Classes of characters -/

variable {p : Char → Bool} (h : p '\n' = p '\r')

include h

theorem takeWhile_withReturns :
    (withReturns text).takeWhile p = withReturns (text.takeWhile p) := by
  have hp : p ∘ asReturn = p := funext fun c => apply_asReturn c h
  rw [withReturns, List.takeWhile_map, hp]
  rfl

theorem dropWhile_withReturns :
    (withReturns text).dropWhile p = withReturns (text.dropWhile p) := by
  have hp : p ∘ asReturn = p := funext fun c => apply_asReturn c h
  rw [withReturns, List.dropWhile_map, hp]
  rfl

theorem trimEnd_withReturns : trimEnd p (withReturns text) = withReturns (trimEnd p text) := by
  rw [trimEnd, withReturns_reverse, dropWhile_withReturns _ h, withReturns_reverse, trimEnd]

omit h

theorem withoutLineEnding_withReturns :
    withoutLineEnding (withReturns text) = withReturns (withoutLineEnding text) :=
  trimEnd_withReturns text rfl

/-! ### Positions -/

@[simp] theorem byteLength_withReturns : byteLength (withReturns text) = byteLength text := by
  induction text with
  | nil => rfl
  | cons c text ih =>
    rw [withReturns_cons, byteLength_cons, byteLength_cons, utf8Size_asReturn, ih]

@[simp] theorem charOffset_withReturns (b : Nat) :
    charOffset (withReturns text) b = charOffset text b := by
  induction text generalizing b with
  | nil => rfl
  | cons c text ih => simp only [withReturns_cons, charOffset, utf8Size_asReturn, ih]

@[simp] theorem charSpan_withReturns (bytes : Span) :
    charSpan (withReturns text) bytes = charSpan text bytes := by
  simp only [charSpan, Span.map, charOffset_withReturns]

theorem dropBytes?_withReturns (b : Nat) :
    dropBytes? (withReturns text) b = (dropBytes? text b).map withReturns := by
  induction text generalizing b with
  | nil => cases b <;> rfl
  | cons c text ih =>
    cases b with
    | zero => rfl
    | succ b =>
      simp only [withReturns_cons, dropBytes?, utf8Size_asReturn, ih]
      split <;> rfl

theorem takeBytes?_withReturns (b : Nat) :
    takeBytes? (withReturns text) b = (takeBytes? text b).map withReturns := by
  induction text generalizing b with
  | nil => cases b <;> rfl
  | cons c text ih =>
    cases b with
    | zero => rfl
    | succ b =>
      simp only [withReturns_cons, takeBytes?, utf8Size_asReturn, ih]
      split
      · rw [Option.map_map, Option.map_map]
        rfl
      · rfl

theorem byteSlice?_withReturns (bytes : Span) :
    byteSlice? (withReturns text) bytes = (byteSlice? text bytes).map withReturns := by
  simp only [byteSlice?, dropBytes?_withReturns]
  split
  · rw [Option.bind_map, Option.map_bind]
    congr 1
    funext rest
    exact takeBytes?_withReturns rest _
  · rfl

end MarkdownPreview.Text
