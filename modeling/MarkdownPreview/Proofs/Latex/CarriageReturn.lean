import MarkdownPreview.Proofs.Latex.Placement
import MarkdownPreview.Proofs.Latex.Shift
import MarkdownPreview.Proofs.Text.CarriageReturn

/-! LaTeX with its line feeds replaced by carriage returns. A command is named by letters and signs,
and no alphabet has either of the two characters, so the same constructs are found in the same
places. An argument keeps its characters where it is drawn, the replaced ones included. -/

namespace MarkdownPreview.Latex

open Text

/-! ### Alphabets -/

theorem Alphabet.styled?_lineEnding (a : Alphabet) :
    a.styled? '\n' = none ∧ a.styled? '\r' = none := by
  cases a <;> decide

/-- No alphabet draws a character as one that ends a line. -/
theorem Alphabet.ne_of_styled? {a : Alphabet} {c d : Char} (h : a.styled? c = some d) :
    d ≠ '\n' := by
  have hpairs : ∀ p ∈ a.pairs, p.2 ≠ '\n' := by cases a <;> decide
  obtain ⟨p, hp, rfl⟩ := Option.map_eq_some_iff.1 h
  exact hpairs p (List.mem_of_find?_eq_some hp)

/-- What an alphabet makes of a character is what it makes of the replaced one, replaced. Either the
alphabet leaves the character as it is, or none of the two ends a line. -/
theorem Alphabet.styled_asReturn (a : Alphabet) (c : Char) :
    (a.styled? (asReturn c)).getD (asReturn c) = asReturn ((a.styled? c).getD c) := by
  by_cases hc : c = '\n'
  · subst hc
    have hreturn : asReturn '\n' = '\r' := rfl
    simp [hreturn, a.styled?_lineEnding]
  · rw [asReturn_of_ne hc]
    cases hd : a.styled? c with
    | none => simp [asReturn_of_ne hc]
    | some d => simp [asReturn_of_ne (Alphabet.ne_of_styled? hd)]

theorem Alphabet.restyle_withReturns (a : Alphabet) (text : List Char) :
    a.restyle (withReturns text) = withReturns (a.restyle text) := by
  simp only [restyle, withReturns, List.map_map]
  exact List.map_congr_left fun c _ => a.styled_asReturn c

/-- Replacing line feeds does not hide that a text was styled. -/
theorem Alphabet.restyle_withReturns_eq_iff (a : Alphabet) (text : List Char) :
    a.restyle (withReturns text) = withReturns text ↔ a.restyle text = text := by
  rw [a.restyle_withReturns]
  induction text with
  | nil => exact Iff.rfl
  | cons c text ih =>
    have hchar : asReturn ((a.styled? c).getD c) = asReturn c ↔ (a.styled? c).getD c = c := by
      cases hd : a.styled? c with
      | none => simp
      | some d =>
        have hc : c ≠ '\n' := by
          rintro rfl
          simp [a.styled?_lineEnding] at hd
        simp [asReturn_of_ne hc, asReturn_of_ne (Alphabet.ne_of_styled? hd)]
    have hcons : a.restyle (c :: text) = (a.styled? c).getD c :: a.restyle text := rfl
    rw [hcons, withReturns_cons, withReturns_cons, List.cons.injEq, List.cons.injEq, hchar, ih]

/-! ### Constructs -/

def Fragment.withReturns (f : Fragment) : Fragment :=
  ⟨Text.withReturns f.source, f.display.map Text.withReturns⟩

/-- A construct is recognised and drawn alike with its line feeds replaced. -/
def ReadsReturns (construct? : List Char → Option Fragment) : Prop :=
  ∀ text, construct? (withReturns text) = (construct? text).map Fragment.withReturns

theorem withReturns_inBraces (arg : List Char) :
    withReturns (inBraces arg) = inBraces (withReturns arg) := by
  simp only [inBraces, withReturns_cons, List.cons_append, withReturns_append, withReturns_nil]
  rfl

theorem braced?_withReturns (text : List Char) :
    braced? (withReturns text) = (braced? text).map withReturns := by
  cases text with
  | nil => rfl
  | cons c rest =>
    simp only [withReturns_cons, braced?_cons, asReturn_eq_iff c (show '{' ≠ '\n' by decide)
      (by decide), contains_withReturns rest (show '}' ≠ '\n' by decide) (by decide),
      takeWhile_withReturns rest (p := (· != '}')) rfl]
    split <;> rfl

/-- A symbol is drawn without line feeds. -/
theorem withReturns_symbol? {name display : List Char} (h : symbol? name = some display) :
    withReturns display = display := by
  have hsymbols : ∀ p ∈ symbols, '\n' ∉ p.2.toList := by decide +kernel
  obtain ⟨p, hp, rfl⟩ := Option.map_eq_some_iff.1 h
  exact withReturns_of_not_mem (hsymbols p (List.mem_of_find?_eq_some hp))

theorem map_withReturns_symbol? (name : List Char) :
    (symbol? name).map withReturns = symbol? name := by
  cases h : symbol? name with
  | none => rfl
  | some display => rw [Option.map_some, withReturns_symbol? h]

theorem commandDisplay?_withReturns (name : List Char) (arg : Option (List Char)) :
    commandDisplay? name (arg.map withReturns) = (commandDisplay? name arg).map withReturns := by
  cases arg with
  | none => exact (map_withReturns_symbol? name).symm
  | some arg =>
    have hroot : withReturns ('√' :: arg) = '√' :: withReturns arg := rfl
    simp only [Option.map_some, commandDisplay?, ne_eq, withReturns_eq_nil_iff,
      Alphabet.restyle_withReturns]
    split
    · rfl
    split
    · rfl
    split
    · rfl
    split
    · rw [Option.map_some, hroot]
    split
    · cases h : symbol? name with
      | none => rfl
      | some mark =>
        simp only [Option.map_some, withReturns_append, withReturns_symbol? h]
    · rfl

/-- The name of a command has no line feed. -/
theorem withReturns_takeWhile_isLetter (text : List Char) :
    withReturns (text.takeWhile isLetter) = text.takeWhile isLetter := by
  refine withReturns_of_not_mem fun h => ?_
  have hfeed := List.all_eq_true.1 (List.all_takeWhile (p := isLetter) (l := text)) _ h
  exact absurd hfeed (by decide)

theorem readsReturns_command? : ReadsReturns command? := by
  intro text
  cases text with
  | nil => rfl
  | cons c rest =>
    by_cases hc : c = '\\'
    · subst hc
      have hbackslash : asReturn '\\' = '\\' := rfl
      have hname := withReturns_takeWhile_isLetter rest
      simp only [withReturns_cons, hbackslash, command?, takeWhile_withReturns rest (p := isLetter)
        rfl, hname, dropWhile_withReturns rest (p := isLetter) rfl, braced?_withReturns]
      split
      · cases rest with
        | nil => rfl
        | cons d tail =>
          by_cases hd : d = '\n'
          · subst hd
            rfl
          · simp only [withReturns_cons, asReturn_of_ne hd]
            split
            · simp [Fragment.withReturns, map_withReturns_symbol?, hbackslash, asReturn_of_ne hd]
            · rfl
      · have hdisplay := commandDisplay?_withReturns (rest.takeWhile isLetter)
        cases braced? (rest.dropWhile isLetter) with
        | none =>
          simp only [Option.map_none, Option.map_some, Fragment.withReturns, withReturns_cons,
            hbackslash, hname, ← hdisplay]
        | some arg =>
          simp only [Option.map_some, Fragment.withReturns, withReturns_cons, withReturns_append,
            List.cons_append, hbackslash, hname, withReturns_inBraces, ← hdisplay]
    · have hreturn := mt (asReturn_eq_iff c (by decide) (by decide)).1 hc
      rw [withReturns_cons, command?_of_ne hreturn, command?_of_ne hc, Option.map_none]

theorem scriptFragment_withReturns (a : Alphabet) (content source : List Char) :
    scriptFragment a (withReturns content) (withReturns source) =
      (scriptFragment a content source).withReturns := by
  simp only [scriptFragment, Fragment.withReturns, a.restyle_withReturns_eq_iff]
  split
  · rfl
  · rw [a.restyle_withReturns, Option.map_some]

theorem readsReturns_script? : ReadsReturns script? := by
  intro text
  cases text with
  | nil => rfl
  | cons c rest =>
    have hsign : scriptAlphabet? (asReturn c) = scriptAlphabet? c := by
      by_cases hc : c = '\n'
      · subst hc
        rfl
      · rw [asReturn_of_ne hc]
    simp only [withReturns_cons, script?, hsign, braced?_withReturns]
    cases scriptAlphabet? c with
    | none => rfl
    | some a =>
      cases braced? rest with
      | some arg =>
        simp only [Option.map_some, withReturns_eq_nil_iff]
        split
        · rfl
        · rw [← withReturns_inBraces, ← withReturns_cons, scriptFragment_withReturns,
            Option.map_some]
      | none =>
        cases rest with
        | nil => rfl
        | cons d tail =>
          simp only [Option.map_none, withReturns_cons,
            apply_asReturn d (p := isLetterOrDigit) rfl]
          split
          · exact congrArg some (scriptFragment_withReturns a [d] [c, d])
          · rfl

theorem after?_withReturns {head : List Char} (hhead : ∀ c ∈ head, c ≠ '\n' ∧ c ≠ '\r')
    (text : List Char) : after? head (withReturns text) = (after? head text).map withReturns := by
  induction head generalizing text with
  | nil => rfl
  | cons d head ih =>
    obtain ⟨⟨hfeed, hreturn⟩, hhead⟩ := List.forall_mem_cons.1 hhead
    cases text with
    | nil => rfl
    | cons c text =>
      simp only [withReturns_cons, after?, ih hhead, eq_comm (a := d),
        asReturn_eq_iff c hfeed hreturn]
      split <;> rfl

theorem readsReturns_fraction? : ReadsReturns fraction? := by
  intro text
  have hfrac : after? "\\frac".toList (withReturns text) =
      (after? "\\frac".toList text).map withReturns := after?_withReturns (by simp) text
  have hname : withReturns "\\frac".toList = "\\frac".toList := withReturns_of_not_mem (by simp)
  simp only [fraction?, hfrac, Option.bind_eq_bind]
  cases after? "\\frac".toList text with
  | none => rfl
  | some rest =>
    simp only [Option.map_some, Option.bind_some, braced?_withReturns]
    cases hnum : braced? rest with
    | none => rfl
    | some num =>
      -- the first argument stands where it is read, so what follows it can be named
      obtain ⟨rest, rfl⟩ := braced?_isPrefix hnum
      simp only [Option.map_some, Option.bind_some, withReturns_append, withReturns_inBraces,
        after?_append, braced?_withReturns]
      cases braced? rest with
      | none => rfl
      | some den =>
        simp only [Option.map_some, Option.bind_some, Fragment.withReturns, withReturns_append,
          withReturns_inBraces, hname, withReturns_cons]
        rfl

/-! ### Scans -/

def Substitution.withReturns (s : Substitution) : Substitution :=
  { s with source := Text.withReturns s.source, display := Text.withReturns s.display }

theorem scanFrom_withReturns {construct? : List Char → Option Fragment}
    (hc : ReadsReturns construct?) (pos skip : Nat) (text : List Char) :
    scanFrom construct? pos skip (withReturns text) =
      (scanFrom construct? pos skip text).map (·.withReturns) := by
  induction text generalizing pos skip with
  | nil => rfl
  | cons c rest ih =>
    cases skip with
    | succ skip => exact ih (pos + 1) skip
    | zero =>
      have hhead := hc (c :: rest)
      rw [withReturns_cons] at hhead ⊢
      simp only [scanFrom, hhead]
      cases construct? (c :: rest) with
      | none => exact ih (pos + 1) 0
      | some f =>
        simp only [Option.map_some, Fragment.withReturns, length_withReturns, ih, List.map_append]
        congr 1
        cases f.display <;> rfl

/-- The substitutions that are left in a text are left with its line feeds replaced. -/
theorem nonOverlapping_withReturns (text : List Char) (offset : Nat) :
    nonOverlapping (findSubstitutions (withReturns text) offset) =
      (nonOverlapping (findSubstitutions text offset)).map (·.withReturns) := by
  have hfind : findSubstitutions (withReturns text) offset =
      (findSubstitutions text offset).map (·.withReturns) := by
    simp only [findSubstitutions, commands, scripts, fractions,
      scanFrom_withReturns readsReturns_command?, scanFrom_withReturns readsReturns_script?,
      scanFrom_withReturns readsReturns_fraction?, List.map_append]
  have hfirst (s t : Substitution) :
      s.withReturns.comesFirst t.withReturns = s.comesFirst t := rfl
  have hover (s t : Substitution) : s.withReturns.overlaps t.withReturns = s.overlaps t := rfl
  rw [hfind, nonOverlapping_map hfirst hover]

end MarkdownPreview.Latex
