import MarkdownPreview.Config.Format
import MarkdownPreview.Proofs.Json.Reading

/-! Configurations read back from JSON. A level that is not set has no member, and reading supplies
none for it; the options are an object of their own with a member for every flag. -/

namespace MarkdownPreview

open Json (Reads ReadsMembers)

namespace Options

/-- A flag that is not given yet is read at the place of its name. -/
theorem reads_flag {key : List Char} {n : Nat} (hkey : index? key = some n)
    {flags : List (Option Bool)} (hflag : flags[n]? = some none) (b : Bool) :
    Reads (member? key flags) (.bool b) (flags.set n (some b)) := by
  have hfield := (Json.reads_bool b).field fun flag => flags.set n (some flag)
  simpa only [member?, hkey, hflag, Option.getD_some] using hfield

theorem reads_members (o : Options) : ∃ members, o.toJson = .object members ∧
    ReadsMembers member? unset members (o.flags.map some) := by
  refine ⟨_, rfl, ?_⟩
  refine .cons (reads_flag (n := 0) rfl rfl o.gfm) ?_
  refine .cons (reads_flag (n := 1) rfl rfl o.math) ?_
  refine .cons (reads_flag (n := 2) rfl rfl o.latexBrackets) ?_
  exact .cons (reads_flag (n := 3) rfl rfl o.substituteLatex) (.nil _)

theorem reads_toJson (o : Options) : Reads ofJson? o.toJson o := by
  intro l rest hrest
  obtain ⟨members, hjson, hmembers⟩ := reads_members o
  obtain ⟨tail, htext, hread⟩ := hmembers.exists_object l hrest
  rw [hjson, htext]
  exact congrArg (Option.map fun p => (ofFlags p.1, p.2)) hread

end Options

namespace Config

/-- The members of a configuration give its fields: the level, if it is set, and the options. -/
theorem Fields.reads_members (c : Config) : ∃ members, c.toJson = .object members ∧
    ReadsMembers Fields.member? {} members ⟨c.logLevel.map some, some c.extract⟩ := by
  have hextract (f : Fields) (hf : f.extract = none) : Reads (Fields.member? extractKey f)
      c.extract.toJson { f with extract := some c.extract } := by
    have hfield := c.extract.reads_toJson.field fun o => ({ f with extract := some o } : Fields)
    rw [← hf] at hfield
    exact hfield
  refine ⟨_, rfl, ?_⟩
  cases c.logLevel with
  | none => exact .cons (hextract {} rfl) (.nil _)
  | some level =>
    have hlevel : Reads (Fields.member? levelKey {}) (.string level)
        { logLevel := some (some level) } :=
      (Json.reads_optional_string level).field fun r => ({ logLevel := some r } : Fields)
    exact .cons hlevel (.cons (hextract _ rfl) (.nil _))

theorem reads_toJson (c : Config) : Reads ofJson? c.toJson c := by
  intro l rest hrest
  obtain ⟨members, hjson, hmembers⟩ := Fields.reads_members c
  obtain ⟨tail, htext, hread⟩ := hmembers.exists_object l hrest
  have hconfig : Fields.config ⟨c.logLevel.map some, some c.extract⟩ = c := by
    obtain ⟨level, extract⟩ := c
    cases level <;> rfl
  rw [hjson, htext, ← hconfig]
  exact congrArg (Option.map fun p => (p.1.config, p.2)) hread

end Config

end MarkdownPreview
