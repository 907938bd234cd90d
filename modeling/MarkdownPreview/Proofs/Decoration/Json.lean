import MarkdownPreview.Json.Convert
import MarkdownPreview.Proofs.Json.Reading

/-! Decorations read back from JSON. The text of a decoration holds all there is to it, in every
layout: an absent replacement is a member that is not there, and an empty one is a member with an
empty text. So no two decorations share a text. -/

namespace MarkdownPreview.Decoration

open Json (Reads ReadsMembers Layout)

/-- Both ends are offsets that fit in 64 bits. -/
def InWords (d : Decoration) : Prop := d.start ≤ Text.maxWord ∧ d.stop ≤ Text.maxWord

instance (d : Decoration) : Decidable d.InWords := inferInstanceAs (Decidable (_ ∧ _))

theorem Kind.reads_name (k : Kind) : Reads Kind.ofJson? (.string k.name.toList) k := by
  intro l rest hrest
  have hname : Json.string? (Json.quote k.name.toList ++ rest) = some (k.name.toList, rest) :=
    Json.string?_quote _ rest
  change ((Json.string? (Json.quote k.name.toList ++ rest)).bind fun p =>
    (Kind.ofName? p.1).bind fun kind => some (kind, p.2)) = _
  rw [hname]
  simp only [Option.bind_some, Kind.ofName?_name]

/-- The members of a decoration give its fields one after another. -/
theorem Fields.reads_members (d : Decoration) (hd : d.InWords) :
    ∃ members, d.toJson = .object members ∧
      ReadsMembers Fields.member? {} members
        ⟨some d.start, some d.stop, some d.kind, d.replacement.map some⟩ := by
  let first : Fields := { start := some d.start }
  let second : Fields := { first with stop := some d.stop }
  let third : Fields := { second with kind := some d.kind }
  have hstart : Reads (Fields.member? "startPos".toList {}) (.natural d.start) first :=
    (Json.reads_natural hd.1).field fun n => ({ start := some n } : Fields)
  have hstop : Reads (Fields.member? "endPos".toList first) (.natural d.stop) second :=
    (Json.reads_natural hd.2).field fun n => ({ first with stop := some n } : Fields)
  have hkind : Reads (Fields.member? "type".toList second) (.string d.kind.name.toList) third :=
    d.kind.reads_name.field fun k => ({ second with kind := some k } : Fields)
  refine ⟨_, rfl, .cons hstart (.cons hstop (.cons hkind ?_))⟩
  cases d.replacement with
  | none => exact .nil _
  | some text =>
    have htext : Reads (Fields.member? "replacement".toList third) (.string text)
        { third with replacement := some (some text) } :=
      (Json.reads_optional_string text).field fun r =>
        ({ third with replacement := some r } : Fields)
    exact .cons htext (.nil _)

theorem reads_toJson (d : Decoration) (hd : d.InWords) : Reads ofJson? d.toJson d := by
  intro l rest hrest
  obtain ⟨members, hjson, hmembers⟩ := Fields.reads_members d hd
  obtain ⟨tail, htext, hread⟩ := hmembers.exists_object l hrest
  have hfields : Fields.decoration? ⟨some d.start, some d.stop, some d.kind,
      d.replacement.map some⟩ = some d := by
    obtain ⟨start, stop, kind, replacement⟩ := d
    cases replacement <;> rfl
  rw [hjson, htext]
  change ((Json.object? Fields.member? {} ('\x7b' :: tail)).bind fun p =>
    p.1.decoration?.bind fun d => some (d, p.2)) = _
  rw [hread]
  simp only [Option.bind_some, hfields]

/-- A decoration whose ends fit in 64 bits is read back from its text, in whatever layout that is.
Decorations with one text are therefore one decoration, whatever their layouts, and with no
replacement the text is another one than with an empty replacement. -/
theorem parse?_render_toJson (d : Decoration) (hd : d.InWords) :
    parse? d.print = some d ∧ (∀ l, parse? (d.toJson.render l) = some d) ∧
      (∀ e : Decoration, e.InWords → ∀ l m, e.toJson.render m = d.toJson.render l → e = d) ∧
      { d with replacement := none }.print ≠ { d with replacement := some [] }.print := by
  have hread : ∀ e : Decoration, e.InWords → ∀ l, parse? (e.toJson.render l) = some e :=
    fun e he l => Json.document?_render (reads_toJson e he) l
  refine ⟨hread d hd .line, hread d hd, fun e he l m heq => ?_, fun heq => ?_⟩
  · have hsame := hread e he m
    rw [heq, hread d hd l] at hsame
    exact (Option.some.inj hsame).symm
  · have hsame := hread { d with replacement := none } hd .line
    have hempty := hread { d with replacement := some [] } hd .line
    rw [show Json.render .line (toJson { d with replacement := none }) = _ from heq] at hsame
    exact absurd (Option.some.inj (hsame.symm.trans hempty)) (by simp)

/-- A symbol over the last offsets of 64 bits, replaced by a text that needs escapes, and another
one with an empty replacement. -/
theorem parse?_render_toJson_escapes :
    let d : Decoration := ⟨18446744073709551614, 18446744073709551615, .mathSymbol,
      some ['"', '\\', '\n', '\x01', '\x7f', 'é', '𝔸']⟩
    let e : Decoration := ⟨18446744073709551614, 18446744073709551615, .mathSymbol, some []⟩
    d.InWords ∧ e.InWords ∧ parse? d.print = some d ∧
      (∀ l, parse? (d.toJson.render l) = some d) ∧
      (∀ l m, e.toJson.render m = d.toJson.render l → e = d) ∧
      { d with replacement := none }.print ≠ { d with replacement := some [] }.print := by
  intro d e
  have hd : d.InWords := by decide
  have he : e.InWords := by decide
  obtain ⟨hprint, hlayouts, hinjective, habsent⟩ := parse?_render_toJson d hd
  exact ⟨hd, he, hprint, hlayouts, hinjective e he, habsent⟩

end MarkdownPreview.Decoration
