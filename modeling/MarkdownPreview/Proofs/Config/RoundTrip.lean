import MarkdownPreview.Config.Store
import MarkdownPreview.Proofs.Config.Json
import MarkdownPreview.Proofs.Toml.Lines

/-! Configurations that are saved and loaded again. In TOML, the level stands ahead of the header of
the options, so that it does not become one of them. -/

namespace MarkdownPreview

open Toml (Entries Value)

/-! ### TOML -/

namespace Options

/-- The lines that give the flags, with the values that they are read as. -/
def flagLines (o : Options) : List (List Char × List Char × Value) :=
  (names.zip o.flags).map fun (name, flag) =>
    (name.toList, (if flag then "true" else "false").toList, .bool flag)

theorem map_fst_flagLines (o : Options) : o.flagLines.map (·.1) = names.map (·.toList) := rfl

theorem bareKey_of_mem_flagLines {o : Options} {p : List Char × List Char × Value}
    (h : p ∈ o.flagLines) : Toml.BareKey p.1 := by
  have hall : ∀ key ∈ names.map (·.toList), Toml.BareKey key := by decide +kernel
  rw [← map_fst_flagLines o] at hall
  exact hall p.1 (List.mem_map_of_mem h)

theorem isValue_of_mem_flagLines {o : Options} {p : List Char × List Char × Value}
    (h : p ∈ o.flagLines) : Toml.IsValue p.2.1 p.2.2 := by
  obtain ⟨⟨name, flag⟩, -, rfl⟩ := List.mem_map.1 h
  exact Toml.isValue_flag flag

end Options

namespace Config

/-- The entries of a configuration's document. -/
def tomlEntries (c : Config) : Entries :=
  (c.logLevel.map fun level => (levelKey, Value.string level)).toList ++
    [(extractKey, .table .headed (c.extract.flagLines.map fun p => (p.1, p.2.2)))]

theorem ofToml?_tomlEntries (c : Config) : ofToml? c.tomlEntries = some c := by
  obtain ⟨level, extract⟩ := c
  cases level <;> rfl

theorem toToml_eq (c : Config) : c.toToml =
    (c.logLevel.map fun level => tomlLine levelKey (Toml.quote level) ++ ['\n']).getD [] ++
      ('[' :: extractKey ++ "]\n".toList ++
        c.extract.flagLines.flatMap fun p => tomlLine p.1 p.2.1) := by
  obtain ⟨level, extract⟩ := c
  have hflags : (Options.names.zip extract.flags).flatMap (fun (name, flag) =>
      tomlLine name.toList (if flag then "true" else "false").toList) =
        extract.flagLines.flatMap fun p => tomlLine p.1 p.2.1 := by
    rw [Options.flagLines, List.flatMap_map]
  simp only [toToml, hflags]
  cases level <;> simp

/-- The table of the options fills a new table of the document. -/
theorem lines?_extract (o : Options) {entries : Entries} (hnew : extractKey ∉ entries.map (·.1))
    (fuel : Nat) : Toml.Document.lines? (fuel + 6) ⟨[], entries⟩
        ('[' :: extractKey ++ "]\n".toList ++ o.flagLines.flatMap fun p => tomlLine p.1 p.2.1) =
      some ⟨[extractKey], entries ++
        [(extractKey, .table .headed (o.flagLines.map fun p => (p.1, p.2.2)))]⟩ := by
  have hkey : Toml.BareKey extractKey := by decide +kernel
  have hnodup : (([] : Entries).map (·.1) ++ o.flagLines.map (·.1)).Nodup := by
    rw [Options.map_fst_flagLines]
    decide +kernel
  have hheader := Toml.Document.lines?_header (d := ⟨[], entries⟩) hkey hnew (fuel + 5)
    (o.flagLines.flatMap fun p => tomlLine p.1 p.2.1)
  have htable := Toml.Document.lines?_table hnew (fun p hp => Options.bareKey_of_mem_flagLines hp)
    (fun p hp => Options.isValue_of_mem_flagLines hp) hnodup (fuel + 1) []
  rw [List.append_nil] at htable
  exact hheader.trans (htable.trans (Toml.Document.lines?_nil fuel _))

theorem lines?_toToml (c : Config) (fuel : Nat) : Toml.Document.lines? (fuel + 8) {} c.toToml =
    some ⟨[extractKey], c.tomlEntries⟩ := by
  rw [toToml_eq]
  obtain ⟨level, extract⟩ := c
  cases level with
  | none => exact lines?_extract extract (by simp) (fuel + 2)
  | some level =>
    have hkey : Toml.BareKey levelKey := by decide +kernel
    have hempty : levelKey ∉ ([] : Entries).map (·.1) := List.not_mem_nil
    have hentry : Entries.update? false (fun _ inner => inner.insertAt? [] levelKey (.string level))
        [] .headed [] = some [(levelKey, .string level)] := by
      rw [Entries.update?, Entries.insertAt?_nil hempty, List.nil_append]
    have hlevel := Toml.Document.lines?_tomlLine (d := {}) hkey (Toml.isValue_quote level) hentry
      (fuel + 7)
    have hnew : extractKey ∉ ([(levelKey, Value.string level)] : Entries).map (·.1) := by
      simp only [List.map_cons, List.map_nil]
      decide +kernel
    simp only [Option.map_some, Option.getD_some, List.append_assoc]
    rw [hlevel, List.singleton_append, Toml.Document.lines?_blank]
    exact lines?_extract extract hnew fuel

theorem parse?_toToml (c : Config) : Toml.parse? c.toToml = some c.tomlEntries := by
  have hmark : Toml.skipByteOrderMark c.toToml = c.toToml := by
    rw [toToml_eq]
    obtain ⟨level, extract⟩ := c
    cases level <;> rfl
  have hlength : 8 ≤ c.toToml.length + 1 := by
    have hheader : ('[' :: extractKey ++ "]\n".toList).length = 10 := rfl
    rw [toToml_eq, List.length_append, List.length_append, hheader]
    omega
  obtain ⟨fuel, hfuel⟩ := Nat.exists_eq_add_of_le' hlength
  simp only [Toml.parse?, hmark, hfuel, lines?_toToml, Option.map_some]

/-! ### Both formats -/

/-- A format reads the configurations that it writes. -/
theorem Format.read?_write (format : Format) (c : Config) :
    format.read? (format.write c) = some c := by
  cases format with
  | json => exact Json.document?_render (reads_toJson c) (.indented 0)
  | toml =>
    have hparse := parse?_toToml c
    simp only [Format.read?, Format.write, hparse, Option.bind_some, ofToml?_tomlEntries]

/-- A configuration that is saved in a file of either format, whatever its level is, is loaded from
it again, whatever the other files hold. -/
theorem load_save (c : Config) {p : Path}
    (h : p.extension? = some "json".toList ∨ p.extension? = some "toml".toList) :
    ∃ text, c.save p = .ok text ∧ ∀ files : Files, files p = .ok text → load files p = .ok c := by
  obtain ⟨format, hformat⟩ : ∃ format, format? p = some format := by
    rcases h with h | h
    · exact ⟨.json, by simp [format?, h]⟩
    · exact ⟨.toml, by simp [format?, h]⟩
  refine ⟨format.write c, by rw [save, hformat], fun files hfile => ?_⟩
  simp only [load, hformat, hfile, Format.read?_write]

/-- A level that needs escapes, between quotes of all kinds. -/
theorem load_save_escapes :
    let c : Config := ⟨some "\"\"\" \\ ''' \r\n\u007f".toList, { math := false }⟩
    (∃ text, c.save "livemark.json".toList = .ok text ∧ ∀ files : Files,
      files "livemark.json".toList = .ok text → load files "livemark.json".toList = .ok c) ∧
    ∃ text, c.save "livemark.toml".toList = .ok text ∧ ∀ files : Files,
      files "livemark.toml".toList = .ok text → load files "livemark.toml".toList = .ok c :=
  ⟨load_save _ (.inl (by decide +kernel)), load_save _ (.inr (by decide +kernel))⟩

end Config

end MarkdownPreview
