import MarkdownPreview.Config.Format
import MarkdownPreview.Proofs.Toml.Strings

/-! TOML documents read line by line. A line with a bare key adds its value to the table that is
open, a header opens a new one, and a blank line does nothing. Every line takes one step of the
reader, so a document is followed line by line. -/

namespace MarkdownPreview.Toml

open Config (tomlLine)

/-! ### Entries -/

namespace Entries

variable {entries inner : Entries} {key k : List Char} {v : Value}

theorem find?_eq_none_iff : find? entries key = none ↔ key ∉ entries.map (·.1) := by
  rw [find?, Option.map_eq_none_iff, List.find?_eq_none]
  simp only [beq_iff_eq, List.mem_map, not_exists, not_and]

theorem find?_append_singleton (h : key ∉ entries.map (·.1)) :
    find? (entries ++ [(key, v)]) key = some v := by
  have hnone := find?_eq_none_iff.2 h
  rw [find?, Option.map_eq_none_iff] at hnone
  simp [find?, List.find?_append, hnone]

theorem insertAt?_nil (h : key ∉ entries.map (·.1)) :
    insertAt? entries [] key v = some (entries ++ [(key, v)]) := by
  have hnone := find?_eq_none_iff.2 h
  simp [insertAt?, update?, insert?, hnone]

theorem beginTable?_nil (h : key ∉ entries.map (·.1)) :
    beginTable? entries [] key = some (entries ++ [(key, .table .headed [])]) := by
  have hnone := find?_eq_none_iff.2 h
  simp [beginTable?, update?, hnone]

theorem replace_append_singleton {w : Value} (h : key ∉ entries.map (·.1)) :
    replace (entries ++ [(key, v)]) key w = entries ++ [(key, w)] := by
  have hother : ∀ e ∈ entries, (if e.1 == key then (key, w) else e) = e := fun e he => by
    rw [if_neg]
    rw [beq_iff_eq]
    rintro rfl
    exact h (List.mem_map_of_mem he)
  rw [replace, List.map_append, List.map_congr_left hother, List.map_id']
  simp

/-- The change of a table that has a header of its own, the last of a document. -/
theorem update?_last {change : TableForm → Entries → Option Entries} {changed : Entries}
    (h : k ∉ entries.map (·.1)) (hchange : change .headed inner = some changed) :
    update? false change [k] .headed (entries ++ [(k, .table .headed inner)]) =
      some (entries ++ [(k, .table .headed changed)]) := by
  simp [update?, find?_append_singleton h, hchange, replace_append_singleton h]

end Entries

/-! ### Keys and values -/

/-- A key that is written without quotes. -/
structure BareKey (key : List Char) : Prop where
  ne_nil : key ≠ []
  all_bare : key.all isBareKey = true

instance (key : List Char) : Decidable (BareKey key) :=
  decidable_of_iff (key ≠ [] ∧ key.all isBareKey = true)
    ⟨fun h => ⟨h.1, h.2⟩, fun h => ⟨h.1, h.2⟩⟩

theorem BareKey.isBareKey_of_mem {key : List Char} (h : BareKey key) :
    ∀ c ∈ key, isBareKey c = true := List.all_eq_true.1 h.all_bare

/-- What a bare key starts with is no white space, and starts nothing else. -/
theorem BareKey.exists_cons {key : List Char} (h : BareKey key) :
    ∃ c tail, key = c :: tail ∧ isBareKey c = true ∧ isSpace c = false ∧ c ≠ '"' ∧ c ≠ '\'' ∧
      c ≠ '[' ∧ c ≠ '#' ∧ c ≠ '\n' ∧ c ≠ '\r' := by
  cases key with
  | nil => exact absurd rfl h.ne_nil
  | cons c tail =>
    have hc := h.isBareKey_of_mem c List.mem_cons_self
    refine ⟨c, tail, rfl, hc, ?_⟩
    have hspace : isSpace c = false := by
      simp only [isSpace, Bool.or_eq_false_iff, beq_eq_false_iff_ne]
      constructor <;> rintro rfl <;> exact absurd hc (by decide)
    refine ⟨hspace, ?_, ?_, ?_, ?_, ?_, ?_⟩ <;> rintro rfl <;> exact absurd hc (by decide)

theorem skipSpace_cons {c : Char} (h : isSpace c = false) (rest : List Char) :
    skipSpace (c :: rest) = c :: rest := by
  rw [skipSpace, List.dropWhile_cons_of_neg (by simp [h])]

/-- A bare key is read up to what follows it: white space or a closing bracket. -/
theorem key?_bare {key rest after : List Char} (h : BareKey key)
    (hrest : ∀ c ∈ rest.head?, isBareKey c = false) (hafter : skipSpace rest = after)
    (hdot : after.head? ≠ some '.') : key? (key ++ rest) = some (([], key), after) := by
  obtain ⟨c, tail, hkey, hc, hspace, hquote, hapostrophe, -⟩ := h.exists_cons
  have hpart : keyPart? (skipSpace (key ++ rest)) = some (key, rest) := by
    have htake := Text.takeWhile_append_of_head? h.isBareKey_of_mem hrest
    have hdrop := Text.dropWhile_append_of_head? h.isBareKey_of_mem hrest
    rw [hkey, List.cons_append] at htake hdrop ⊢
    rw [skipSpace_cons hspace, keyPart?]
    · rw [if_pos hc, htake, hdrop]
    · exact hquote
    · exact hapostrophe
  have hparts : keyParts? ((key ++ rest).length + 1) (key ++ rest) = some ([key], after) := by
    rw [keyParts?, hpart]
    simp only [Option.bind_eq_bind, Option.bind_some, hafter]
    split
    · exact absurd rfl hdot
    · rfl
  simp only [key?, hparts, Option.bind_eq_bind, Option.bind_some]
  rfl

/-- The text is a value, read up to the end of its line. -/
structure IsValue (text : List Char) (v : Value) : Prop where
  reads : ∀ fuel rest, value? (fuel + 1) 0 (text ++ '\n' :: rest) = some (v, '\n' :: rest)
  skipSpace_eq : ∀ rest, skipSpace (text ++ rest) = text ++ rest

/-- A string starts with one of the two quotes. -/
theorem exists_quote (text : List Char) :
    ∃ c tail, quote text = c :: tail ∧ (c = '"' ∨ c = '\'') := by
  rw [quote]
  cases StringForm.of text with
  | basic | basicLines => exact ⟨_, _, rfl, .inl rfl⟩
  | literal | literalLines => exact ⟨_, _, rfl, .inr rfl⟩

theorem isValue_quote (text : List Char) : IsValue (quote text) (.string text) := by
  obtain ⟨c, tail, hquote, hc⟩ := exists_quote text
  refine ⟨fun fuel rest => ?_, fun rest => ?_⟩
  · have hread : string? (quote text ++ '\n' :: rest) = some (text, '\n' :: rest) :=
      string?_quote text (by simp) (by simp)
    rw [hquote, List.cons_append] at hread ⊢
    rw [value?]
    simp only [if_pos hc, hread]
    rfl
  · rw [hquote]
    refine skipSpace_cons ?_ _
    rcases hc with rfl | rfl <;> rfl

theorem isValue_flag (b : Bool) : IsValue (if b then "true" else "false").toList (.bool b) := by
  cases b with
  | false => exact ⟨fun fuel rest => rfl, fun rest => rfl⟩
  | true => exact ⟨fun fuel rest => rfl, fun rest => rfl⟩

/-! ### Lines -/

namespace Document

variable {d : Document} {key value : List Char} {v : Value} {entries : Entries}

theorem pair?_tomlLine (hkey : BareKey key) (hvalue : IsValue value v)
    (hentries : d.entries.update? false (fun _ inner => inner.insertAt? [] key v) d.header .headed =
      some entries) (rest : List Char) :
    d.pair? (tomlLine key value ++ rest) = some (⟨d.header, entries⟩, rest) := by
  have hline : tomlLine key value ++ rest =
      key ++ (' ' :: '=' :: ' ' :: (value ++ '\n' :: rest)) := by
    simp [tomlLine]
  have hname : key? (key ++ (' ' :: '=' :: ' ' :: (value ++ '\n' :: rest))) =
      some (([], key), '=' :: ' ' :: (value ++ '\n' :: rest)) :=
    key?_bare hkey (by simp [isBareKey]) rfl (by simp)
  have hskip : skipSpace (' ' :: (value ++ '\n' :: rest)) = value ++ '\n' :: rest :=
    hvalue.skipSpace_eq _
  have hend : lineEnd? ('\n' :: rest) = some rest := rfl
  have hequals : after? '=' ('=' :: ' ' :: (value ++ '\n' :: rest)) =
      some (' ' :: (value ++ '\n' :: rest)) := rfl
  rw [hline, pair?]
  simp only [hname, hequals, hskip, hvalue.reads, hentries, hend, Option.bind_eq_bind,
    Option.bind_some]

/-- A line that gives a key its value. -/
theorem lines?_tomlLine (hkey : BareKey key) (hvalue : IsValue value v)
    (hentries : d.entries.update? false (fun _ inner => inner.insertAt? [] key v) d.header .headed =
      some entries) (fuel : Nat) (rest : List Char) :
    lines? (fuel + 1) d (tomlLine key value ++ rest) = lines? fuel ⟨d.header, entries⟩ rest := by
  obtain ⟨c, tail, hc, -, hspace, -, -, hbracket, hcomment, hfeed, hreturn⟩ := hkey.exists_cons
  have hpair := pair?_tomlLine hkey hvalue hentries rest
  have hline : tomlLine key value ++ rest =
      c :: (tail ++ (' ' :: '=' :: ' ' :: (value ++ '\n' :: rest))) := by
    simp [tomlLine, hc]
  rw [hline] at hpair ⊢
  rw [lines?, skipSpace_cons hspace]
  simp only [hbracket, hcomment, hfeed, hreturn, or_self, if_false, hpair, Option.bind_some]

theorem lines?_blank (fuel : Nat) (d : Document) (rest : List Char) :
    lines? (fuel + 1) d ('\n' :: rest) = lines? fuel d rest := rfl

theorem lines?_nil (fuel : Nat) (d : Document) : lines? (fuel + 1) d [] = some d := rfl

theorem header?_new (hkey : BareKey key) (hnew : key ∉ d.entries.map (·.1)) (rest : List Char) :
    d.header? (key ++ ']' :: '\n' :: rest) =
      some (⟨[key], d.entries ++ [(key, .table .headed [])]⟩, rest) := by
  obtain ⟨c, tail, hc, -, -, -, -, hbracket, -⟩ := hkey.exists_cons
  have hname : key? (key ++ ']' :: '\n' :: rest) = some (([], key), ']' :: '\n' :: rest) :=
    key?_bare hkey (by simp [isBareKey]) rfl (by simp)
  have hclose : after? ']' (']' :: '\n' :: rest) = some ('\n' :: rest) := rfl
  have hend : lineEnd? ('\n' :: rest) = some rest := rfl
  have hbegin := Entries.beginTable?_nil hnew
  have hsingle : ∀ more, key ++ ']' :: '\n' :: rest ≠ '[' :: more := fun more heq => by
    rw [hc, List.cons_append] at heq
    exact hbracket (List.cons.inj heq).1
  rw [header?]
  · simp only [hname, hclose, hend, hbegin, Bool.false_eq_true, if_false, Option.bind_eq_bind,
      Option.bind_some, List.nil_append]
  · exact hsingle

/-- The header of a table that is not there yet. -/
theorem lines?_header (hkey : BareKey key) (hnew : key ∉ d.entries.map (·.1)) (fuel : Nat)
    (rest : List Char) : lines? (fuel + 1) d ('[' :: key ++ "]\n".toList ++ rest) =
      lines? fuel ⟨[key], d.entries ++ [(key, .table .headed [])]⟩ rest := by
  have hline : '[' :: key ++ "]\n".toList ++ rest = '[' :: (key ++ ']' :: '\n' :: rest) := by simp
  have hskip : skipSpace ('[' :: (key ++ ']' :: '\n' :: rest)) =
      '[' :: (key ++ ']' :: '\n' :: rest) := skipSpace_cons rfl _
  rw [hline, lines?, hskip]
  simp only [header?_new hkey hnew, Option.bind_some]
  rfl

/-- Lines under a header fill its table. -/
theorem lines?_table {table : List Char} {entries inner : Entries}
    {pairs : List (List Char × List Char × Value)} (htable : table ∉ entries.map (·.1))
    (hkeys : ∀ p ∈ pairs, BareKey p.1) (hvalues : ∀ p ∈ pairs, IsValue p.2.1 p.2.2)
    (hnodup : (inner.map (·.1) ++ pairs.map (·.1)).Nodup) (fuel : Nat) (rest : List Char) :
    lines? (fuel + pairs.length) ⟨[table], entries ++ [(table, .table .headed inner)]⟩
        (pairs.flatMap (fun p => tomlLine p.1 p.2.1) ++ rest) =
      lines? fuel ⟨[table], entries ++
        [(table, .table .headed (inner ++ pairs.map fun p => (p.1, p.2.2)))]⟩ rest := by
  induction pairs generalizing inner with
  | nil => simp
  | cons p pairs ih =>
    obtain ⟨key, text, v⟩ := p
    obtain ⟨hkey, hkeys⟩ := List.forall_mem_cons.1 hkeys
    obtain ⟨hvalue, hvalues⟩ := List.forall_mem_cons.1 hvalues
    have hnew : key ∉ inner.map (·.1) := fun hmem =>
      (List.nodup_append.1 hnodup).2.2 key hmem key (by simp) rfl
    have hlater : ((inner ++ [(key, v)]).map (·.1) ++ pairs.map (·.1)).Nodup := by
      simpa using hnodup
    have hentries : Entries.update? false (fun _ inner => inner.insertAt? [] key v) [table] .headed
        (entries ++ [(table, .table .headed inner)]) =
          some (entries ++ [(table, .table .headed (inner ++ [(key, v)]))]) :=
      Entries.update?_last htable (Entries.insertAt?_nil hnew)
    have hline := lines?_tomlLine (d := ⟨[table], entries ++ [(table, .table .headed inner)]⟩) hkey
      hvalue hentries (fuel + pairs.length) (pairs.flatMap (fun p => tomlLine p.1 p.2.1) ++ rest)
    rw [List.flatMap_cons, List.append_assoc, List.length_cons, ← Nat.add_assoc, hline,
      ih hkeys hvalues hlater]
    simp

end Document

end MarkdownPreview.Toml
