import MarkdownPreview.Proofs.CommandLine.Console
import MarkdownPreview.Proofs.CommandLine.Flags
import MarkdownPreview.Proofs.Decoration.Coverage

/-! Two runs that ask for the decorations of one document. The selections come in by flags, and the
outcome depends on these only through the positions that the selections cover; where every
decoration is asked for, it does not depend on them at all. -/

namespace MarkdownPreview.CommandLine

open Selection (Covered)

variable {output : Output} {files : Config.Files} {environment environment' : Option Argument}
  {args args' : List Argument} {config config' : Option Path} {file : Path}
  {S S' : List Selection} {flags flags' : List SelectionFlag} {raw : Bool}

/-! ### Selections from flags -/

theorem mem_texts_cursor {text : Argument} :
    text ∈ SelectionFlag.texts cursorOption flags ↔ .cursor text ∈ flags := by
  simp only [SelectionFlag.texts, List.mem_map, List.mem_filter, beq_iff_eq]
  constructor
  · rintro ⟨f, ⟨hf, hname⟩, rfl⟩
    cases f with
    | cursor text => exact hf
    | selection text => exact absurd hname (by simp [SelectionFlag.option, cursorOption,
        selectionOption])
  · exact fun hf => ⟨_, ⟨hf, rfl⟩, rfl⟩

theorem mem_texts_selection {text : Argument} :
    text ∈ SelectionFlag.texts selectionOption flags ↔ .selection text ∈ flags := by
  simp only [SelectionFlag.texts, List.mem_map, List.mem_filter, beq_iff_eq]
  constructor
  · rintro ⟨f, ⟨hf, hname⟩, rfl⟩
    cases f with
    | cursor text => exact absurd hname (by simp [SelectionFlag.option, cursorOption,
        selectionOption])
    | selection text => exact hf
  · exact fun hf => ⟨_, ⟨hf, rfl⟩, rfl⟩

theorem mapM_parse {ranges : List Argument} (h : ∀ r ∈ ranges, ∃ s, Selection.parse r = .ok s) :
    (ranges.mapM fun range => (Selection.parse range).mapError Failure.selection) =
      .ok (ranges.filterMap fun range => (Selection.parse range).toOption) := by
  induction ranges with
  | nil => rfl
  | cons range ranges ih =>
    obtain ⟨⟨s, hs⟩, h⟩ := List.forall_mem_cons.1 h
    rw [List.mapM_cons, ih h, List.filterMap_cons, hs]
    rfl

/-- The selections that are read are those of the flags. -/
theorem exists_readSelections (h : ∀ f ∈ flags, ∃ s, f.selection? = some s) :
    ∃ S, readSelections ((SelectionFlag.texts cursorOption flags).filterMap Text.word?)
        (SelectionFlag.texts selectionOption flags) = .ok S ∧
      ∀ s, s ∈ S ↔ ∃ f ∈ flags, f.selection? = some s := by
  have hparse : ∀ range ∈ SelectionFlag.texts selectionOption flags,
      ∃ s, Selection.parse range = .ok s := by
    intro range hrange
    obtain ⟨s, hs⟩ := h _ (mem_texts_selection.1 hrange)
    exact ⟨s, SelectionFlag.toOption_eq_some.1 hs⟩
  refine ⟨_, by rw [readSelections, mapM_parse hparse]; rfl, fun s => ?_⟩
  simp only [List.mem_append, List.mem_map, List.mem_filterMap, mem_texts_cursor,
    mem_texts_selection]
  constructor
  · rintro (⟨n, ⟨text, htext, hn⟩, rfl⟩ | ⟨text, htext, hs⟩)
    · exact ⟨_, htext, by rw [SelectionFlag.selection?, hn]; rfl⟩
    · exact ⟨_, htext, hs⟩
  · rintro ⟨f, hf, hs⟩
    cases f with
    | cursor text =>
      obtain ⟨n, hn, rfl⟩ := Option.map_eq_some_iff.1 hs
      exact .inl ⟨n, ⟨text, hf, hn⟩, rfl⟩
    | selection text => exact .inr ⟨text, hf, hs⟩

/-! ### Two runs -/

/-- The arguments ask for the decorations of the document in a file, with selections that can all be
read. -/
def Decorates (environment : Option Argument) (args : List Argument) (config : Option Path)
    (file : Path) (S : List Selection) (raw : Bool) : Prop :=
  ∃ cursors ranges, parse environment args = .ok ⟨config, .decorate file cursors ranges raw⟩ ∧
    readSelections cursors ranges = .ok S

theorem Decorates.program_eq (h : Decorates environment args config file S raw) :
    program output files environment args = (do
      let config ← loadConfig files config
      decorate output files config.extract file S raw) := by
  obtain ⟨cursors, ranges, hparse, hread⟩ := h
  simp only [program, hparse, Invocation.run, hread]
  rfl

/-- A run prints the decorations, unless the configuration or the document cannot be read. It fails
where the output does not take them. -/
theorem Decorates.execute_eq (h : Decorates environment args config file S raw) {c : Config}
    (hconfig : loadConfig files config = .ok c) {source : List Char}
    (hsource : files file = .ok source) {text : List Char}
    (htext : text = (decorationsJson c.extract source S raw).pretty ++ ['\n']) :
    execute output files environment args = match output [] text with
      | none => ⟨none, text⟩
      | some refusal => ⟨some (.output refusal.reason), text.take refusal.taken⟩ := by
  have hread : readDocument files file = .ok source := by
    rw [readDocument, hsource]
    rfl
  have hrun : (program output files environment args).run.run [] =
      (printLine output (decorationsJson c.extract source S raw).pretty).run.run [] := by
    rw [h.program_eq, hconfig]
    simp only [decorate, hread]
    rfl
  rw [execute, hrun, run_printLine, ← htext]
  cases output [] text <;> rfl

/-- What is printed sees of the selections what they cover, and nothing if all is printed. -/
theorem decorationsJson_congr (options : Options) {source : List Char}
    (h : raw = true ∨ ∀ p, Covered source.length S p ↔ Covered source.length S' p) :
    decorationsJson options source S raw = decorationsJson options source S' raw := by
  cases raw with
  | true => rfl
  | false =>
    have hfilter : Decoration.filter (extract options source) source S =
        Decoration.filter (extract options source) source S' :=
      Decoration.filter_congr (h.resolve_left Bool.false_ne_true)
    simp only [decorationsJson, preview, hfilter]

theorem decorate_congr (options : Options) (h : raw = true ∨ ∀ source, files file = .ok source →
      ∀ p, Covered source.length S p ↔ Covered source.length S' p) :
    decorate output files options file S raw = decorate output files options file S' raw := by
  cases hfile : files file with
  | error reason =>
    simp only [decorate, readDocument, hfile]
    rfl
  | ok source =>
    have hjson := decorationsJson_congr options (h.imp_right fun h => h source hfile)
    have hread : readDocument files file = .ok source := by
      rw [readDocument, hfile]
      rfl
    rw [decorate, decorate, hread]
    exact congrArg (fun json : Json => printLine output json.pretty) hjson

theorem execute_congr (h : Decorates environment args config file S raw)
    (h' : Decorates environment' args' config' file S' raw)
    (hconfig : loadConfig files config = loadConfig files config')
    (hcover : raw = true ∨ ∀ source, files file = .ok source →
      ∀ p, Covered source.length S p ↔ Covered source.length S' p) :
    execute output files environment args = execute output files environment' args' := by
  have hprogram :
      program output files environment args = program output files environment' args' := by
    rw [h.program_eq, h'.program_eq, hconfig]
    simp only [decorate_congr _ hcover]
  rw [execute, execute, hprogram]

/-! ### Command lines -/

/-- The flags give the same selection, or one gives that of the other turned round. -/
def Alike (f f' : SelectionFlag) : Prop :=
  ∃ s, f.selection? = some s ∧ (f'.selection? = some s ∨ f'.selection? = some s.turned)

theorem Alike.symm {f f' : SelectionFlag} (h : Alike f f') : Alike f' f := by
  obtain ⟨s, hs, hs' | hs'⟩ := h
  · exact ⟨s, hs', .inl hs⟩
  · exact ⟨s.turned, hs', .inr hs⟩

theorem alike_caret {text : Argument} {n : Nat} (h : Text.word? text = some n) :
    Alike (.cursor text) (.selection (text ++ ':' :: text)) := by
  have hoffset := Selection.offset?_of_word? h
  refine ⟨Selection.caret n, by rw [SelectionFlag.selection?, h]; rfl, .inl ?_⟩
  rw [SelectionFlag.selection?, Selection.parse_offsets hoffset hoffset]
  rfl

theorem alike_offset {text : Argument} {n : Nat} (h : Selection.offset? text = .ok n) :
    Alike (.selection text) (.selection (text ++ ':' :: text)) := by
  refine ⟨Selection.caret n, ?_, .inl ?_⟩
  · rw [SelectionFlag.selection?, Selection.parse_offset h]
    rfl
  · rw [SelectionFlag.selection?, Selection.parse_offsets h h]
    rfl

theorem alike_turned {anchor head : List Char} {a b : Nat} (ha : Selection.offset? anchor = .ok a)
    (hb : Selection.offset? head = .ok b) :
    Alike (.selection (anchor ++ ':' :: head)) (.selection (head ++ ':' :: anchor)) := by
  refine ⟨⟨a, b⟩, ?_, .inr ?_⟩
  · rw [SelectionFlag.selection?, Selection.parse_offsets ha hb]
    rfl
  · rw [SelectionFlag.selection?, Selection.parse_offsets hb ha]
    rfl

theorem decorates_decorateLine (hfile : IsOperand file)
    (h : ∀ f ∈ flags, ∃ s, f.selection? = some s) (raw : Bool)
    (henvironment : environment ≠ some []) :
    ∃ S, Decorates environment (decorateLine file flags raw) environment file S raw ∧
      ∀ s, s ∈ S ↔ ∃ f ∈ flags, f.selection? = some s := by
  obtain ⟨S, hread, hS⟩ := exists_readSelections h
  have hparse := parse_decorateLine hfile h raw environment
  rw [if_neg henvironment] at hparse
  exact ⟨S, ⟨_, _, hparse, hread⟩, hS⟩

/-- Flags with alike ones give selections. -/
theorem exists_selection_of_alike (h : ∀ f ∈ flags, ∃ f' ∈ flags', Alike f f') :
    ∀ f ∈ flags, ∃ s, f.selection? = some s := fun f hf => by
  obtain ⟨f', -, s, hs, -⟩ := h f hf
  exact ⟨s, hs⟩

theorem mem_or_turned_mem_of_alike (h : ∀ f ∈ flags, ∃ f' ∈ flags', Alike f f')
    (hS : ∀ s, s ∈ S ↔ ∃ f ∈ flags, f.selection? = some s)
    (hS' : ∀ s, s ∈ S' ↔ ∃ f ∈ flags', f.selection? = some s) :
    ∀ s ∈ S, s ∈ S' ∨ s.turned ∈ S' := fun s hs => by
  obtain ⟨f, hf, hfs⟩ := (hS s).1 hs
  obtain ⟨f', hf', t, ht, halike⟩ := h f hf
  cases hfs.symm.trans ht
  exact halike.imp (fun h => (hS' _).2 ⟨f', hf', h⟩) (fun h => (hS' _).2 ⟨f', hf', h⟩)

/-- Command lines with alike flags, in whatever order, have one outcome. -/
theorem execute_decorateLine_congr (hfile : IsOperand file)
    (h : ∀ f ∈ flags, ∃ f' ∈ flags', Alike f f') (h' : ∀ f' ∈ flags', ∃ f ∈ flags, Alike f f')
    (environment : Option Argument) (raw : Bool) :
    execute output files environment (decorateLine file flags raw) =
      execute output files environment (decorateLine file flags' raw) := by
  have hback : ∀ f' ∈ flags', ∃ f ∈ flags, Alike f' f := fun f' hf' =>
    (h' f' hf').imp fun f hf => ⟨hf.1, hf.2.symm⟩
  have hread := exists_selection_of_alike h
  have hread' := exists_selection_of_alike hback
  by_cases henvironment : environment = some []
  · have hparse := parse_decorateLine hfile hread raw environment
    have hparse' := parse_decorateLine hfile hread' raw environment
    rw [if_pos henvironment] at hparse hparse'
    simp only [execute, program, hparse, hparse']
  · obtain ⟨S, hline, hS⟩ := decorates_decorateLine hfile hread raw henvironment
    obtain ⟨S', hline', hS'⟩ := decorates_decorateLine hfile hread' raw henvironment
    exact execute_congr hline hline' rfl <| .inr fun source _ p =>
      ⟨Covered.of_turned (mem_or_turned_mem_of_alike h hS hS'),
        Covered.of_turned (mem_or_turned_mem_of_alike hback hS' hS)⟩

/-- A run that asks for the decorations of a document prints them, and two such runs have one
outcome where the selections that are read cover the same, and always where every decoration is
asked for. So on a command line neither the order of the flags counts, nor how a caret or which end
of a selection is written first. A run that fails has printed nothing; where the output does not
take all it is offered, it may also be that the output has stopped within a text, and what it took
before stays. -/
theorem execute_of_covered (output : Output) (files : Config.Files) :
    (∀ environment args config file S raw c source,
      Decorates environment args config file S raw → loadConfig files config = .ok c →
      files file = .ok source →
      let text := (decorationsJson c.extract source S raw).pretty ++ ['\n']
      execute output files environment args = match output [] text with
        | none => ⟨none, text⟩
        | some refusal => ⟨some (.output refusal.reason), text.take refusal.taken⟩) ∧
    (∀ environment environment' args args' config config' file S S' raw,
      Decorates environment args config file S raw →
      Decorates environment' args' config' file S' raw →
      loadConfig files config = loadConfig files config' →
      (raw = true ∨ ∀ source, files file = .ok source →
        ∀ p, Covered source.length S p ↔ Covered source.length S' p) →
      execute output files environment args = execute output files environment' args') ∧
    (∀ environment file flags flags' raw, IsOperand file →
      (∀ f ∈ flags, ∃ f' ∈ flags', Alike f f') → (∀ f' ∈ flags', ∃ f ∈ flags, Alike f f') →
      execute output files environment (decorateLine file flags raw) =
        execute output files environment (decorateLine file flags' raw)) ∧
    (∀ text n, Text.word? text = some n →
      Alike (.cursor text) (.selection (text ++ ':' :: text))) ∧
    (∀ text n, Selection.offset? text = .ok n →
      Alike (.selection text) (.selection (text ++ ':' :: text))) ∧
    (∀ anchor head a b, Selection.offset? anchor = .ok a → Selection.offset? head = .ok b →
      Alike (.selection (anchor ++ ':' :: head)) (.selection (head ++ ':' :: anchor))) ∧
    (∀ environment args, (execute output files environment args).status ≠ 0 →
      output.TakesAll → (execute output files environment args).stdout = []) ∧
    (∀ environment args failure,
      (execute output files environment args).failure = some failure →
      (execute output files environment args).stdout = [] ∨
        Refused output failure (execute output files environment args).stdout) := by
  refine ⟨fun _ _ _ _ _ _ _ _ h hconfig hsource => h.execute_eq hconfig hsource rfl,
    fun _ _ _ _ _ _ _ _ _ _ h h' => execute_congr h h',
    fun environment _ _ _ raw hfile h h' => execute_decorateLine_congr hfile h h' environment raw,
    fun _ _ => alike_caret, fun _ _ => alike_offset, fun _ _ _ _ => alike_turned,
    fun environment args hstatus htakes => ?_, fun _ _ _ => stdout_execute_of_failure⟩
  obtain ⟨failure, hfailure⟩ := Outcome.exists_failure hstatus
  exact (stdout_execute_of_failure hfailure).resolve_right htakes.not_refused

/-- A single file, with five characters. -/
def fiveCharacters : Config.Files := fun p =>
  if p = "a.md".toList then .ok "*b* c".toList else .error "not found".toList

/-- An output for 16 characters. -/
def sixteenCharacters : Output := fun shown offered =>
  if shown.length + offered.length ≤ 16 then none else some ⟨16 - shown.length, "full".toList⟩

/-- Selections in two orders, of which one ends past the document; a caret that is written as a
selection; selections that differ where everything is printed; a file that is not there; and an
output that is full within the second line. -/
theorem execute_of_covered_split :
    let args := ["decorate".toList, "a.md".toList, "--cursor".toList, "1".toList,
      "--selection".toList, "9:2".toList]
    let args' := ["decorate".toList, "--selection=2:5".toList, "--selection".toList, " 1 ".toList,
      "a.md".toList]
    let args'' := ["latex".toList, "abcdefghijklmnopqrs".toList]
    (Decorates none args none "a.md".toList [⟨1, 1⟩, ⟨9, 2⟩] false ∧
      Decorates none args' none "a.md".toList [⟨2, 5⟩, ⟨1, 1⟩] false ∧
      execute .unlimited fiveCharacters none args = execute .unlimited fiveCharacters none args' ∧
      execute .unlimited fiveCharacters none args =
        ⟨none, (decorationsJson {} "*b* c".toList [⟨1, 1⟩, ⟨9, 2⟩] false).pretty ++ ['\n']⟩) ∧
    (Decorates none (args ++ ["--raw".toList]) none "a.md".toList [⟨1, 1⟩, ⟨9, 2⟩] true ∧
      Decorates none ["decorate".toList, "--raw".toList, "a.md".toList] none "a.md".toList [] true ∧
      execute .unlimited fiveCharacters none (args ++ ["--raw".toList]) =
        execute .unlimited fiveCharacters none
          ["decorate".toList, "--raw".toList, "a.md".toList]) ∧
    (IsOperand "a.md".toList ∧ Text.word? "3".toList = some 3 ∧
      execute .unlimited fiveCharacters none
          (decorateLine "a.md".toList [.cursor "3".toList] false) =
        execute .unlimited fiveCharacters none
          (decorateLine "a.md".toList [.selection "3:3".toList] false)) ∧
    ((execute .unlimited fiveCharacters none ["decorate".toList, "b.md".toList]).status = 1 ∧
      (execute .unlimited fiveCharacters none ["decorate".toList, "b.md".toList]).stdout = []) ∧
    (execute sixteenCharacters fiveCharacters none args'').failure =
        some (.output "full".toList) ∧
      (execute sixteenCharacters fiveCharacters none args'').stdout =
        "[]\nabcdefghijklm".toList ∧
      Refused sixteenCharacters (.output "full".toList)
        (execute sixteenCharacters fiveCharacters none args'').stdout := by
  intro args args' args''
  obtain ⟨hprinted, hcongr, hline, hcaret, -, -, hsilent, -⟩ :=
    execute_of_covered .unlimited fiveCharacters
  obtain ⟨-, -, -, -, -, -, -, hrefused⟩ := execute_of_covered sixteenCharacters fiveCharacters
  have hargs : Decorates none args none "a.md".toList [⟨1, 1⟩, ⟨9, 2⟩] false :=
    ⟨[1], ["9:2".toList], SelectionFlag.toOption_eq_some.1 (by decide +kernel),
      SelectionFlag.toOption_eq_some.1 (by decide +kernel)⟩
  have hargs' : Decorates none args' none "a.md".toList [⟨2, 5⟩, ⟨1, 1⟩] false :=
    ⟨[], ["2:5".toList, " 1 ".toList], SelectionFlag.toOption_eq_some.1 (by decide +kernel),
      SelectionFlag.toOption_eq_some.1 (by decide +kernel)⟩
  have hraw : Decorates none (args ++ ["--raw".toList]) none "a.md".toList [⟨1, 1⟩, ⟨9, 2⟩] true :=
    ⟨[1], ["9:2".toList], SelectionFlag.toOption_eq_some.1 (by decide +kernel),
      SelectionFlag.toOption_eq_some.1 (by decide +kernel)⟩
  have hraw' : Decorates none ["decorate".toList, "--raw".toList, "a.md".toList] none
      "a.md".toList [] true :=
    ⟨[], [], SelectionFlag.toOption_eq_some.1 (by decide +kernel), rfl⟩
  have hcover : ∀ source, fiveCharacters "a.md".toList = .ok source → ∀ p,
      Covered source.length [⟨1, 1⟩, ⟨9, 2⟩] p ↔ Covered source.length [⟨2, 5⟩, ⟨1, 1⟩] p := by
    intro source hsource p
    have hlength : source.length = 5 := by
      rw [fiveCharacters, if_pos rfl] at hsource
      cases hsource
      decide +kernel
    simp [hlength, Covered, Selection.Covers, Selection.clamped, Selection.start, Selection.stop]
    omega
  have hthree : Text.word? "3".toList = some 3 := by decide +kernel
  have halike : Alike (.cursor "3".toList) (.selection "3:3".toList) := hcaret _ 3 hthree
  have hoperand : IsOperand "a.md".toList := by decide +kernel
  have hfull : (execute sixteenCharacters fiveCharacters none args'').failure =
      some (.output "full".toList) := by decide +kernel
  have hpart : (execute sixteenCharacters fiveCharacters none args'').stdout =
      "[]\nabcdefghijklm".toList := by decide +kernel
  have hmissing :
      (execute .unlimited fiveCharacters none ["decorate".toList, "b.md".toList]).status = 1 := by
    decide +kernel
  refine ⟨⟨hargs, hargs', hcongr _ _ _ _ _ _ _ _ _ _ hargs hargs' rfl (.inr hcover),
      hprinted _ _ _ _ _ _ {} _ hargs rfl (if_pos rfl)⟩,
    ⟨hraw, hraw', hcongr _ _ _ _ _ _ _ _ _ _ hraw hraw' rfl (.inl rfl)⟩,
    ⟨hoperand, hthree, hline none _ _ _ false hoperand ?_ ?_⟩, ⟨hmissing, ?_⟩, hfull, hpart, ?_⟩
  · simpa using halike
  · simpa using halike
  · exact hsilent none _ (by rw [hmissing]; decide) Output.takesAll_unlimited
  · exact (hrefused none _ _ hfull).resolve_left (by rw [hpart]; decide +kernel)

end MarkdownPreview.CommandLine
