import MarkdownPreview.CommandLine.Run
import MarkdownPreview.Proofs.Selection.Notation

/-! The flags that give selections on the command line. The value of one is looked at only when the
next option comes or the arguments end, so what a list of them gives is followed in the state that
the arguments so far settle to. -/

namespace MarkdownPreview.CommandLine

/-- The option as an argument. -/
def CommandOption.argument (o : CommandOption) : Argument := '-' :: '-' :: o.name.toList

/-- A flag that gives a selection, with its value. -/
inductive SelectionFlag where
  | cursor (text : Argument)
  | selection (text : Argument)
  deriving Repr, DecidableEq

namespace SelectionFlag

def option : SelectionFlag → CommandOption
  | cursor _ => cursorOption
  | selection _ => selectionOption

def text : SelectionFlag → Argument
  | cursor text | selection text => text

/-- The flag on a command line. -/
def arguments (f : SelectionFlag) : List Argument := [f.option.argument, f.text]

/-- What the arguments give is the option with its value. -/
def entry (f : SelectionFlag) : String × Argument := (f.option.name, f.text)

/-- The selection that the flag gives, if its value is one. -/
def selection? : SelectionFlag → Option Selection
  | cursor text => (Text.word? text).map Selection.caret
  | selection text => (Selection.parse text).toOption

theorem toOption_eq_some {ε α : Type} {r : Except ε α} {a : α} :
    r.toOption = some a ↔ r = .ok a := by
  cases r <;> simp [Except.toOption]

variable {f : SelectionFlag} {s : Selection}

/-- The value is an argument that can follow an option. -/
theorem looksLikeOption_text (h : f.selection? = some s) : looksLikeOption f.text = false := by
  have hhead : f.text.head? ≠ some '-' := by
    cases f with
    | cursor text =>
      obtain ⟨n, hn, -⟩ := Option.map_eq_some_iff.1 h
      exact Selection.head?_ne_hyphen_of_parse
        (Selection.parse_offset (Selection.offset?_of_word? hn))
    | selection text => exact Selection.head?_ne_hyphen_of_parse (toOption_eq_some.1 h)
  rw [looksLikeOption.eq_def]
  split
  · rename_i heq
    simp [heq] at hhead
  · rfl

theorem accepts_text (h : f.selection? = some s) : f.option.accepts f.text = true := by
  cases f with
  | cursor text =>
    obtain ⟨n, hn, -⟩ := Option.map_eq_some_iff.1 h
    exact Option.isSome_iff_exists.2 ⟨n, hn⟩
  | selection text => rfl

end SelectionFlag

/-! ### Levels -/

section Level

variable {grammar : Grammar} {command : Option CommandName} {ends : Argument → Bool}
  {g settled : Given} {o : CommandOption} {a name value : Argument}

theorem ne_hyphens_of_longOption? {r : Argument × Option Argument}
    (hname : longOption? a = some r) : a ≠ ['-', '-'] := by
  rintro rfl
  cases hname

/-- An option takes the argument after it as its value, and what was pending is settled. -/
theorem readLevel_takesNext (hname : longOption? a = some (name, none)) (hends : ends a = false)
    (hstep : longStep grammar command g name none = .takesNext o settled)
    (hvalue : looksLikeOption value = false) (rest : List Argument) :
    readLevel grammar command ends false g (a :: value :: rest) =
      readLevel grammar command ends false { settled with pending := some (o, value) } rest := by
  have hhyphens := ne_hyphens_of_longOption? hname
  rw [readLevel.eq_2 _ _ _ _ _ _ _ _ _ hname]
  simp only [hends, hhyphens, hstep, hvalue, Bool.false_eq_true, if_false]

/-- An option without a value is given at once. -/
theorem readLevel_goOn (hname : longOption? a = some (name, none)) (hends : ends a = false)
    (hstep : longStep grammar command g name none = .goOn settled) (rest : List Argument) :
    readLevel grammar command ends false g (a :: rest) =
      readLevel grammar command ends false settled rest := by
  have hhyphens := ne_hyphens_of_longOption? hname
  rw [readLevel.eq_2 _ _ _ _ _ _ _ _ _ hname]
  simp only [hends, hhyphens, hstep, Bool.false_eq_true, if_false]

end Level

/-! ### The level of the command -/

/-- Reads arguments of the command after its name. -/
def readOwn (g : Given) (args : List Argument) : Except Stop (Given × Rest) :=
  readLevel CommandName.decorate.grammar (some .decorate) (fun _ => false) false g args

variable {g settled : Given} {o : CommandOption} {f : SelectionFlag} {s : Selection}

theorem longOption?_argument (ho : o ∈ CommandName.decorate.grammar.options) :
    longOption? o.argument = some (o.name.toList, none) := by
  simp only [CommandName.grammar, List.mem_cons, List.not_mem_nil, or_false] at ho
  rcases ho with rfl | rfl | rfl | rfl <;> decide +kernel

/-- Every option of the command is found by its name, whatever is given already. -/
theorem longStep_name (ho : o ∈ CommandName.decorate.grammar.options)
    (hg : g.settle? = some settled) :
    longStep CommandName.decorate.grammar (some .decorate) g o.name.toList none =
      if o.valueName.isSome then .takesNext o settled
      else match settled.add? o [] with
        | some g => .goOn g
        | none => .stop .misuse := by
  have hname : o.name.toList ≠ "help".toList ∧ o.name.toList ≠ "version".toList ∧
      CommandName.decorate.grammar.options.find? (·.name.toList == o.name.toList) = some o := by
    simp only [CommandName.grammar, List.mem_cons, List.not_mem_nil, or_false] at ho
    rcases ho with rfl | rfl | rfl | rfl <;>
      simp [CommandName.grammar, configOption, cursorOption, selectionOption, rawOption, List.find?]
  obtain ⟨hhelp, hversion, hfind⟩ := hname
  simp only [longStep, hhelp, hversion, false_and, if_false, hfind, hg]
  cases o.valueName <;> rfl

theorem SelectionFlag.option_mem (f : SelectionFlag) :
    f.option ∈ CommandName.decorate.grammar.options := by
  cases f <;> simp [CommandName.grammar, SelectionFlag.option]

theorem readOwn_flag (h : f.selection? = some s) (hg : g.settle? = some settled)
    (rest : List Argument) : readOwn g (f.arguments ++ rest) =
      readOwn { settled with pending := some (f.option, f.text) } rest := by
  have hvalue : f.option.valueName.isSome = true := by cases f <;> rfl
  have hstep := longStep_name f.option_mem hg
  rw [if_pos hvalue] at hstep
  exact readLevel_takesNext (longOption?_argument f.option_mem) rfl hstep
    (SelectionFlag.looksLikeOption_text h) rest

/-- A value that will do is added when it is settled. -/
theorem settle?_flag (h : f.selection? = some s) (hg : settled.pending = none) :
    { settled with pending := some (f.option, f.text) }.settle? =
      some { settled with options := settled.options ++ [f.entry] } := by
  obtain ⟨options, operand, pending⟩ := settled
  cases hg
  have haccepts := SelectionFlag.accepts_text h
  have hrepeats : f.option.repeats = true := by cases f <;> rfl
  simp [Given.settle?, Given.add?, haccepts, hrepeats, SelectionFlag.entry]

theorem pending_of_settle? (hg : g.settle? = some settled) : settled.pending = none := by
  rw [Given.settle?] at hg
  split at hg
  · rename_i hpending
    cases hg
    exact hpending
  · rw [Given.add?] at hg
    split at hg
    · cases hg
    · cases hg
      rfl

/-- Flags are given one after the other. -/
theorem readOwn_flags {flags : List SelectionFlag} (h : ∀ f ∈ flags, ∃ s, f.selection? = some s)
    (hg : g.settle? = some settled) : ∃ g', g'.settle? =
        some { settled with options := settled.options ++ flags.map (·.entry) } ∧
      ∀ rest, readOwn g (flags.flatMap (·.arguments) ++ rest) = readOwn g' rest := by
  induction flags generalizing g settled with
  | nil => exact ⟨g, by simpa using hg, fun rest => rfl⟩
  | cons f flags ih =>
    obtain ⟨⟨s, hs⟩, h⟩ := List.forall_mem_cons.1 h
    obtain ⟨g', hg', hread⟩ := ih h (settle?_flag hs (pending_of_settle? hg))
    refine ⟨g', by simpa using hg', fun rest => ?_⟩
    rw [List.flatMap_cons, List.append_assoc, readOwn_flag hs hg, hread]

/-! ### Command lines -/

/-- The command line that asks for the decorations of the document in a file. -/
def decorateLine (file : Argument) (flags : List SelectionFlag) (raw : Bool) : List Argument :=
  CommandName.decorate.name.toList :: file :: (flags.flatMap (·.arguments) ++
    if raw then [rawOption.argument] else [])

/-- The entries of the flag at the end of that command line, if it is there. -/
def rawEntries (raw : Bool) : List (String × Argument) :=
  if raw then [(rawOption.name, [])] else []

theorem readOwn_raw (hg : g.settle? = some settled) (hnew : settled.has rawOption = false)
    (raw : Bool) : ∃ g', readOwn g (if raw then [rawOption.argument] else []) = .ok (g', none) ∧
      g'.settle? = some { settled with options := settled.options ++ rawEntries raw } := by
  cases raw with
  | false => exact ⟨g, rfl, by simpa [rawEntries] using hg⟩
  | true =>
    have hpending := pending_of_settle? hg
    have hmem : rawOption ∈ CommandName.decorate.grammar.options := by simp [CommandName.grammar]
    have hadd : settled.add? rawOption [] =
        some { settled with options := settled.options ++ rawEntries true } := by
      rw [Given.add?, hnew]
      rfl
    have hstep := longStep_name hmem hg
    rw [hadd] at hstep
    refine ⟨_, readLevel_goOn (longOption?_argument hmem) rfl hstep [], ?_⟩
    simp [Given.settle?, hpending]

/-- What stands for the file is no option. -/
structure IsOperand (file : Argument) : Prop where
  ne_nil : file ≠ []
  not_option : looksLikeOption file = false

instance (file : Argument) : Decidable (IsOperand file) :=
  decidable_of_iff (file ≠ [] ∧ looksLikeOption file = false)
    ⟨fun h => ⟨h.1, h.2⟩, fun h => ⟨h.1, h.2⟩⟩

theorem readOwn_operand {file : Argument} (hfile : IsOperand file) (rest : List Argument) :
    readOwn {} (file :: rest) = readOwn { operand := some file } rest := by
  have hoption := hfile.not_option
  have hadd : Given.addOperand? CommandName.decorate.grammar {} file =
      some { operand := some file } := by
    simp [Given.addOperand?, CommandName.grammar, fileOperand, isPath, hfile.ne_nil]
  rw [readOwn, readLevel.eq_def]
  obtain ⟨c, tail, rfl⟩ := List.exists_cons_of_ne_nil hfile.ne_nil
  by_cases hc : c = '-'
  · subst hc
    cases tail with
    | nil => simp [longOption?, hadd, readOwn]
    | cons d tail => cases hoption
  · simp [longOption?, hadd, hc, readOwn]

/-- What the arguments of that command line give. -/
def givenLine (file : Argument) (flags : List SelectionFlag) (raw : Bool) : Given where
  options := flags.map (·.entry) ++ rawEntries raw
  operand := some file

variable {file : Argument} {flags : List SelectionFlag} {raw : Bool}

/-- The values that the flags give to an option, in order. -/
def SelectionFlag.texts (o : CommandOption) (flags : List SelectionFlag) : List Argument :=
  (flags.filter (·.option.name == o.name)).map (·.text)

theorem values_givenLine (ho : o.name ≠ rawOption.name) :
    (givenLine file flags raw).values o = SelectionFlag.texts o flags := by
  have hraw : (rawEntries raw).filter (·.1 == o.name) = [] := by
    cases raw <;> simp [rawEntries, ho.symm]
  rw [Given.values, givenLine, List.filter_append, hraw, List.append_nil, List.filter_map,
    List.map_map]
  rfl

/-- Apart from the flags there is at most the option at the end. -/
theorem has_givenLine (ho : ∀ f : SelectionFlag, f.option.name ≠ o.name) :
    (givenLine file flags raw).has o = (rawEntries raw).any (·.1 == o.name) := by
  have hflags : (flags.map (·.entry)).any (·.1 == o.name) = false := by
    rw [List.any_eq_false]
    intro entry hentry
    obtain ⟨f, -, rfl⟩ := List.mem_map.1 hentry
    simpa [SelectionFlag.entry] using ho f
  rw [Given.has, givenLine, List.any_append, hflags, Bool.false_or]

theorem SelectionFlag.name_ne_config (f : SelectionFlag) : f.option.name ≠ configOption.name := by
  cases f <;> simp [option, cursorOption, selectionOption, configOption]

theorem SelectionFlag.name_ne_raw (f : SelectionFlag) : f.option.name ≠ rawOption.name := by
  cases f <;> simp [option, cursorOption, selectionOption, rawOption]

/-- The arguments after the name of the command, read. -/
theorem readOwn_decorateLine (hfile : IsOperand file)
    (h : ∀ f ∈ flags, ∃ s, f.selection? = some s) (raw : Bool) :
    ∃ g, readOwn {} (file :: (flags.flatMap (·.arguments) ++
        if raw then [rawOption.argument] else [])) = .ok (g, none) ∧
      g.settle? = some (givenLine file flags raw) := by
  obtain ⟨g, hg, hflags⟩ := readOwn_flags (g := ⟨[], some file, none⟩) h rfl
  have hnew : Given.has ⟨flags.map (·.entry), some file, none⟩ rawOption = false := by
    have hnone : (givenLine file flags false).has rawOption = false :=
      has_givenLine SelectionFlag.name_ne_raw
    simpa [givenLine, rawEntries] using hnone
  obtain ⟨g', hread, hg'⟩ := readOwn_raw hg hnew raw
  refine ⟨g', ?_, hg'⟩
  rw [readOwn_operand hfile]
  exact (hflags _).trans hread

/-- The name of the command ends what may stand before it. -/
theorem readLevel_top (args : List Argument) :
    readLevel topGrammar none
        (fun a => a = "help".toList || (CommandName.ofArgument? a).isSome) false {}
        (CommandName.decorate.name.toList :: args) =
      .ok ({}, some (CommandName.decorate.name.toList, args)) := by
  have hends : (CommandName.ofArgument? CommandName.decorate.name.toList).isSome = true := by
    decide +kernel
  rw [readLevel.eq_def]
  simp [hends]

theorem command?_givenLine : command? .decorate (givenLine file flags raw) =
    some (.decorate file ((SelectionFlag.texts cursorOption flags).filterMap Text.word?)
      (SelectionFlag.texts selectionOption flags) raw) := by
  have hraw : (givenLine file flags raw).has rawOption = raw := by
    rw [has_givenLine SelectionFlag.name_ne_raw]
    cases raw <;> simp [rawEntries]
  have hcursor : (givenLine file flags raw).values cursorOption = _ := values_givenLine (by decide)
  have hselection : (givenLine file flags raw).values selectionOption = _ :=
    values_givenLine (by decide)
  rw [command?.eq_def, hraw, hcursor, hselection]
  rfl

/-- The command line read. The environment may give the path of a configuration. -/
theorem parse_decorateLine (hfile : IsOperand file) (h : ∀ f ∈ flags, ∃ s, f.selection? = some s)
    (raw : Bool) (environment : Option Argument) :
    parse environment (decorateLine file flags raw) =
      if environment = some [] then .error .misuse
      else .ok ⟨environment, .decorate file
        ((SelectionFlag.texts cursorOption flags).filterMap Text.word?)
        (SelectionFlag.texts selectionOption flags) raw⟩ := by
  obtain ⟨g, hread, hg⟩ := readOwn_decorateLine hfile h raw
  have hconfig : (givenLine file flags raw).values configOption = [] := by
    rw [values_givenLine (by decide), SelectionFlag.texts, List.map_eq_nil_iff,
      List.filter_eq_nil_iff]
    exact fun f _ => by simpa using f.name_ne_config
  have hnoConfig : (givenLine file flags raw).has configOption = false := by
    rw [has_givenLine SelectionFlag.name_ne_config]
    cases raw <;> simp [rawEntries, rawOption, configOption]
  have hname : CommandName.ofArgument? CommandName.decorate.name.toList = some .decorate := by
    decide +kernel
  rw [readOwn] at hread
  rw [decorateLine, parse]
  simp only [readLevel_top, bind, Except.bind, hname, hread]
  by_cases henvironment : environment = some []
  · simp [finish, hg, hnoConfig, henvironment]
  · have hfinish : finish environment g = .ok (givenLine file flags raw) := by
      simp [finish, hg, henvironment]
    have htop : finish environment {} = .ok {} := by simp [finish, Given.settle?, henvironment]
    have hnone : ({} : Given).values configOption = [] := rfl
    simp only [hfinish, htop, command?_givenLine, hconfig, hnone, if_neg henvironment]
    rfl

end MarkdownPreview.CommandLine
