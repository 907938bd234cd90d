import MarkdownPreview.CommandLine.Run

/-! What the program does to the standard output. A part that prints nothing may fail, and one that
prints fails only with the output: where the first kind comes before the second, a failure finds the
standard output as it was, unless it is the output itself that fails. -/

namespace MarkdownPreview.CommandLine

variable {α β : Type} {output : Output} {x : Console α} {f : α → Console β}

/-- Nothing is printed. -/
def Quiet (x : Console α) : Prop := ∀ shown, (x.run.run shown).2 = shown

/-- The output has stopped within a text that was offered to it, having taken `shown` in all, and
the run fails for that reason. -/
def Refused (output : Output) (failure : Failure) (shown : List Char) : Prop :=
  ∃ before offered refusal, output before offered = some refusal ∧
    failure = .output refusal.reason ∧ shown = before ++ offered.take refusal.taken

/-- A failure is always that of the output. -/
def FailsRefused (output : Output) (x : Console α) : Prop := ∀ shown failure,
  (x.run.run shown).1 = .error failure → Refused output failure (x.run.run shown).2

/-- Where there is a failure, nothing is printed, unless the failure is that of the output. -/
def FailsSilently (output : Output) (x : Console α) : Prop := ∀ shown failure,
  (x.run.run shown).1 = .error failure →
    (x.run.run shown).2 = shown ∨ Refused output failure (x.run.run shown).2

/-! ### Sequences -/

/-- The second part starts with the output of the first, unless that has failed. -/
theorem run_bind (x : Console α) (f : α → Console β) (shown : List Char) :
    (x >>= f).run.run shown = match x.run.run shown with
      | (.ok a, shown) => (f a).run.run shown
      | (.error failure, shown) => (.error failure, shown) := by
  cases h : x.run.run shown with
  | mk r shown' =>
    change (do let a ← x.run; ExceptT.bindCont f a : StateM _ _).run shown = _
    rw [StateT.run_bind, h]
    cases r <;> rfl

theorem FailsRefused.failsSilently (h : FailsRefused output x) : FailsSilently output x :=
  fun shown failure hfail => .inr (h shown failure hfail)

theorem Quiet.failsSilently (h : Quiet x) : FailsSilently output x :=
  fun shown _ _ => .inl (h shown)

theorem FailsRefused.bind (hx : FailsRefused output x) (hf : ∀ a, FailsRefused output (f a)) :
    FailsRefused output (x >>= f) := by
  intro shown failure hfail
  have hfirst := hx shown
  rcases hrun : x.run.run shown with ⟨r, shown'⟩
  rw [hrun] at hfirst
  rw [run_bind, hrun] at hfail ⊢
  cases r with
  | error e =>
    cases hfail
    exact hfirst _ rfl
  | ok a => exact hf a shown' failure hfail

theorem Quiet.bind (hx : Quiet x) (hf : ∀ a, FailsSilently output (f a)) :
    FailsSilently output (x >>= f) := by
  intro shown failure hfail
  have hshown := hx shown
  rcases hrun : x.run.run shown with ⟨r, shown'⟩
  rw [hrun] at hshown
  subst hshown
  rw [run_bind, hrun] at hfail ⊢
  cases r with
  | error _ => exact .inl rfl
  | ok a => exact hf a _ failure hfail

/-! ### The parts of the program -/

theorem quiet_lift (r : Except Failure α) : Quiet (liftM r : Console α) := fun _ => rfl

theorem quiet_throw (failure : Failure) : Quiet (throw failure : Console α) := fun _ => rfl

/-- What a line leads to: it is taken, or the run ends with what was taken of it. -/
theorem run_printLine (output : Output) (line shown : List Char) :
    (printLine output line).run.run shown = match output shown (line ++ ['\n']) with
      | none => (.ok (), shown ++ (line ++ ['\n']))
      | some refusal =>
        (.error (.output refusal.reason), shown ++ (line ++ ['\n']).take refusal.taken) := by
  have hoffer : (liftM (offer output (line ++ ['\n'])) : Console _).run.run shown =
      match output shown (line ++ ['\n']) with
      | none => (.ok none, shown ++ (line ++ ['\n']))
      | some refusal => (.ok (some refusal), shown ++ (line ++ ['\n']).take refusal.taken) := by
    change (match offer output _ shown with | (a, shown) => (Except.ok a, shown)) = _
    unfold offer
    cases output shown (line ++ ['\n']) <;> rfl
  rw [printLine, run_bind, hoffer]
  cases output shown (line ++ ['\n']) <;> rfl

theorem failsRefused_printLine (line : List Char) :
    FailsRefused output (printLine output line) := by
  intro shown failure hfail
  rw [run_printLine] at hfail ⊢
  cases hrefusal : output shown (line ++ ['\n']) with
  | none =>
    rw [hrefusal] at hfail
    cases hfail
  | some refusal =>
    rw [hrefusal] at hfail
    cases hfail
    exact ⟨shown, _, refusal, hrefusal, rfl, rfl⟩

theorem failsRefused_printNotice (text : List Char) :
    FailsRefused output (printNotice output text) := fun _ _ hfail => by cases hfail

theorem failsSilently_decorate (files : Config.Files) (options : Options) (file : Path)
    (selections : List Selection) (raw : Bool) :
    FailsSilently output (decorate output files options file selections raw) :=
  (quiet_lift _).bind fun _ => (failsRefused_printLine _).failsSilently

theorem failsRefused_showLatex (expression : List Char) :
    FailsRefused output (showLatex output expression) :=
  (failsRefused_printLine _).bind fun _ => failsRefused_printLine _

theorem Invocation.failsSilently_run (files : Config.Files) (i : Invocation) :
    FailsSilently output (i.run output files) := by
  refine (quiet_lift _).bind fun config => ?_
  split
  · exact (quiet_lift _).bind fun selections => failsSilently_decorate _ _ _ _ _
  · exact (failsRefused_showLatex _).failsSilently

theorem failsSilently_program (files : Config.Files) (environment : Option Argument)
    (args : List Argument) : FailsSilently output (program output files environment args) := by
  rw [program]
  split
  · exact Invocation.failsSilently_run files _
  · exact (quiet_throw _).failsSilently
  · exact (failsRefused_printNotice _).failsSilently
  · exact (failsRefused_printNotice _).failsSilently
  · exact (failsRefused_printNotice _).failsSilently

/-! ### Outcomes -/

theorem Outcome.status_eq_zero_iff {o : Outcome} : o.status = 0 ↔ o.failure = none := by
  obtain ⟨failure, stdout⟩ := o
  rcases failure with _ | (_ | _ | _ | _ | _) <;> simp [status, Failure.status]

theorem Outcome.exists_failure {o : Outcome} (h : o.status ≠ 0) :
    ∃ failure, o.failure = some failure :=
  Option.ne_none_iff_exists'.1 fun hnone => h (status_eq_zero_iff.2 hnone)

/-- A run that fails has printed nothing, unless the output itself has failed. -/
theorem stdout_execute_of_failure {files : Config.Files} {environment : Option Argument}
    {args : List Argument} {failure : Failure}
    (h : (execute output files environment args).failure = some failure) :
    (execute output files environment args).stdout = [] ∨
      Refused output failure (execute output files environment args).stdout := by
  have hsilent : FailsSilently output _ := failsSilently_program files environment args
  specialize hsilent []
  rw [execute] at h ⊢
  rcases hrun : (program output files environment args).run.run [] with ⟨r, shown⟩
  rw [hrun] at h hsilent
  cases r with
  | ok _ => cases h
  | error e =>
    cases h
    exact hsilent _ rfl

/-- An output that takes all of its texts does not fail. -/
theorem Output.TakesAll.not_refused (h : output.TakesAll) {failure : Failure} {shown : List Char} :
    ¬ Refused output failure shown := by
  rintro ⟨before, offered, refusal, hrefusal, -, -⟩
  rw [h] at hrefusal
  cases hrefusal

theorem Output.takesAll_unlimited : unlimited.TakesAll := fun _ _ => rfl

end MarkdownPreview.CommandLine
