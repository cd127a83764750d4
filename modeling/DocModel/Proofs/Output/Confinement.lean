import DocModel.Output.Rendering
import DocModel.Proofs.Except
import DocModel.Proofs.Workspace.Location

/-!
# Outputs stay inside

All filenames of outputs go through `Output.outputPath`, so what a plan asks for and what its templates emit
is inside the build root.

* `isOutputPath_of_ofSnapshot`, `inside_of_ofSnapshot`: the planned outputs.
* `isOutputPath_of_run`, `inside_of_run`: the files of a run.
-/

namespace DocModel

/-- Some filename is accepted for the path. -/
def Output.IsOutputPath (root p : Path) : Prop := ∃ key filename, outputPath key filename root = .ok p

theorem Output.IsOutputPath.inside {root p : Path} (h : IsOutputPath root p) (ws : Workspace) :
    ws.Inside root p := by
  obtain ⟨_, _, hpath⟩ := h
  exact ws.inside_outputPath hpath

open Output (IsOutputPath)

namespace OutputPlan

theorem isOutputPath_of_planDirective {templates : TemplateSet} {root : Path} {id : String}
    {d : BuildDirective} {o : PlannedOutput} (h : planDirective templates root id d = .ok o) :
    IsOutputPath root o.path := by
  rw [planDirective] at h
  split at h
  · cases h
  dsimp only at h
  split at h
  · next hpath => cases h; exact ⟨_, _, hpath⟩
  · cases h

theorem forall_mem_foldl_add {P : PlannedOutput → Prop} {outputs : List PlannedOutput}
    (ho : ∀ o ∈ outputs, P o) {progress : Progress} (hp : ∀ o ∈ progress.outputs, P o) :
    ∀ o ∈ (outputs.foldl Progress.add progress).outputs, P o := by
  induction outputs generalizing progress with
  | nil => exact hp
  | cons o rest ih =>
    obtain ⟨hhead, hrest⟩ := List.forall_mem_cons.mp ho
    refine ih hrest ?_
    rw [Progress.add]
    split
    · exact hp
    · intro x hx
      rcases List.mem_append.mp hx with hx | hx
      · exact hp x hx
      · rw [List.mem_singleton.mp hx]
        exact hhead

theorem isOutputPath_of_ofSnapshot {s : Snapshot} {templates : TemplateSet} {root : Path} {plan : OutputPlan}
    (h : ofSnapshot s templates root = .ok plan) : ∀ o ∈ plan.outputs, IsOutputPath root o.path := by
  obtain ⟨outputs, hmap, hplan⟩ := Except.bind_eq_ok_iff.mp h
  cases hplan
  refine forall_mem_foldl_add (P := fun o => IsOutputPath root o.path) (fun o ho => ?_) (by simp)
  obtain ⟨request, -, hrequest⟩ := (Except.mem_iff_of_mapM hmap).mp ho
  exact isOutputPath_of_planDirective hrequest

/-- All planned outputs are inside the build root. -/
theorem inside_of_ofSnapshot (ws : Workspace) {s : Snapshot} {templates : TemplateSet} {root : Path}
    {plan : OutputPlan} (h : ofSnapshot s templates root = .ok plan) :
    ∀ o ∈ plan.outputs, ws.Inside root o.path :=
  fun o ho => (isOutputPath_of_ofSnapshot h o ho).inside ws

end OutputPlan

namespace RenderSetup

variable {setup : RenderSetup} {ws : Workspace} {P : Path → Prop}

/-- All files of a run are inside the build root. -/
def RunInside (ws : Workspace) (setup : RenderSetup) (run : RenderRun) : Prop :=
  ∀ f ∈ run.files, ws.Inside setup.root f.path

/-- What adding keeps, as long as a run goes on, is kept by going on with one thing after the other. -/
theorem foldl_proceed_keeps {α : Type} {P : RenderRun → Prop} {add : RenderRun → α → RenderRun} {xs : List α}
    (hadd : ∀ x ∈ xs, ∀ run, run.stopped = none → P run → P (add run x)) {run : RenderRun} (h : P run) :
    P (xs.foldl (proceed add) run) := by
  induction xs generalizing run with
  | nil => exact h
  | cons x rest ih =>
    obtain ⟨hx, hrest⟩ := List.forall_mem_cons.mp hadd
    refine ih hrest ?_
    rw [proceed]
    split
    · exact h
    · next hgoes => exact hx run (Option.not_isSome_iff_eq_none.mp hgoes) h

theorem forall_mem_concat {files : List RenderedFile} (h : ∀ f ∈ files, P f.path) {f : RenderedFile}
    (hf : P f.path) : ∀ g ∈ files ++ [f], P g.path := by
  intro g hg
  rcases List.mem_append.mp hg with hg | hg
  · exact h g hg
  · rw [List.mem_singleton.mp hg]
    exact hf

theorem forall_mem_addEmitted (hP : ∀ p, IsOutputPath setup.root p → P p) {run : RenderRun}
    (h : ∀ f ∈ run.files, P f.path) (o : PlannedOutput) (f : EmittedFile) :
    ∀ g ∈ (setup.addEmitted o run f).files, P g.path := by
  rw [RenderSetup.addEmitted]
  split
  · exact h
  · next path hpath =>
    have hnew := hP path ⟨_, _, hpath⟩
    dsimp only
    split
    · exact forall_mem_concat h hnew
    · split
      · exact h
      · exact forall_mem_concat h hnew

theorem forall_mem_addOutput (hP : ∀ p, IsOutputPath setup.root p → P p) {run : RenderRun}
    (h : ∀ f ∈ run.files, P f.path) {o : PlannedOutput} (ho : P o.path) :
    ∀ g ∈ (setup.addOutput run o).files, P g.path := by
  rw [RenderSetup.addOutput]
  split
  · exact h
  split
  · exact h
  · refine foldl_proceed_keeps (P := fun run : RenderRun => ∀ g ∈ run.files, P g.path)
      (fun f _ _ _ hrun => forall_mem_addEmitted hP hrun o f) ?_
    exact forall_mem_concat h ho

/-- What holds of the planned paths and of all that filenames can lead to holds of the paths of a run. -/
theorem forall_mem_run (hP : ∀ p, IsOutputPath setup.root p → P p) {plan : OutputPlan}
    (h : ∀ o ∈ plan.outputs, P o.path) : ∀ f ∈ (setup.run plan).files, P f.path := by
  rw [run]
  refine foldl_proceed_keeps (P := fun run : RenderRun => ∀ f ∈ run.files, P f.path)
    (fun o ho _ _ hrun => forall_mem_addOutput hP hrun (h o ho)) ?_
  intro f hf
  cases hf

theorem isOutputPath_of_run (setup : RenderSetup) {plan : OutputPlan}
    (h : ∀ o ∈ plan.outputs, IsOutputPath setup.root o.path) :
    ∀ f ∈ (setup.run plan).files, IsOutputPath setup.root f.path :=
  forall_mem_run (fun _ hp => hp) h

/-- All files that a run renders are inside the build root if all planned outputs are. -/
theorem inside_of_run (setup : RenderSetup) {plan : OutputPlan}
    (h : ∀ o ∈ plan.outputs, ws.Inside setup.root o.path) :
    RunInside ws setup (setup.run plan) :=
  forall_mem_run (fun _ hp => hp.inside ws) h

end RenderSetup

end DocModel
