import DocModel.Project
import DocModel.Proofs.Output.Confinement
import DocModel.Proofs.Output.Planning
import DocModel.Proofs.Workspace.Writes

/-!
# Overwritten files

While a plan is rendered, the claims of emitted files follow those that the plan has made. A run is followed
through its outputs and their emitted files: as long as it goes on, its files are the outputs dealt with and
what these emitted, and its collisions are the clashes among the claims of its files. Counting claims then
tells which paths are written twice.

* `clashes`, `exists_clash_iff`: claims on paths that have claims already.
* `RenderSetup.addEmitted_cases`: what an emitted file can do to a run.
* `RenderSetup.follows_run`: what a run has come to.
* `RenderSetup.no_silent_overwrite`: a path is written twice exactly if a collision names it.
-/

namespace DocModel

/-! ## Clashes -/

/-- The collisions found when claims are made one by one after some earlier ones: a claim on a path that has
claims collides with all of them. -/
def clashes (earlier : List (Path × Claim)) : List (Path × Claim) → List Collision
  | [] => []
  | m :: rest =>
    if claimsOn earlier m.1 = [] then clashes (earlier ++ [m]) rest
    else ⟨m.1, claimsOn earlier m.1 ++ [m.2]⟩ :: clashes (earlier ++ [m]) rest

theorem clashes_append (earlier made more : List (Path × Claim)) :
    clashes earlier (made ++ more) = clashes earlier made ++ clashes (earlier ++ made) more := by
  induction made generalizing earlier with
  | nil => rw [List.append_nil]; rfl
  | cons m rest ih =>
    rw [List.cons_append, clashes, clashes, ih, List.append_assoc, List.singleton_append]
    split
    · rfl
    · rw [List.cons_append]

theorem clashes_singleton (earlier : List (Path × Claim)) (m : Path × Claim) :
    clashes earlier [m] = [] ∨ ∃ c, clashes earlier [m] = [c] := by
  rw [clashes]
  split
  · exact .inl rfl
  · exact .inr ⟨_, rfl⟩

/-- A clash names the paths that are claimed late and have another claim. -/
theorem exists_clash_iff {earlier made : List (Path × Claim)} {p : Path} :
    (∃ c ∈ clashes earlier made, c.path.same p = true) ↔
      0 < (claimsOn made p).length ∧ 1 < (claimsOn earlier p).length + (claimsOn made p).length := by
  induction made generalizing earlier with
  | nil => simp [clashes, claimsOn]
  | cons m rest ih =>
    have hmade : claimsOn (m :: rest) p = claimsOn [m] p ++ claimsOn rest p := claimsOn_append [m] rest p
    rw [hmade, clashes, List.length_append, claimsOn_singleton]
    have hlater := @ih (earlier ++ [m])
    rw [claimsOn_append, List.length_append, claimsOn_singleton] at hlater
    by_cases hsame : m.1.same p = true
    · rw [if_pos hsame, List.length_singleton] at hlater ⊢
      rw [claimsOn_congr hsame]
      split
      · next hnone =>
        rw [hlater, hnone, List.length_nil]
        omega
      · next hsome =>
        have hpos := List.length_pos_iff.mpr hsome
        exact ⟨fun _ => by omega, fun _ => ⟨_, List.mem_cons_self, hsame⟩⟩
    · rw [if_neg hsame, List.length_nil] at hlater ⊢
      rw [Nat.zero_add]
      rw [Nat.add_zero] at hlater
      split
      · exact hlater
      · rw [List.exists_mem_cons_iff, or_iff_right hsame]
        exact hlater

namespace Tracker

/-- The tracker after some claims. -/
def claimAll (t : Tracker) (made : List (Path × Claim)) : Tracker :=
  made.foldl (fun t m => (t.claim m.1 m.2).2) t

theorem claims_ofPlan (plan : OutputPlan) :
    (ofPlan plan).claims = ClaimTable.ofClaims (plannedClaims plan.outputs) := by
  rw [ofPlan, ClaimTable.ofClaims, plannedClaims, List.foldl_map]

/-- A claim collides with all that were made on its path, or there are none and it does not collide. -/
theorem claim_eq {t : Tracker} {made : List (Path × Claim)} (h : t.claims = ClaimTable.ofClaims made) (p : Path)
    (c : Claim) :
    t.claim p c = ((clashes made [(p, c)]).head?, ⟨ClaimTable.ofClaims (made ++ [(p, c)])⟩) := by
  rw [claim, h, ClaimTable.on_ofClaims, ClaimTable.ofClaims_concat, clashes]
  by_cases hnone : claimsOn made p = []
  · simp [hnone, clashes]
  · simp [hnone]

theorem claims_claimAll (plan : OutputPlan) (made : List (Path × Claim)) :
    ((ofPlan plan).claimAll made).claims = ClaimTable.ofClaims (plannedClaims plan.outputs ++ made) := by
  induction made using List.reverseRecOn with
  | nil => rw [List.append_nil]; exact claims_ofPlan plan
  | append_singleton made m ih =>
    rw [claimAll, List.foldl_append, List.foldl_cons, List.foldl_nil, ← claimAll, claim_eq ih, List.append_assoc]

end Tracker

/-! ## The files of a run -/

/-- The outputs among some files that directives have asked for. -/
def directiveOutputs (files : List RenderedFile) : List PlannedOutput :=
  (files.filter fun f => f.origin = .directive).map fun f => ⟨f.path, f.template, f.instanceId⟩

/-- The claims of the emitted files among some files. -/
def emittedClaims (files : List RenderedFile) : List (Path × Claim) :=
  (files.filter fun f => f.origin = .emitted).map fun f => (f.path, ⟨f.template, f.instanceId, .emitted⟩)

/-- The file that a directive has asked for. -/
def directiveFile (o : PlannedOutput) (text : String) : RenderedFile :=
  ⟨o.path, o.template, o.instanceId, .directive, text⟩

/-- The file that a template emits at a path. -/
def emittedFile (o : PlannedOutput) (path : Path) (f : EmittedFile) : RenderedFile :=
  ⟨path, o.template, o.instanceId, .emitted, f.content⟩

/-- The claim that an emitted file makes. -/
def emittedClaim (o : PlannedOutput) : Claim := ⟨o.template, o.instanceId, .emitted⟩

theorem directiveOutputs_append (files more : List RenderedFile) :
    directiveOutputs (files ++ more) = directiveOutputs files ++ directiveOutputs more := by
  simp only [directiveOutputs, List.filter_append, List.map_append]

theorem emittedClaims_append (files more : List RenderedFile) :
    emittedClaims (files ++ more) = emittedClaims files ++ emittedClaims more := by
  simp only [emittedClaims, List.filter_append, List.map_append]

theorem directiveOutputs_directive (files : List RenderedFile) (o : PlannedOutput) (text : String) :
    directiveOutputs (files ++ [directiveFile o text]) = directiveOutputs files ++ [o] :=
  directiveOutputs_append files _

theorem emittedClaims_directive (files : List RenderedFile) (o : PlannedOutput) (text : String) :
    emittedClaims (files ++ [directiveFile o text]) = emittedClaims files :=
  (emittedClaims_append files _).trans (List.append_nil _)

theorem directiveOutputs_emitted (files : List RenderedFile) (o : PlannedOutput) (path : Path)
    (f : EmittedFile) : directiveOutputs (files ++ [emittedFile o path f]) = directiveOutputs files :=
  (directiveOutputs_append files _).trans (List.append_nil _)

theorem emittedClaims_emitted (files : List RenderedFile) (o : PlannedOutput) (path : Path)
    (f : EmittedFile) :
    emittedClaims (files ++ [emittedFile o path f]) = emittedClaims files ++ [(path, emittedClaim o)] :=
  emittedClaims_append files _

/-- The files on a path are those that directives ask for and those that are emitted. -/
theorem countP_files (files : List RenderedFile) (p : Path) :
    files.countP (fun f => f.path.same p) =
      (claimsOn (plannedClaims (directiveOutputs files)) p).length +
        (claimsOn (emittedClaims files) p).length := by
  have hemitted : files.filter (fun f => f.origin = .emitted) =
      files.filter fun f => !decide (f.origin = .directive) :=
    List.filter_congr fun f _ => by cases f.origin <;> rfl
  rw [length_claimsOn, length_claimsOn, plannedClaims, directiveOutputs, emittedClaims, List.countP_map,
    List.countP_map, List.countP_map, hemitted]
  exact List.countP_eq_countP_filter_add files _ _

namespace RenderSetup

variable {setup : RenderSetup} {plan : OutputPlan} {run : RenderRun}

/-- An emitted file has no path, which ends the run; or it clashes and ends a strict run; or it is added, with
its clash if it has one. -/
theorem addEmitted_cases (setup : RenderSetup) {made : List (Path × Claim)}
    (h : run.tracker.claims = ClaimTable.ofClaims made) (o : PlannedOutput) (f : EmittedFile) :
    (∃ fault, Output.outputPath o.template f.filename setup.root = .error fault ∧
      setup.addEmitted o run f = { run with stopped := some (.location o.template o.instanceId fault) }) ∨
    ∃ path, Output.outputPath o.template f.filename setup.root = .ok path ∧
      ((∃ c, clashes made [(path, emittedClaim o)] = [c] ∧ setup.strict = true ∧ setup.addEmitted o run f =
          { run with
            tracker := ⟨ClaimTable.ofClaims (made ++ [(path, emittedClaim o)])⟩
            stopped := some (.collision c) }) ∨
        (clashes made [(path, emittedClaim o)] = [] ∨ setup.strict = false) ∧ setup.addEmitted o run f =
          { run with
            tracker := ⟨ClaimTable.ofClaims (made ++ [(path, emittedClaim o)])⟩
            files := run.files ++ [emittedFile o path f]
            collisions := run.collisions ++ clashes made [(path, emittedClaim o)] }) := by
  rw [addEmitted]
  cases hpath : Output.outputPath o.template f.filename setup.root with
  | error fault => exact .inl ⟨fault, rfl, rfl⟩
  | ok path =>
    refine .inr ⟨path, rfl, ?_⟩
    dsimp only
    rw [Tracker.claim_eq h path ⟨o.template, o.instanceId, .emitted⟩]
    rcases clashes_singleton made (path, emittedClaim o) with hclash | ⟨c, hclash⟩
    · refine .inr ⟨.inl hclash, ?_⟩
      rw [← emittedClaim, hclash, List.append_nil]
      rfl
    · rw [← emittedClaim, hclash]
      cases setup.strict with
      | true => exact .inl ⟨c, rfl, rfl, rfl⟩
      | false => exact .inr ⟨.inr rfl, rfl⟩

/-- What a run through outputs `done` of a plan has come to: its files are those outputs and what they
emitted, and its collisions the clashes among the claims. -/
structure Follows (setup : RenderSetup) (plan : OutputPlan) (done : List PlannedOutput) (run : RenderRun) :
    Prop where
  outputs : directiveOutputs run.files <+: done
  /-- A run that goes on has left out no output. -/
  complete : run.stopped = none → directiveOutputs run.files = done
  claims : run.stopped = none → run.tracker.claims =
    ClaimTable.ofClaims (plannedClaims plan.outputs ++ emittedClaims run.files)
  collisions : run.collisions = clashes (plannedClaims plan.outputs) (emittedClaims run.files)
  strict : setup.strict = true → run.collisions = []
  /-- The collision that has ended a run is a clash as well. -/
  clash : ∀ c, run.stopped = some (.collision c) → ∃ path claim,
    clashes (plannedClaims plan.outputs ++ emittedClaims run.files) [(path, claim)] = [c]

namespace Follows

variable {done : List PlannedOutput}

/-- Ending a run changes nothing of what it has come to, whatever it leaves out. -/
theorem stop (h : Follows setup plan done run) {more : List PlannedOutput} (hmore : done <+: more)
    {e : BuildError} (tracker : Tracker) (he : ∀ c, e = .collision c → ∃ path claim,
      clashes (plannedClaims plan.outputs ++ emittedClaims run.files) [(path, claim)] = [c]) :
    Follows setup plan more { run with stopped := some e, tracker } :=
  ⟨h.outputs.trans hmore, nofun, nofun, h.collisions, h.strict, fun c hc => he c (Option.some.inj hc)⟩

/-- A run that has ended leaves out what follows. -/
theorem leaveOut (h : Follows setup plan done run) (hstopped : run.stopped ≠ none) (o : PlannedOutput) :
    Follows setup plan (done ++ [o]) run :=
  ⟨h.outputs.trans (List.prefix_append _ _), fun hgoes => absurd hgoes hstopped,
    fun hgoes => absurd hgoes hstopped, h.collisions, h.strict, h.clash⟩

theorem addEmitted (h : Follows setup plan done run) (hgoes : run.stopped = none) (o : PlannedOutput)
    (f : EmittedFile) : Follows setup plan done (setup.addEmitted o run f) := by
  obtain ⟨fault, -, heq⟩ | ⟨path, -, ⟨c, hclash, -, heq⟩ | ⟨hadd, heq⟩⟩ :=
    addEmitted_cases setup (h.claims hgoes) o f
  · rw [heq]
    exact h.stop (List.prefix_refl _) _ nofun
  · rw [heq]
    refine h.stop (List.prefix_refl _) _ fun c' hc => ⟨path, emittedClaim o, ?_⟩
    cases hc
    exact hclash
  · rw [heq]
    refine ⟨?_, fun _ => ?_, fun _ => ?_, ?_, fun hstrict => ?_, fun c hc => nomatch hgoes.symm.trans hc⟩
    · rw [directiveOutputs_emitted]
      exact h.outputs
    · rw [directiveOutputs_emitted]
      exact h.complete hgoes
    · rw [emittedClaims_emitted, List.append_assoc]
    · rw [emittedClaims_emitted, clashes_append, h.collisions]
    · rw [h.strict hstrict, hadd.resolve_right (by simp [hstrict])]
      rfl

theorem addOutput (h : Follows setup plan done run) (hgoes : run.stopped = none) (o : PlannedOutput) :
    Follows setup plan (done ++ [o]) (setup.addOutput run o) := by
  have hmore : done <+: done ++ [o] := List.prefix_append _ _
  rw [RenderSetup.addOutput]
  split
  · exact h.stop hmore _ fun c hc => BuildError.noConfusion hc
  split
  · exact h.stop hmore _ fun c hc => BuildError.noConfusion hc
  · next rendered _ =>
    have houtputs : directiveOutputs (run.files ++ [directiveFile o rendered.text]) = done ++ [o] := by
      rw [directiveOutputs_directive, h.complete hgoes]
    have hemitted := emittedClaims_directive run.files o rendered.text
    refine foldl_proceed_keeps (fun f _ run hgoes hrun => hrun.addEmitted hgoes o f) ?_
    refine ⟨houtputs ▸ List.prefix_refl _, fun _ => houtputs, fun _ => ?_, ?_, h.strict,
      fun c hc => absurd (hc.symm.trans hgoes) (Option.some_ne_none _)⟩
    · show run.tracker.claims = _
      rw [← directiveFile, hemitted]
      exact h.claims hgoes
    · show run.collisions = _
      rw [← directiveFile, hemitted]
      exact h.collisions

theorem foldl_proceed (setup : RenderSetup) (plan : OutputPlan) (outputs : List PlannedOutput) :
    Follows setup plan outputs (outputs.foldl (proceed setup.addOutput) { tracker := Tracker.ofPlan plan }) := by
  induction outputs using List.reverseRecOn with
  | nil =>
    refine ⟨List.prefix_refl _, fun _ => rfl, fun _ => ?_, rfl, fun _ => rfl, nofun⟩
    exact (Tracker.claims_ofPlan plan).trans (congrArg _ (List.append_nil _).symm)
  | append_singleton outputs o ih =>
    rw [List.foldl_append, List.foldl_cons, List.foldl_nil, proceed]
    split
    · next hstopped => exact ih.leaveOut (Option.isSome_iff_ne_none.mp hstopped) o
    · next hgoes => exact ih.addOutput (Option.not_isSome_iff_eq_none.mp hgoes) o

end Follows

/-- What a run has come to at its end. -/
theorem follows_run (setup : RenderSetup) (plan : OutputPlan) :
    Follows setup plan plan.outputs (setup.run plan) := Follows.foldl_proceed setup plan plan.outputs

/-! ## What is written twice -/

variable {s : Snapshot} {templates : TemplateSet} {root : Path}

/-- The collisions of a plan name the paths on which it makes several claims. -/
theorem exists_planned_collision_iff (h : OutputPlan.ofSnapshot s templates root = .ok plan) {p : Path} :
    (∃ c ∈ plan.collisions, c.path.same p = true) ↔ 1 < (claimsOn (plannedClaims plan.outputs) p).length := by
  obtain ⟨wanted, -, rfl⟩ := OutputPlan.ofSnapshot_eq_ok_iff.mp h
  exact ClaimTable.exists_collision_iff

theorem exists_collision_of_run_iff (setup : RenderSetup) (plan : OutputPlan) {p : Path} :
    (∃ c ∈ (setup.run plan).collisions, c.path.same p = true) ↔
      0 < (claimsOn (emittedClaims (setup.run plan).files) p).length ∧
        1 < (claimsOn (plannedClaims plan.outputs) p).length +
          (claimsOn (emittedClaims (setup.run plan).files) p).length := by
  rw [(follows_run setup plan).collisions, exists_clash_iff]

/-- A run that has not been ended writes a path twice exactly if a collision names it. -/
theorem written_twice_iff (h : OutputPlan.ofSnapshot s templates root = .ok plan)
    (hgoes : (setup.run plan).stopped = none) (p : Path) :
    1 < (setup.run plan).files.countP (fun f => f.path.same p) ↔
      (∃ c ∈ plan.collisions, c.path.same p = true) ∨
        ∃ c ∈ (setup.run plan).collisions, c.path.same p = true := by
  rw [countP_files, (follows_run setup plan).complete hgoes, exists_planned_collision_iff h,
    exists_collision_of_run_iff]
  omega

/-- However a run has ended, a path that no collision names is written once at most. -/
theorem countP_files_le_one (h : OutputPlan.ofSnapshot s templates root = .ok plan) {p : Path}
    (hplan : ¬ ∃ c ∈ plan.collisions, c.path.same p = true)
    (hrun : ¬ ∃ c ∈ (setup.run plan).collisions, c.path.same p = true) :
    (setup.run plan).files.countP (fun f => f.path.same p) ≤ 1 := by
  rw [exists_planned_collision_iff h] at hplan
  rw [exists_collision_of_run_iff] at hrun
  have hcut : (claimsOn (plannedClaims (directiveOutputs (setup.run plan).files)) p).length ≤
      (claimsOn (plannedClaims plan.outputs) p).length := by
    rw [length_claimsOn, length_claimsOn]
    exact ((follows_run setup plan).outputs.map _).sublist.countP_le
  rw [countP_files]
  omega

/-- Files of which no two are on one path. -/
def PathsDistinct (files : List RenderedFile) : Prop :=
  files.Pairwise fun a b => a.path.same b.path = false

theorem pathsDistinct_of_countP {files : List RenderedFile}
    (h : ∀ p, files.countP (fun f => f.path.same p) ≤ 1) : PathsDistinct files := by
  induction files with
  | nil => exact List.Pairwise.nil
  | cons f rest ih =>
    have hf := h f.path
    rw [List.countP_cons, if_pos (Path.same_self f.path)] at hf
    refine List.pairwise_cons.mpr ⟨fun g hg => ?_, ih fun p => ?_⟩
    · have hnone := List.countP_eq_zero.mp (Nat.le_zero.mp (Nat.le_of_add_le_add_right hf)) g hg
      rw [Path.same_comm]
      exact Bool.eq_false_iff.mpr hnone
    · exact Nat.le_trans (List.sublist_cons_self f rest).countP_le (h p)

/-- What is written of a run are its files, or the first of them if the file system fails. -/
theorem log_writeRun (run : RenderRun) (ws : Workspace) : ∃ written,
    written <+: run.files.map RenderedFile.toWrite ∧ (Project.writeRun run ws).2.log = ws.log ++ written := by
  rw [Project.writeRun, Build.bind_apply]
  rcases Build.writeAll_cases (run.files.map RenderedFile.toWrite) ws with
    ⟨p, fault, ws', written, hwrite, hwritten, hlog⟩ | ⟨ws', hwrite, hlog⟩
  · rw [hwrite]
    exact ⟨written, hwritten, hlog⟩
  · rw [hwrite]
    refine ⟨_, List.prefix_refl _, ?_⟩
    cases run.stopped <;> exact hlog

/-- Files on distinct paths are written to distinct paths. -/
theorem PathsDistinct.log_writeRun (h : PathsDistinct run.files) (ws : Workspace) : ∃ written,
    (Project.writeRun run ws).2.log = ws.log ++ written ∧
      written.Pairwise fun a b => a.path.same b.path = false := by
  obtain ⟨written, hprefix, hlog⟩ := RenderSetup.log_writeRun run ws
  have hfiles : (run.files.map RenderedFile.toWrite).Pairwise fun a b => a.path.same b.path = false :=
    List.pairwise_map.mpr h
  exact ⟨written, hlog, hfiles.sublist hprefix.sublist⟩

/-- Nothing is overwritten silently, whatever templates emit: a run that has not been ended has a path twice
among its files exactly if a collision of the plan or of the run names it. A strict run of a plan without
collisions writes no path twice, however it ends. A tracker reports with a claim all those made before it on
its path, the planned ones first; and the collisions of a run are of this kind. -/
theorem no_silent_overwrite (h : OutputPlan.ofSnapshot s templates root = .ok plan) (setup : RenderSetup) :
    ((setup.run plan).stopped = none → ∀ p, 1 < (setup.run plan).files.countP (fun f => f.path.same p) ↔
      (∃ c ∈ plan.collisions, c.path.same p = true) ∨
        ∃ c ∈ (setup.run plan).collisions, c.path.same p = true) ∧
    (plan.collisions = [] → setup.strict = true → PathsDistinct (setup.run plan).files ∧
      ∀ ws, ∃ written, (Project.writeRun (setup.run plan) ws).2.log = ws.log ++ written ∧
        written.Pairwise fun a b => a.path.same b.path = false) ∧
    (∀ made p c, (((Tracker.ofPlan plan).claimAll made).claim p c).1 =
      if claimsOn (plannedClaims plan.outputs) p ++ claimsOn made p = [] then none
      else some ⟨p, claimsOn (plannedClaims plan.outputs) p ++ claimsOn made p ++ [c]⟩) ∧
    (setup.run plan).collisions = clashes (plannedClaims plan.outputs) (emittedClaims (setup.run plan).files) ∧
    ∀ c, (setup.run plan).stopped = some (.collision c) → ∃ path claim,
      clashes (plannedClaims plan.outputs ++ emittedClaims (setup.run plan).files) [(path, claim)] = [c] := by
  have hfollows := follows_run setup plan
  refine ⟨fun hgoes p => written_twice_iff h hgoes p, fun hplan hstrict => ?_, fun made p c => ?_,
    hfollows.collisions, hfollows.clash⟩
  · have hdistinct : PathsDistinct (setup.run plan).files := pathsDistinct_of_countP fun p => by
      refine countP_files_le_one h ?_ ?_
      · simp [hplan]
      · simp [hfollows.strict hstrict]
    exact ⟨hdistinct, hdistinct.log_writeRun⟩
  · rw [Tracker.claim_eq (Tracker.claims_claimAll plan made), clashes, claimsOn_append]
    split <;> rfl

/-- A template that emits a file over the output that it is rendered for. -/
def overItself (strict : Bool) : RenderSetup :=
  ⟨fun _ _ => .ok ⟨"page", [⟨"y", "new"⟩, ⟨"/x", "again"⟩]⟩, ⟨"o"⟩, strict,
    OutputPlan.modelOf [{ id := "a", build := [⟨"page", some "x"⟩] }]⟩

/-- The output is written again and a collision says so; a strict run stops before. -/
theorem no_silent_overwrite_overItself :
    ∃ plan, OutputPlan.ofSnapshot (overItself true).snapshot OutputPlan.onePage ⟨"o"⟩ = .ok plan ∧
      1 < ((overItself false).run plan).files.countP (fun f => f.path.same ⟨"o/x"⟩) ∧
      PathsDistinct ((overItself true).run plan).files := by
  have h : OutputPlan.ofSnapshot (overItself true).snapshot OutputPlan.onePage ⟨"o"⟩ =
      .ok ⟨[⟨⟨"o/x"⟩, "page", "a"⟩], []⟩ := by rfl
  refine ⟨_, h, ((no_silent_overwrite h (overItself false)).1 ?_ _).mpr (.inr ?_),
    ((no_silent_overwrite h (overItself true)).2.1 rfl rfl).1⟩
  · rfl
  · exact ⟨⟨⟨"o/x"⟩, [⟨"page", "a", .directive⟩, ⟨"page", "a", .emitted⟩]⟩, by decide +kernel, by decide⟩

end RenderSetup

end DocModel
