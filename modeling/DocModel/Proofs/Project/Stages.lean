import DocModel.Proofs.Output.Overwrites
import DocModel.Proofs.Project.Confinement

/-!
# What precedes the first output

A build prepares and then delivers. Preparing writes artifacts alone, and it succeeds only with a model whose
report has no errors, a path for every planned output and a renderer of all templates; delivering writes the
outputs, and artifacts after them.

* `prepare`, `deliver`: the two stages, and `build_eq`, that a build consists of them.
* `Ready`: what holds once a build is prepared.
* `prepare_touchesOnly`, `prepare_ready`: what preparing writes and what it leads to.
* `outputs_when_ready`: nothing but artifacts is written unless all is ready.
-/

namespace DocModel

namespace Project

/-- What a build has settled before it renders. -/
structure Prepared where
  snapshot : Snapshot
  report : Report
  plan : OutputPlan
  render : TemplateRenderer

/-- What is rendered of a prepared build. -/
def Prepared.run (p : Prepared) (config : BuildConfig) : RenderRun :=
  RenderSetup.run ⟨p.render, config.buildRoot, config.strictCollisions, p.snapshot⟩ p.plan

/-- What a build does before it renders a snapshot that has been validated. -/
def preparePlan (engines : BuildEngines) (config : BuildConfig) (s : Snapshot) (report : Report) :
    Build Prepared := do
  let templates ← Build.ofRead fun ws => ws.readTemplates config.templateRoots
  let plan ← Build.ofExcept (OutputPlan.ofSnapshot s templates config.buildRoot)
  let report := report.add (plan.collisions.map Collision.issue)
  match fatalCollision? config plan with
  | some c =>
    writeReport config report
    throw (.collision c)
  | none =>
    let render ← Build.ofExcept (engines.templates templates)
    return ⟨s, report, plan, render⟩

/-- All that a build does before it renders. -/
def prepare (engines : BuildEngines) (stamp : BuildStamp) (config : BuildConfig)
    (enrich : Draft → Except BuildError Draft) : Build Prepared := do
  let loaded ← Build.ofRead (load stamp config)
  let draft ← Build.ofExcept (enrich (Draft.ofSnapshot loaded.snapshot))
  let s ← Build.ofExcept (draft.commit fun _ => .ok ())
  let report := Report.add ⟨loaded.issues⟩ (validate engines config s).issues
  writeArtifacts config (snapshotArtifacts config s)
  if report.hasErrors then
    writeReport config report
    throw (.invalid report)
  else
    preparePlan engines config s report

/-- What a build does once it is prepared. -/
def deliver (config : BuildConfig) (p : Prepared) : Build BuildResult := do
  let run := p.run config
  try
    writeRun run
  catch e =>
    writeReport config (p.report.add (errorIssues e))
    throw e
  let report := p.report.add (run.collisions.map Collision.issue)
  writeReport config report
  writeArtifacts config [outputsArtifact config run.files]
  return ⟨p.snapshot, report, p.plan, run.files, run.collisions⟩

variable {ws ws' : Workspace} {config : BuildConfig} {engines : BuildEngines} {stamp : BuildStamp}
  {enrich : Draft → Except BuildError Draft}

/-- Nothing comes after a build that ends with its report. -/
theorem writeReport_throw_bind {α β : Type} (config : BuildConfig) (r : Report) (e : BuildError)
    (f : α → Build β) :
    (writeReport config r >>= fun _ => (throw e : Build α)) >>= f =
      writeReport config r >>= fun _ => throw e := by
  rw [bind_assoc]
  rfl

theorem produce_eq (engines : BuildEngines) (config : BuildConfig) (s : Snapshot) (report : Report) :
    produce engines config s report = preparePlan engines config s report >>= deliver config := by
  rw [produce, preparePlan, bind_assoc]
  congr 1
  funext templates
  rw [bind_assoc]
  congr 1
  funext plan
  dsimp only
  cases fatalCollision? config plan with
  | some c => exact (writeReport_throw_bind config _ _ _).symm
  | none =>
    dsimp only
    rw [bind_assoc]
    rfl

/-- A build prepares and then delivers. -/
theorem build_eq (engines : BuildEngines) (stamp : BuildStamp) (config : BuildConfig)
    (enrich : Draft → Except BuildError Draft) :
    build engines stamp config enrich = prepare engines stamp config enrich >>= deliver config := by
  rw [build, prepare]
  simp only [bind_assoc]
  congr 1
  funext loaded
  congr 1
  funext draft
  congr 1
  funext s
  congr 1
  funext _
  split
  · exact (writeReport_throw_bind config _ _ _).symm
  · exact produce_eq engines config s _

/-! ## What preparing writes -/

/-- A file that a build writes as an artifact. -/
def IsArtifact (config : BuildConfig) (w : FileWrite) : Prop := ∃ stem v, w = artifact config (stem ++ ".json") v

theorem IsArtifact.purpose {w : FileWrite} (h : IsArtifact config w) : w.purpose = .artifact := by
  obtain ⟨stem, v, rfl⟩ := h
  rfl

theorem isArtifact_reportArtifact (config : BuildConfig) (r : Report) :
    IsArtifact config (reportArtifact config r) := ⟨"validation", r.toValue, rfl⟩

theorem isArtifact_outputsArtifact (config : BuildConfig) (files : List RenderedFile) :
    IsArtifact config (outputsArtifact config files) := ⟨"outputs", _, rfl⟩

theorem isArtifact_of_mem_snapshotArtifacts {s : Snapshot} {w : FileWrite}
    (h : w ∈ snapshotArtifacts config s) : IsArtifact config w := by
  rcases List.mem_cons.mp h with rfl | h
  · exact ⟨"snapshot", s.toValue, rfl⟩
  obtain ⟨⟨name, c⟩, -, h⟩ := List.mem_flatMap.mp h
  rcases List.mem_cons.mp h with rfl | h
  · exact ⟨"classes/" ++ name, c.toValue, rfl⟩
  · obtain ⟨schema, -, rfl⟩ := List.mem_map.mp h
    refine ⟨"classes/" ++ name ++ ".schema", schema, ?_⟩
    exact congrArg (artifact config · schema) (@String.append_assoc ("classes/" ++ name) ".schema" ".json").symm

theorem writeReport_touchesArtifacts (config : BuildConfig) (r : Report) :
    Build.TouchesOnly (IsArtifact config) (writeReport config r) :=
  writeArtifacts_touchesOnly fun _ hw => List.mem_singleton.mp hw ▸ isArtifact_reportArtifact config r

theorem preparePlan_touchesOnly (engines : BuildEngines) (config : BuildConfig) (s : Snapshot)
    (report : Report) :
    Build.TouchesOnly (IsArtifact config) (preparePlan engines config s report) := by
  refine .bind (.ofRead _) fun templates => .bind (.ofExcept _) fun plan => ?_
  dsimp only
  split
  · exact .bind (writeReport_touchesArtifacts config _) fun _ => .throw _
  · exact .bind (.ofExcept _) fun _ => .pure _

/-- Whether it succeeds or fails, preparing touches artifacts alone. -/
theorem prepare_touchesOnly (engines : BuildEngines) (stamp : BuildStamp) (config : BuildConfig)
    (enrich : Draft → Except BuildError Draft) :
    Build.TouchesOnly (IsArtifact config) (prepare engines stamp config enrich) := by
  refine .bind (.ofRead _) fun loaded => .bind (.ofExcept _) fun draft => .bind (.ofExcept _) fun s => ?_
  refine .bind (writeArtifacts_touchesOnly fun w => isArtifact_of_mem_snapshotArtifacts) fun _ => ?_
  split
  · exact .bind (writeReport_touchesArtifacts config _) fun _ => .throw _
  · exact preparePlan_touchesOnly engines config s _

/-! ## What preparing leads to -/

/-- A compiled set of templates has no template that does not parse. -/
theorem parse_of_standard {set : TemplateSet} {render : TemplateRenderer}
    (h : TemplateEngine.standard set = .ok render) :
    ∀ t ∈ set.list, ∃ nodes, TemplateNode.parse t.source = .ok nodes := by
  intro t ht
  obtain ⟨compiled, hcompiled, -⟩ := Except.bind_eq_ok_iff.mp h
  obtain ⟨entry, hentry⟩ := Except.exists_of_mapM hcompiled ht
  rw [TemplateEngine.compileOne] at hentry
  split at hentry
  · next nodes hnodes => exact ⟨nodes, hnodes⟩
  · cases hentry

theorem collisions_eq_nil_of_fatalCollision? {plan : OutputPlan} (h : fatalCollision? config plan = none)
    (hstrict : config.strictCollisions = true) : plan.collisions = [] := by
  rw [fatalCollision?, if_pos hstrict] at h
  exact List.head?_eq_none_iff.mp h

/-- All is settled for rendering: the model that was loaded from `ws` and enriched is committed and has no
errors, every output has its path, every template compiles, and under strict collisions nothing collides. -/
structure Ready (engines : BuildEngines) (stamp : BuildStamp) (config : BuildConfig)
    (enrich : Draft → Except BuildError Draft) (ws : Workspace) (p : Prepared) (ws' : Workspace)
    (loaded : LoadedProject) (draft : Draft) (templates : TemplateSet) : Prop where
  load : load stamp config ws = .ok loaded
  enrich : enrich (Draft.ofSnapshot loaded.snapshot) = .ok draft
  commit : draft.commit (fun _ => .ok ()) = .ok p.snapshot
  valid : ∀ issue ∈ loaded.issues ++ (validate engines config p.snapshot).issues, issue.level ≠ .error
  read : ws'.readTemplates config.templateRoots = .ok templates
  plan : OutputPlan.ofSnapshot p.snapshot templates config.buildRoot = .ok p.plan
  located : ∀ i ∈ p.snapshot.instances, ∀ d ∈ i.build,
    ∃ o, OutputPlan.planDirective templates config.buildRoot i.id d = .ok o
  collisions : config.strictCollisions = true → p.plan.collisions = []
  compile : engines.templates templates = .ok p.render
  parse : engines.templates = .standard → ∀ t ∈ templates.list, ∃ nodes, TemplateNode.parse t.source = .ok nodes
  report : p.report = ⟨loaded.issues ++ (validate engines config p.snapshot).issues ++
    p.plan.collisions.map Collision.issue⟩

theorem prepare_ready {p : Prepared} (h : prepare engines stamp config enrich ws = (.ok p, ws')) :
    ∃ loaded draft templates, Ready engines stamp config enrich ws p ws' loaded draft templates := by
  obtain ⟨loaded, hload, h⟩ := Build.ofRead_bind_eq_ok h
  obtain ⟨draft, hdraft, h⟩ := Build.ofRead_bind_eq_ok h
  obtain ⟨s, hs, h⟩ := Build.ofRead_bind_eq_ok h
  obtain ⟨_, mid, -, h⟩ := Build.bind_eq_ok h
  split at h
  · obtain ⟨_, _, -, h⟩ := Build.bind_eq_ok h
    cases h
  next hvalid =>
  obtain ⟨templates, htemplates, h⟩ := Build.ofRead_bind_eq_ok h
  obtain ⟨plan, hplan, h⟩ := Build.ofRead_bind_eq_ok h
  dsimp only at h
  cases hfatal : fatalCollision? config plan with
  | some c =>
    rw [hfatal] at h
    obtain ⟨_, _, -, h⟩ := Build.bind_eq_ok h
    cases h
  | none =>
  rw [hfatal] at h
  obtain ⟨render, hrender, h⟩ := Build.ofRead_bind_eq_ok h
  cases h
  refine ⟨loaded, draft, templates, hload, hdraft, hs, fun issue hissue hlevel => hvalid ?_, htemplates, hplan,
    ?_, collisions_eq_nil_of_fatalCollision? hfatal, hrender, fun hstandard => ?_, rfl⟩
  · exact List.any_eq_true.mpr ⟨issue, hissue, decide_eq_true hlevel⟩
  · intro i hi d hd
    obtain ⟨o, ho⟩ := OutputPlan.exists_plan_iff.mp ⟨plan, hplan⟩ i hi d hd
    exact ⟨o, OutputPlan.planDirective_eq_ok_iff.mpr ho⟩
  · rw [hstandard] at hrender
    exact parse_of_standard hrender

/-! ## What delivering writes -/

theorem writeResults_touchesArtifacts (config : BuildConfig) (r : Report) (files : List RenderedFile)
    (result : BuildResult) : Build.TouchesOnly (IsArtifact config) (do
      writeReport config r
      writeArtifacts config [outputsArtifact config files]
      return result) := by
  refine .bind (writeReport_touchesArtifacts config r) fun _ => .bind ?_ fun _ => .pure result
  exact writeArtifacts_touchesOnly fun w hw => List.mem_singleton.mp hw ▸ isArtifact_outputsArtifact config files

/-- Outputs are written first, and artifacts after them. -/
theorem deliver_log (config : BuildConfig) (p : Prepared) (ws : Workspace) : ∃ outputs after,
    (deliver config p ws).2.log = ws.log ++ (outputs ++ after) ∧
      outputs <+: (p.run config).files.map RenderedFile.toWrite ∧ ∀ w ∈ after, IsArtifact config w := by
  obtain ⟨outputs, hprefix, hlog⟩ := RenderSetup.log_writeRun (p.run config) ws
  -- However the run ends, only artifacts follow.
  have hend : ∀ ws', ws'.log = ws.log ++ outputs → ∀ x : Build BuildResult,
      Build.TouchesOnly (IsArtifact config) x → ∃ outputs after, (x ws').2.log = ws.log ++ (outputs ++ after) ∧
        outputs <+: (p.run config).files.map RenderedFile.toWrite ∧ ∀ w ∈ after, IsArtifact config w := by
    intro ws' hlog' x hx
    obtain ⟨after, hwrote, hafter⟩ := hx ws'
    exact ⟨outputs, after, by rw [hwrote.log, hlog', List.append_assoc], hprefix, hafter⟩
  rw [deliver]
  dsimp only
  cases hrun : writeRun (p.run config) ws with
  | mk r ws' =>
    rw [hrun] at hlog
    cases r with
    | ok _ =>
      rw [Build.tryCatch_bind_of_ok hrun]
      exact hend ws' hlog _ (writeResults_touchesArtifacts config _ _ _)
    | error e =>
      rw [Build.tryCatch_bind_of_error hrun]
      refine hend ws' hlog _
        (.bind (.bind (writeReport_touchesArtifacts config _) fun _ => .throw e) fun _ => ?_)
      exact writeResults_touchesArtifacts config _ _ _

/-! ## Builds -/

/-- What a build writes falls into three parts: artifacts, then outputs, then artifacts again. The outputs are
the first files of what is rendered, and there are none unless all was ready when the first of them was to be
written. If it was not, the build has ended with the error of its preparation, and every file that no written
artifact leads to is as it was. -/
theorem outputs_when_ready (engines : BuildEngines) (stamp : BuildStamp) (config : BuildConfig)
    (enrich : Draft → Except BuildError Draft) (ws : Workspace) : ∃ before outputs after : List FileWrite,
    (build engines stamp config enrich ws).2.log = ws.log ++ (before ++ (outputs ++ after)) ∧
    (∀ w ∈ before, w.purpose = .artifact) ∧ (∀ w ∈ after, w.purpose = .artifact) ∧
    ((∃ p ws', prepare engines stamp config enrich ws = (.ok p, ws') ∧ ws'.log = ws.log ++ before ∧
        (∃ loaded draft templates, Ready engines stamp config enrich ws p ws' loaded draft templates) ∧
        build engines stamp config enrich ws = deliver config p ws' ∧
        outputs <+: (p.run config).files.map RenderedFile.toWrite) ∨
      ∃ e ws', prepare engines stamp config enrich ws = (.error e, ws') ∧
        build engines stamp config enrich ws = (.error e, ws') ∧ outputs = [] ∧ after = [] ∧
        ∀ location, (∀ w ∈ before, ws.location w.path ≠ location) →
          ws'.tree.file? location = ws.tree.file? location) := by
  obtain ⟨before, hwrote, hbefore⟩ := prepare_touchesOnly engines stamp config enrich ws
  have hbuild : build engines stamp config enrich ws =
      (prepare engines stamp config enrich >>= deliver config) ws := by rw [build_eq]
  rw [Build.bind_apply] at hbuild
  cases hprepare : prepare engines stamp config enrich ws with
  | mk r ws' =>
    rw [hprepare] at hwrote hbuild
    cases r with
    | ok p =>
      obtain ⟨outputs, after, hlog, hprefix, hafter⟩ := deliver_log config p ws'
      refine ⟨before, outputs, after, ?_, fun w hw => (hbefore w hw).purpose, fun w hw => (hafter w hw).purpose,
        .inl ⟨p, ws', rfl, hwrote.log, prepare_ready hprepare, hbuild, hprefix⟩⟩
      rw [hbuild]
      dsimp only
      rw [hlog, hwrote.log, List.append_assoc]
    | error e =>
      refine ⟨before, [], [], ?_, fun w hw => (hbefore w hw).purpose, nofun,
        .inr ⟨e, ws', rfl, hbuild, rfl, rfl, fun location => hwrote.file?_eq⟩⟩
      rw [hbuild, List.append_nil, List.append_nil]
      exact hwrote.log

end Project

end DocModel
