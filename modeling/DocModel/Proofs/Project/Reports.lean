import DocModel.Proofs.Output.StrictRuns
import DocModel.Proofs.Project.OutputRecords

/-!
# The report at the end of a build

Once the artifacts of its model are written, a build ends in one of seven ways. Four of them write the report, and
three of these tell of every collision that was found. A build that cannot read its templates, plan its outputs or
compile its templates writes none, so that `validation.json` is missing or that of an earlier build; and a run that
ends with another error than a collision leaves out the collisions it has met.

* `Build.Settles`: a build that writes some files and then ends.
* `Exit`: the ways to end, with what is written and what is found on each.
* `settles_conclude`: a build goes the way that the model and the templates determine.
* `report_at_end`: what `validation.json` holds in the end.
-/

namespace DocModel

/-- The collision that an error tells of. -/
def BuildError.collisions : BuildError → List Collision
  | collision c => [c]
  | _ => []

namespace Build

variable {α : Type} {ws : Workspace} {writes more : List FileWrite} {result : Except BuildError α}

/-- The build writes some files and then ends with a result, or with a fault where one of them cannot be written. -/
structure Settles (x : Build α) (writes : List FileWrite) (result : Except BuildError α) (ws : Workspace) : Prop where
  written : ∀ ws', Build.writeAll writes ws = (.ok (), ws') → x ws = (result, ws')
  failed : ∀ e ws', Build.writeAll writes ws = (.error e, ws') → ∃ p fault, (x ws).1 = .error (.io p fault)

theorem Settles.of_eq {x : Build α} (h : x ws = (result, ws)) : Settles x [] result ws := by
  refine ⟨fun ws' hwrites => ?_, nofun⟩
  cases hwrites
  exact h

theorem Settles.congr {x y : Build α} (h : x ws = y ws) (hy : Settles y writes result ws) :
    Settles x writes result ws :=
  ⟨fun ws' hwrites => h ▸ hy.written ws' hwrites, fun e ws' hwrites => h ▸ hy.failed e ws' hwrites⟩

/-- A build that writes files and goes on from there as another one. -/
theorem Settles.after {x : Build α}
    (hdone : ∀ mid, Build.writeAll writes ws = (.ok (), mid) → ∃ y, x ws = y mid ∧ Settles y more result mid)
    (hfail : ∀ p fault mid, Build.writeAll writes ws = (.error (.io p fault), mid) →
      ∃ p fault, (x ws).1 = .error (.io p fault)) : Settles x (writes ++ more) result ws := by
  rcases writeAll_cases writes ws with ⟨p, fault, mid, -, hwrite, -⟩ | ⟨mid, hwrite, -⟩
  · have hall : Build.writeAll (writes ++ more) ws = (.error (.io p fault), mid) := by
      rw [writeAll_append, bind_apply, hwrite]
    exact ⟨fun ws' hwrites => (nomatch hall.symm.trans hwrites), fun _ _ _ => hfail p fault mid hwrite⟩
  · have hall : Build.writeAll (writes ++ more) ws = Build.writeAll more mid := by
      rw [writeAll_append, bind_apply, hwrite]
    obtain ⟨y, hgoes, hy⟩ := hdone mid hwrite
    exact ⟨fun ws' hwrites => hgoes ▸ hy.written ws' (hall ▸ hwrites),
      fun e ws' hwrites => hgoes ▸ hy.failed e ws' (hall ▸ hwrites)⟩

theorem Settles.writeAll_bind {f : Unit → Build α} (h : ∀ mid, Settles (f ()) more result mid) :
    Settles (Build.writeAll writes >>= f) (writes ++ more) result ws :=
  .after (fun mid hdone => ⟨f (), by rw [bind_apply, hdone], h mid⟩)
    fun p fault mid hfail => ⟨p, fault, by rw [bind_apply, hfail]⟩

/-- Ending with a fault is ending with a fault, whether the files before it can be written or not. -/
theorem Settles.exists_fault {x : Build α} {p : SourcePath} {fault : IoFault}
    (h : Settles x writes (.error (.io p fault)) ws) : ∃ p fault, (x ws).1 = .error (.io p fault) := by
  rcases writeAll_cases writes ws with ⟨_, _, ws', -, hfail, -⟩ | ⟨ws', hdone, -⟩
  · exact h.failed _ ws' hfail
  · exact ⟨p, fault, congrArg Prod.fst (h.written ws' hdone)⟩

end Build

namespace Project

variable {ws ws' : Workspace} {config : BuildConfig} {engines : BuildEngines} {stamp : BuildStamp}
  {enrich : Draft → Except BuildError Draft} {s : Snapshot} {report : Report} {loaded : LoadedProject}

theorem errorIssues_eq (e : BuildError) : errorIssues e = e.collisions.map Collision.issue := by
  cases e <;> rfl

/-! ## The ways to end -/

/-- How a build ends, once the artifacts of its model are written. -/
inductive Exit where
  /-- The report has errors. -/
  | invalid
  /-- The templates cannot be read. -/
  | unread (e : BuildError)
  /-- An output has no template or no path. -/
  | unplanned (e : BuildError)
  /-- A collision of the plan ends the build. -/
  | colliding (plan : OutputPlan) (c : Collision)
  /-- A template does not compile. -/
  | uncompiled (plan : OutputPlan) (e : BuildError)
  /-- The run has ended with an error. -/
  | stopped (plan : OutputPlan) (run : RenderRun) (e : BuildError)
  | done (plan : OutputPlan) (run : RenderRun)

namespace Exit

def ofRun (plan : OutputPlan) (run : RenderRun) : Exit :=
  match run.stopped with
  | some e => stopped plan run e
  | none => done plan run

def ofPlan (engines : BuildEngines) (config : BuildConfig) (s : Snapshot) (templates : TemplateSet)
    (plan : OutputPlan) : Exit :=
  match engines.templates templates with
  | .error e => uncompiled plan e
  | .ok render => ofRun plan (RenderSetup.run ⟨render, config.buildRoot, config.strictCollisions, s⟩ plan)

def ofTemplates (engines : BuildEngines) (config : BuildConfig) (s : Snapshot) (templates : TemplateSet) : Exit :=
  match OutputPlan.ofSnapshot s templates config.buildRoot with
  | .error e => unplanned e
  | .ok plan =>
    match fatalCollision? config plan with
    | some c => colliding plan c
    | none => ofPlan engines config s templates plan

/-- How a build ends that goes on with a model and the report on it. -/
def of (engines : BuildEngines) (config : BuildConfig) (s : Snapshot) (report : Report) (ws : Workspace) : Exit :=
  if report.hasErrors then invalid
  else
    match ws.readTemplates config.templateRoots with
    | .error e => unread e
    | .ok templates => ofTemplates engines config s templates

/-- Every collision found before the end: those of the plan, the clashes among the claims of the files that were
rendered, and the one that has ended the run. -/
def collisions : Exit → List Collision
  | invalid | unread _ | unplanned _ => []
  | colliding plan _ | uncompiled plan _ => plan.collisions
  | stopped plan run e =>
    plan.collisions ++ (clashes (plannedClaims plan.outputs) (emittedClaims run.files) ++ e.collisions)
  | done plan run => plan.collisions ++ clashes (plannedClaims plan.outputs) (emittedClaims run.files)

/-- The report that is written, if there is one. -/
def report? (report : Report) : Exit → Option Report
  | invalid => some report
  | unread _ | unplanned _ | uncompiled _ _ => none
  | colliding plan _ => some (report.add (plan.collisions.map Collision.issue))
  | stopped plan _ e => some ((report.add (plan.collisions.map Collision.issue)).add (errorIssues e))
  | done plan run =>
    some ((report.add (plan.collisions.map Collision.issue)).add (run.collisions.map Collision.issue))

/-- The files that are written before the report. -/
def outputs : Exit → List RenderedFile
  | stopped _ run _ | done _ run => run.files
  | _ => []

/-- What is written after the report. -/
def listing (config : BuildConfig) : Exit → List FileWrite
  | done _ run => [outputsArtifact config run.files]
  | _ => []

/-- All that is written after the artifacts of the model. -/
def writes (config : BuildConfig) (report : Report) (exit : Exit) : List FileWrite :=
  exit.outputs.map RenderedFile.toWrite ++
    ((exit.report? report).toList.map (reportArtifact config) ++ exit.listing config)

def result (s : Snapshot) (report : Report) : Exit → Except BuildError BuildResult
  | invalid => .error (.invalid report)
  | unread e | unplanned e | uncompiled _ e | stopped _ _ e => .error e
  | colliding _ c => .error (.collision c)
  | done plan run =>
    .ok ⟨s, (report.add (plan.collisions.map Collision.issue)).add (run.collisions.map Collision.issue), plan,
      run.files, run.collisions⟩

/-- A report is written, and no collision is missing in it. -/
def TellsAll : Exit → Prop
  | unread _ | unplanned _ | uncompiled _ _ => False
  | stopped plan run _ => clashes (plannedClaims plan.outputs) (emittedClaims run.files) = []
  | invalid | colliding _ _ | done _ _ => True

end Exit

/-! ## The way of a build -/

theorem writeReport_eq (hwant : config.writeArtifacts = true) (r : Report) :
    writeReport config r = Build.writeAll [reportArtifact config r] := by
  rw [writeReport, writeArtifacts_eq, if_pos hwant]

/-- A build that writes its report and then fails. -/
theorem settles_writeReport_throw {α : Type} (hwant : config.writeArtifacts = true) (r : Report) (e : BuildError)
    (ws : Workspace) : Build.Settles (writeReport config r >>= fun _ => (throw e : Build α)) [reportArtifact config r]
      (.error e) ws := by
  rw [writeReport_eq hwant]
  exact .writeAll_bind fun _ => .of_eq rfl

/-- The files of a run are written first. Then the build goes on, or the run has ended and the report is next. -/
theorem settles_writeRun {α : Type} (hwant : config.writeArtifacts = true) (run : RenderRun) (r : Report)
    {f : Unit → Build α} {more : List FileWrite} {result : Except BuildError α}
    (hgoes : run.stopped = none → ∀ mid, Build.Settles (f ()) more result mid)
    (hstops : ∀ e, run.stopped = some e →
      more = [reportArtifact config (r.add (errorIssues e))] ∧ result = .error e) (ws : Workspace) :
    Build.Settles ((do
      try
        writeRun run
      catch e =>
        writeReport config (r.add (errorIssues e))
        throw e) >>= f) (run.files.map RenderedFile.toWrite ++ more) result ws := by
  -- Whatever error the run or the writing of its files has ended with, the report is next and then this error.
  have hends : ∀ (e : BuildError) (mid : Workspace),
      Build.Settles ((writeReport config (r.add (errorIssues e)) >>= fun _ => (throw e : Build Unit)) >>= f)
        [reportArtifact config (r.add (errorIssues e))] (.error e) mid := fun e mid =>
    .congr (congrFun (writeReport_throw_bind config _ e f) mid) (settles_writeReport_throw hwant _ e mid)
  refine .after (fun mid hdone => ?_) fun p fault mid hfail => ?_
  · have hrun := RenderSetup.writeRun_eq hdone
    cases hstopped : run.stopped with
    | none =>
      rw [hstopped] at hrun
      exact ⟨f (), Build.tryCatch_bind_of_ok hrun _ f, hgoes hstopped mid⟩
    | some e =>
      rw [hstopped] at hrun
      obtain ⟨rfl, rfl⟩ := hstops e hstopped
      exact ⟨_, Build.tryCatch_bind_of_error hrun _ f, hends e mid⟩
  · have hrun : writeRun run ws = (.error (.io p fault), mid) := by
      rw [writeRun, Build.bind_apply, hfail]
    obtain ⟨q, fault', hq⟩ := (hends (.io p fault) mid).exists_fault
    exact ⟨q, fault', (congrArg Prod.fst (Build.tryCatch_bind_of_error hrun _ f)).trans hq⟩

theorem settles_render (hwant : config.writeArtifacts = true) (engines : BuildEngines) (s : Snapshot)
    (templates : TemplateSet) (plan : OutputPlan) (report : Report) (ws : Workspace) :
    Build.Settles (render engines config s templates plan (report.add (plan.collisions.map Collision.issue)))
      ((Exit.ofPlan engines config s templates plan).writes config report)
      ((Exit.ofPlan engines config s templates plan).result s report) ws := by
  rw [render, Exit.ofPlan]
  cases engines.templates templates with
  | error e => exact .of_eq rfl
  | ok render =>
    dsimp only
    refine .congr (by rw [Build.bind_apply, Build.ofExcept, Build.ofRead]) ?_
    generalize RenderSetup.run ⟨render, config.buildRoot, config.strictCollisions, s⟩ plan = run
    rw [Exit.ofRun]
    cases hstopped : run.stopped with
    | some e =>
      refine settles_writeRun hwant run _ (fun hgoes => ?_) (fun e' he => ?_) ws
      · exact absurd (hstopped.symm.trans hgoes) (Option.some_ne_none e)
      · obtain rfl := Option.some.inj (hstopped.symm.trans he)
        exact ⟨rfl, rfl⟩
    | none =>
      refine settles_writeRun hwant run _ (fun _ mid => ?_) (fun e he => ?_) ws
      · rw [writeReport_eq hwant, writeArtifacts_eq, if_pos hwant]
        exact .writeAll_bind fun _ => .writeAll_bind fun _ => .of_eq rfl
      · exact absurd (he.symm.trans hstopped) (Option.some_ne_none e)

theorem settles_produce (hwant : config.writeArtifacts = true) (engines : BuildEngines) (s : Snapshot)
    (report : Report) {templates : TemplateSet} {ws : Workspace}
    (htemplates : ws.readTemplates config.templateRoots = .ok templates) :
    Build.Settles (produce engines config s report) ((Exit.ofTemplates engines config s templates).writes config report)
      ((Exit.ofTemplates engines config s templates).result s report) ws := by
  refine .congr (by rw [produce, Build.bind_apply, Build.ofRead, htemplates]) ?_
  rw [Exit.ofTemplates]
  cases OutputPlan.ofSnapshot s templates config.buildRoot with
  | error e => exact .of_eq rfl
  | ok plan =>
    refine .congr (by rw [Build.bind_apply, Build.ofExcept, Build.ofRead]) ?_
    dsimp only
    cases fatalCollision? config plan with
    | some c => exact settles_writeReport_throw hwant _ _ ws
    | none => exact settles_render hwant engines s templates plan report ws

/-- A build goes the way that its model and its templates determine, unless a file cannot be written. -/
theorem settles_conclude (hwant : config.writeArtifacts = true) (engines : BuildEngines) (s : Snapshot)
    (report : Report) (ws : Workspace) :
    Build.Settles (conclude engines config s report) ((Exit.of engines config s report ws).writes config report)
      ((Exit.of engines config s report ws).result s report) ws := by
  rw [conclude, Exit.of]
  split
  · exact settles_writeReport_throw hwant _ _ ws
  · cases htemplates : ws.readTemplates config.templateRoots with
    | error e =>
      refine .of_eq ?_
      rw [produce, Build.bind_apply, Build.ofRead, htemplates]
      rfl
    | ok templates => exact settles_produce hwant engines s report htemplates

/-- All that a build with this model writes is written: the artifacts of the model, after which the files are those
of `mid`, and what is written at its end. -/
structure Written (engines : BuildEngines) (config : BuildConfig) (s : Snapshot) (report : Report)
    (ws mid ws' : Workspace) : Prop where
  artifacts : Build.writeAll (snapshotArtifacts config s) ws = (.ok (), mid)
  rest : Build.writeAll ((Exit.of engines config s report mid).writes config report) mid = (.ok (), ws')

theorem finish_of_written (hwant : config.writeArtifacts = true) {issues : List Issue} {mid : Workspace}
    (h : Written engines config s (Report.add ⟨issues⟩ (validate engines config s).issues) ws mid ws') :
    finish engines config issues s ws =
      ((Exit.of engines config s (Report.add ⟨issues⟩ (validate engines config s).issues) mid).result s
        (Report.add ⟨issues⟩ (validate engines config s).issues), ws') := by
  rw [finish, writeArtifacts_eq, if_pos hwant, Build.bind_apply, h.artifacts]
  exact (settles_conclude hwant engines s _ mid).written ws' h.rest

/-- Only a file that cannot be written keeps a build from going its way. -/
theorem finish_of_not_written (hwant : config.writeArtifacts = true) {issues : List Issue}
    (h : ¬ ∃ mid ws', Written engines config s (Report.add ⟨issues⟩ (validate engines config s).issues) ws mid ws') :
    ∃ p fault, (finish engines config issues s ws).1 = .error (.io p fault) := by
  rw [finish, writeArtifacts_eq, if_pos hwant, Build.bind_apply]
  rcases Build.writeAll_cases (snapshotArtifacts config s) ws with
    ⟨p, fault, mid, -, hartifacts, -⟩ | ⟨mid, hartifacts, -⟩
  · exact ⟨p, fault, by rw [hartifacts]⟩
  · rw [hartifacts]
    rcases Build.writeAll_cases ((Exit.of engines config s
      (Report.add ⟨issues⟩ (validate engines config s).issues) mid).writes config
      (Report.add ⟨issues⟩ (validate engines config s).issues)) mid with
      ⟨p, fault, ws', -, hrest, -⟩ | ⟨ws', hrest, -⟩
    · exact (settles_conclude hwant engines s _ mid).failed _ ws' hrest
    · exact absurd ⟨mid, ws', hartifacts, hrest⟩ h

/-! ## What is reported -/

theorem Exit.exists_setup {plan : OutputPlan} {run : RenderRun}
    (h : Exit.of engines config s report ws = .done plan run) : ∃ setup : RenderSetup, run = setup.run plan := by
  rw [Exit.of] at h
  split at h
  · cases h
  split at h
  · cases h
  rw [Exit.ofTemplates] at h
  split at h
  · cases h
  split at h
  · cases h
  rw [Exit.ofPlan] at h
  split at h
  · cases h
  rw [Exit.ofRun] at h
  split at h
  · cases h
  · cases h
    exact ⟨_, rfl⟩

/-- A report tells of every collision exactly on the ways on which it is written and no clash is left out. -/
theorem report?_eq_iff_tellsAll (engines : BuildEngines) (config : BuildConfig) (s : Snapshot) (report : Report)
    (ws : Workspace) : (Exit.of engines config s report ws).report? report =
        some (report.add ((Exit.of engines config s report ws).collisions.map Collision.issue)) ↔
      (Exit.of engines config s report ws).TellsAll := by
  have hadd : ∀ issues more, (report.add issues).add more = report.add (issues ++ more) := fun issues more =>
    congrArg Report.mk (List.append_assoc _ _ _)
  have hcancel : ∀ issues more, report.add issues = report.add more ↔ issues = more := fun issues more => by
    rw [Report.add, Report.add, Report.mk.injEq, List.append_cancel_left_eq]
  cases hexit : Exit.of engines config s report ws with
  | invalid => simp [Exit.report?, Exit.collisions, Exit.TellsAll, Report.add]
  | unread e | unplanned e | uncompiled plan e => simp [Exit.report?, Exit.TellsAll]
  | colliding plan c => simp [Exit.report?, Exit.collisions, Exit.TellsAll]
  | stopped plan run e =>
    simp only [Exit.report?, Exit.collisions, Exit.TellsAll]
    rw [hadd, Option.some.injEq, hcancel, List.map_append, List.append_cancel_left_eq, errorIssues_eq,
      List.map_append, List.self_eq_append_left, List.map_eq_nil_iff]
  | done plan run =>
    obtain ⟨setup, rfl⟩ := Exit.exists_setup hexit
    simp only [Exit.report?, Exit.collisions, Exit.TellsAll, iff_true]
    rw [hadd, (RenderSetup.follows_run setup plan).collisions, List.map_append]

/-- Where the report is written. -/
def reportPath (config : BuildConfig) : Path := config.artifactsPath.append "validation.json"

theorem location_reportPath (ws : Workspace) (config : BuildConfig) :
    ws.location (reportPath config) = ws.location config.artifactsPath ++ [.text "validation.json"] :=
  location_artifact ws config isOrdinary_validation (.list [])

theorem read_report {exit : Exit} {mid : Workspace} {r : Report} (hreport : exit.report? report = some r)
    (hrest : Build.writeAll (exit.writes config report) mid = (.ok (), ws')) :
    ws'.read (reportPath config) = .ok r.toValue.pretty := by
  rw [Exit.writes, hreport] at hrest
  have hheld : ws'.Holds (reportArtifact config r).path (reportArtifact config r).content := by
    refine Workspace.holds_of_writeAll hrest fun w hw heq => ?_
    have hw : ∃ files, w = outputsArtifact config files := by
      cases exit with
      | done plan run => exact ⟨_, List.mem_singleton.mp hw⟩
      | _ => cases hw
    obtain ⟨files, rfl⟩ := hw
    rw [outputsArtifact, reportArtifact, location_artifact mid config isOrdinary_outputs,
      location_artifact mid config isOrdinary_validation] at heq
    exact absurd (List.append_cancel_left heq) (by decide)
  exact hheld.read

/-- Where no report is written, nothing else is. -/
theorem eq_of_report?_eq_none {exit : Exit} {mid : Workspace} (hnone : exit.report? report = none)
    (hrest : Build.writeAll (exit.writes config report) mid = (.ok (), ws')) : ws' = mid := by
  cases exit with
  | unread e | unplanned e | uncompiled plan e => cases hrest; rfl
  | _ => cases hnone

theorem isOrdinary_snapshot : Path.IsOrdinary "snapshot.json" := ⟨by decide, by decide, by decide, by decide⟩

/-- No artifact of a class goes to the place of the report. -/
def ReportApart (ws : Workspace) (config : BuildConfig) (s : Snapshot) : Prop :=
  ∀ entry ∈ s.classes, ∀ w ∈ classArtifacts config entry.1 entry.2,
    ws.location w.path ≠ ws.location (reportPath config)

/-- The artifacts of a model leave the report of an earlier build as it is. -/
theorem file?_report_of_artifacts {mid : Workspace}
    (h : Build.writeAll (snapshotArtifacts config s) ws = (.ok (), mid)) (hclasses : ReportApart ws config s) :
    mid.tree.file? (ws.location (reportPath config)) = ws.tree.file? (ws.location (reportPath config)) := by
  obtain ⟨written, hwrote, hwritten⟩ :=
    Build.TouchesOnly.writeAll (P := (· ∈ snapshotArtifacts config s)) (fun _ hw => hw) ws
  rw [h] at hwrote
  refine hwrote.file?_eq fun w hw => ?_
  rcases List.mem_cons.mp (hwritten w hw) with rfl | hclass
  · rw [location_artifact ws config isOrdinary_snapshot, location_reportPath]
    exact fun heq => absurd (List.append_cancel_left heq) (by decide)
  · obtain ⟨entry, hentry, hw⟩ := List.mem_flatMap.mp hclass
    exact hclasses entry hentry w hw

/-- A build that commits a model ends in the way that the model and the templates determine, unless a file cannot be
written. In the end `validation.json` holds the report of this way, if there is one; otherwise it is as it was when
the build began, unless a class has its artifact there. The report has all issues of loading and validating, and those
of all collisions found before the end, exactly if a report is written and no clash was met by a run that has then
ended with an error. -/
theorem report_at_end (hwant : config.writeArtifacts = true) (hload : load stamp config ws = .ok loaded)
    (hs : committed stamp config enrich ws = .ok s)
    (hreport : report = Report.add ⟨loaded.issues⟩ (validate engines config s).issues) :
    (∀ mid ws' exit, exit = Exit.of engines config s report mid → Written engines config s report ws mid ws' →
      build engines stamp config enrich ws = (exit.result s report, ws') ∧
      (exit.report? report = some (report.add (exit.collisions.map Collision.issue)) ↔ exit.TellsAll) ∧
      (∀ r, exit.report? report = some r → ws'.read (reportPath config) = .ok r.toValue.pretty) ∧
      (exit.report? report = none → ws' = mid ∧ (ReportApart ws config s →
        ws'.tree.file? (ws.location (reportPath config)) = ws.tree.file? (ws.location (reportPath config))))) ∧
    ((¬ ∃ mid ws', Written engines config s report ws mid ws') →
      ∃ p fault, (build engines stamp config enrich ws).1 = .error (.io p fault)) := by
  subst hreport
  rw [build_of_committed engines hload hs]
  refine ⟨?_, finish_of_not_written hwant⟩
  rintro mid ws' exit hexit hwritten
  refine ⟨hexit ▸ finish_of_written hwant hwritten, hexit ▸ report?_eq_iff_tellsAll .., fun r hr => ?_, fun hnone => ?_⟩
  · exact read_report hr (hexit ▸ hwritten.rest)
  · obtain rfl : ws' = mid := eq_of_report?_eq_none hnone (hexit ▸ hwritten.rest)
    exact ⟨rfl, file?_report_of_artifacts hwritten.artifacts⟩

/-- Of a build that succeeds, the report is there. -/
theorem report_at_end_record : ∃ result ws',
    build .standard ⟨"", ""⟩ recordConfig .ok (recordSpace [] [] []) = (.ok result, ws') ∧
      ws'.read (⟨"o/_artifacts/validation.json"⟩ : Path) = .ok (Report.toValue ⟨[]⟩).pretty := by
  obtain ⟨loaded, hload, hissues, hclasses, hinstances, -⟩ := load_record ⟨"", ""⟩
  have hs := committed_of_load hload
  have hreport : (⟨[]⟩ : Report) =
      Report.add ⟨loaded.issues⟩ (validate .standard recordConfig loaded.snapshot).issues := by
    rw [hissues, validate_record hclasses hinstances]
    rfl
  obtain ⟨hway, hfault⟩ := report_at_end rfl hload hs hreport
  obtain ⟨result, ws', hbuild, -, hresult⟩ := build_record ⟨"", ""⟩
  have hwritten : ∃ mid ws', Written .standard recordConfig loaded.snapshot ⟨[]⟩ (recordSpace [] [] []) mid ws' := by
    by_contra hnot
    obtain ⟨p, fault, hio⟩ := hfault hnot
    rw [hbuild] at hio
    cases hio
  obtain ⟨mid, ws'', hwritten⟩ := hwritten
  obtain ⟨heq, -, hread, -⟩ := hway mid ws'' _ rfl hwritten
  obtain ⟨hend, rfl⟩ := Prod.mk.inj (hbuild.symm.trans heq)
  refine ⟨result, ws', hbuild, hread ⟨[]⟩ ?_⟩
  cases hexit : Exit.of .standard recordConfig loaded.snapshot ⟨[]⟩ mid with
  | done plan run =>
    rw [hexit] at hend
    obtain rfl := Except.ok.inj hend
    exact congrArg some hresult
  | _ => rw [hexit] at hend; cases hend

/-! ## A build without templates -/

/-- An instance that asks for a page. -/
def pageText : String := "\x7b\"id\":\"a\",\"build\":[\"page\"]\x7d"

def pageDocument : Document :=
  ⟨⟨0, ⟨⟨"i"⟩, ["a.json"]⟩⟩, .map [("build", .list [.string "page"]), ("id", .string "a")]⟩

def pageConfig : BuildConfig := { instanceRoots := [⟨"i"⟩], buildRoot := ⟨"o"⟩ }

/-- The instance, and what is in the build root. -/
def pageSpace (built : List (FileName × FileTree)) (log : List FileWrite) : Workspace :=
  ⟨.dir (("i", .dir [("a.json", .ofText pageText)]) :: built), [], log⟩

theorem readRoots_page :
    (pageSpace [] []).readRoots Document.extension pageConfig.instanceRoots = .ok [pageDocument] := by
  have hread : (pageSpace [] []).read ⟨⟨"i"⟩, ["a.json"]⟩ = .ok pageText := Workspace.read_ofText rfl
  exact Workspace.readRoots_singleFile rfl rfl (by decide) hread rfl

def pageInstances : List Instance := [{ id := Instance.globalId }, { id := "a", build := [⟨"page", none⟩] }]

theorem ofDocuments_page :
    ∃ provenance, LoadedInstances.ofDocuments [] [pageDocument] = .ok ⟨pageInstances, provenance, []⟩ :=
  ⟨_, rfl⟩

theorem arranged_page : Instance.arranged pageInstances = pageInstances :=
  Instance.arranged_eq_self (List.pairwise_pair.mpr ⟨by decide, .inl rfl⟩) rfl

theorem load_page (stamp : BuildStamp) : ∃ loaded, load stamp pageConfig (pageSpace [] []) = .ok loaded ∧
    loaded.issues = [] ∧ loaded.snapshot.classes = [] ∧ loaded.snapshot.instances = pageInstances := by
  obtain ⟨provenance, hinstances⟩ := ofDocuments_page
  exact ⟨_, load_without_classes stamp rfl rfl readRoots_page hinstances, rfl, rfl, arranged_page⟩

/-- The way of a build that has no template for the page. -/
theorem exit_page {s : Snapshot} (hclasses : s.classes = []) (hinstances : s.instances = pageInstances)
    (ws : Workspace) : Exit.of .standard pageConfig s (Report.add ⟨[]⟩ (validate .standard pageConfig s).issues) ws =
      .unplanned (.templateNotFound "page") := by
  have hvalid : validate .standard pageConfig s = ⟨[]⟩ := by
    rw [validate, Snapshot.validate, hclasses, hinstances]
    rfl
  have hplan : OutputPlan.ofSnapshot s [] pageConfig.buildRoot = .error (.templateNotFound "page") := by
    rw [OutputPlan.ofSnapshot, hinstances]
    rfl
  have htemplates : ws.readTemplates pageConfig.templateRoots = .ok [] := rfl
  rw [hvalid, Exit.of, htemplates, if_neg (by decide)]
  dsimp only
  rw [Exit.ofTemplates, hplan]

theorem write_snapshot_page {w : FileWrite} (hpath : w.path = ⟨"o/_artifacts/snapshot.json"⟩) :
    Build.write w (pageSpace [] []) =
      (.ok (), pageSpace [("o", .dir [("_artifacts", .dir [("snapshot.json", .ofText w.content)])])] [w]) := by
  have hfault : (⟨"o/_artifacts/snapshot.json"⟩ : Path).fault? = none := by decide
  have hparent : w.path.parent? = some ⟨"o/_artifacts"⟩ := by
    rw [hpath]
    rfl
  have hdirs : (pageSpace [] []).makeDirs ⟨"o/_artifacts"⟩ =
      (.ok (), pageSpace [("o", .dir [("_artifacts", .dir [])])] []) := rfl
  have hlocation : (pageSpace [("o", .dir [("_artifacts", .dir [])])] []).fileLocation w.path =
      .ok ["o", "_artifacts", "snapshot.json"] := by
    rw [hpath]
    exact Workspace.fileLocation_of_notFound ["o", "_artifacts"] hfault rfl rfl rfl
  exact (Workspace.write_eq_ok hparent hdirs hlocation).trans rfl

/-- The model is there, and no report on it. -/
theorem report_missing : ∃ s ws', committed ⟨"", ""⟩ pageConfig .ok (pageSpace [] []) = .ok s ∧
    build .standard ⟨"", ""⟩ pageConfig .ok (pageSpace [] []) = (.error (.templateNotFound "page"), ws') ∧
    ws'.read (⟨"o/_artifacts/snapshot.json"⟩ : Path) = .ok s.toValue.pretty ∧
    ws'.read (⟨"o/_artifacts/validation.json"⟩ : Path) = .error .notFound := by
  obtain ⟨loaded, hload, hissues, hclasses, hinstances⟩ := load_page ⟨"", ""⟩
  have hs := committed_of_load hload
  let first := artifact pageConfig "snapshot.json" loaded.snapshot.toValue
  have hartifacts : snapshotArtifacts pageConfig loaded.snapshot = [first] := by
    rw [snapshotArtifacts, hclasses]
    rfl
  have hsnapshot : Build.write first (pageSpace [] []) =
      (.ok (), pageSpace [("o", .dir [("_artifacts", .dir [("snapshot.json", .ofText first.content)])])] [first]) :=
    write_snapshot_page rfl
  have hwritten : Written .standard pageConfig loaded.snapshot
      (Report.add ⟨[]⟩ (validate .standard pageConfig loaded.snapshot).issues) (pageSpace [] [])
      (pageSpace [("o", .dir [("_artifacts", .dir [("snapshot.json", .ofText first.content)])])] [first])
      (pageSpace [("o", .dir [("_artifacts", .dir [("snapshot.json", .ofText first.content)])])] [first]) := by
    constructor
    · rw [hartifacts]
      show (Build.write first >>= fun _ => pure ()) _ = _
      rw [Build.bind_apply, hsnapshot]
      rfl
    · rw [exit_page hclasses hinstances]
      rfl
  have hbuild := build_of_committed .standard hload hs
  rw [hissues, finish_of_written rfl hwritten, exit_page hclasses hinstances] at hbuild
  exact ⟨loaded.snapshot, _, hs, hbuild, Workspace.read_ofText rfl, rfl⟩

end Project

end DocModel
