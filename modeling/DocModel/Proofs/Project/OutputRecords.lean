import DocModel.Proofs.Output.Places
import DocModel.Proofs.Project.DryRuns
import DocModel.Proofs.Workspace.Holding

/-!
# Records of outputs

A build that succeeds lists every file that it has rendered, with the hash of its text, in `outputs.json`. The
report and the list are written after the outputs. A file whose path no collision names holds its text in the
end, unless it is in the place of one of these two; then it holds the artifact.

* `closingArtifacts`, `writeAll_of_deliver`: what is written once a build is prepared.
* `read_rendered`: what a rendered file holds in the end.
* `outputs_recorded`: which files hold the texts that they are recorded with.
-/

namespace DocModel

/-- A collision that the report tells of has this path. -/
def Report.NamesCollision (r : Report) (p : Path) : Prop :=
  ∃ issue ∈ r.issues, issue.code = "output-collision" ∧ issue.path = some p.text

namespace Project

variable {ws ws' : Workspace} {config : BuildConfig} {engines : BuildEngines} {stamp : BuildStamp}
  {enrich : Draft → Except BuildError Draft} {p : Prepared} {result : BuildResult}

/-! ## What is written after the outputs -/

/-- The artifacts that a successful build writes after its outputs. -/
def closingArtifacts (config : BuildConfig) (result : BuildResult) : List FileWrite :=
  if config.writeArtifacts then [reportArtifact config result.report, outputsArtifact config result.files] else []

theorem writeArtifacts_eq (config : BuildConfig) (writes : List FileWrite) :
    writeArtifacts config writes = Build.writeAll (if config.writeArtifacts then writes else []) := by
  rw [writeArtifacts]
  split <;> rfl

theorem writeAll_of_writeRun {run : RenderRun} (h : writeRun run ws = (.ok (), ws')) :
    Build.writeAll (run.files.map RenderedFile.toWrite) ws = (.ok (), ws') := by
  have hstopped := writeRun_eq_ok h
  obtain ⟨_, mid, hwrites, h⟩ := Build.bind_eq_ok h
  rw [hstopped] at h
  cases h
  exact hwrites

/-- Delivering writes the outputs and then the closing artifacts. -/
theorem writeAll_of_deliver (h : deliver config p ws = (.ok result, ws')) :
    Build.writeAll (result.files.map RenderedFile.toWrite ++ closingArtifacts config result) ws = (.ok (), ws') := by
  rw [deliver] at h
  dsimp only at h
  cases hrun : writeRun (p.run config) ws with
  | mk r mid =>
    cases r with
    | error e =>
      rw [Build.tryCatch_bind_of_error hrun] at h
      obtain ⟨_, _, hthrow, -⟩ := Build.bind_eq_ok h
      obtain ⟨_, _, -, hthrow⟩ := Build.bind_eq_ok hthrow
      cases hthrow
    | ok _ =>
      rw [Build.tryCatch_bind_of_ok hrun] at h
      obtain ⟨_, reported, hreport, h⟩ := Build.bind_eq_ok h
      obtain ⟨_, listed, hlist, h⟩ := Build.bind_eq_ok h
      cases h
      rw [Build.writeAll_append, Build.bind_apply, writeAll_of_writeRun hrun]
      dsimp only
      have hclosing : (writeReport config (p.report.add ((p.run config).collisions.map Collision.issue)) >>= fun _ =>
          writeArtifacts config [outputsArtifact config (p.run config).files]) mid = (.ok (), ws') := by
        rw [Build.bind_apply, hreport]
        exact hlist
      rw [writeReport, ← writeArtifacts_append, writeArtifacts_eq] at hclosing
      exact hclosing

/-- The report of a build that has delivered names the collisions of the plan and of the run. -/
theorem namesCollision_of_collision {loaded : LoadedProject} {draft : Draft} {templates : TemplateSet}
    (hready : Ready engines stamp config enrich ws p ws' loaded draft templates)
    (hreport : result.report = p.report.add ((p.run config).collisions.map Collision.issue)) {c : Collision}
    (hc : c ∈ p.plan.collisions ++ (p.run config).collisions) : result.report.NamesCollision c.path := by
  refine ⟨c.issue, ?_, rfl, rfl⟩
  rw [hreport, hready.report]
  rcases List.mem_append.mp hc with hc | hc
  · exact List.mem_append_left _ (List.mem_append_right _ (List.mem_map_of_mem hc))
  · exact List.mem_append_right _ (List.mem_map_of_mem hc)

/-- A build that succeeds was prepared, and has written its outputs and then the closing artifacts. -/
theorem writeAll_of_build (h : build engines stamp config enrich ws = (.ok result, ws')) :
    ∃ p mid loaded draft templates, Ready engines stamp config enrich ws p mid loaded draft templates ∧
      mid.here = ws.here ∧ result.files = (p.run config).files ∧
      result.report = p.report.add ((p.run config).collisions.map Collision.issue) ∧
      Build.writeAll (result.files.map RenderedFile.toWrite ++ closingArtifacts config result) mid = (.ok (), ws') := by
  rw [build_eq] at h
  obtain ⟨p, mid, hprepare, hdeliver⟩ := Build.bind_eq_ok h
  obtain ⟨loaded, draft, templates, hready⟩ := prepare_ready hprepare
  obtain ⟨-, hfiles, hreport⟩ := deliver_eq_ok hdeliver
  obtain ⟨_, hwrote, -⟩ := prepare_touchesOnly engines stamp config enrich ws
  rw [hprepare] at hwrote
  exact ⟨p, mid, loaded, draft, templates, hready, hwrote.here_eq, hfiles, hreport, writeAll_of_deliver hdeliver⟩

/-! ## What rendered files hold -/

theorem location_artifact (ws : Workspace) (config : BuildConfig) {name : String} (h : Path.IsOrdinary name)
    (v : Value) : ws.location (artifact config name v).path = ws.location config.artifactsPath ++ [.text name] := by
  have hpath : (artifact config name v).path = config.artifactsPath.join ⟨Text.join "/" [name]⟩ := by
    rw [artifact, Path.append, Text.join]
  rw [hpath, ws.location_join_names _ (List.cons_ne_nil name []) (List.forall_mem_singleton.mpr h)]
  rfl

/-- The path leads to the place of an artifact. -/
def TakenBy (ws : Workspace) (config : BuildConfig) (name : String) (p : Path) : Prop :=
  config.writeArtifacts = true ∧ ws.location p = ws.location config.artifactsPath ++ [.text name]

instance (ws : Workspace) (config : BuildConfig) (name : String) (p : Path) : Decidable (TakenBy ws config name p) :=
  inferInstanceAs (Decidable (_ ∧ _))

theorem isOrdinary_validation : Path.IsOrdinary "validation.json" := ⟨by decide, by decide, by decide, by decide⟩

theorem isOrdinary_outputs : Path.IsOrdinary "outputs.json" := ⟨by decide, by decide, by decide, by decide⟩

/-- The list of the outputs is written last, and before it the report. -/
theorem textAfter_closingArtifacts (ws : Workspace) (config : BuildConfig) (result : BuildResult) (p : Path)
    (text : String) : ws.textAfter p text (closingArtifacts config result) =
      if TakenBy ws config "outputs.json" p then (outputsArtifact config result.files).content
      else if TakenBy ws config "validation.json" p then (reportArtifact config result.report).content
      else text := by
  have hreport := location_artifact ws config isOrdinary_validation result.report.toValue
  have houtputs := location_artifact ws config isOrdinary_outputs (.list (result.files.map RenderedFile.toValue))
  rw [closingArtifacts]
  by_cases hwant : config.writeArtifacts = true
  · simp only [hwant, if_true, Workspace.textAfter, List.foldl_cons, List.foldl_nil, TakenBy, true_and,
      reportArtifact, outputsArtifact, hreport, houtputs, eq_comm (b := ws.location p)]
  · simp [hwant, Workspace.textAfter, TakenBy]

/-- What a rendered file whose path no collision names holds in the end. -/
theorem read_rendered (h : build engines stamp config enrich ws = (.ok result, ws')) {f : RenderedFile}
    (hf : f ∈ result.files) (hfree : ¬ result.report.NamesCollision f.path) :
    ws'.read f.path = .ok (
      if TakenBy ws config "outputs.json" f.path then (outputsArtifact config result.files).content
      else if TakenBy ws config "validation.json" f.path then (reportArtifact config result.report).content
      else f.content) := by
  obtain ⟨p, mid, loaded, draft, templates, hready, hhere, hfiles, hreport, hwrites⟩ := writeAll_of_build h
  rw [← textAfter_closingArtifacts]
  rw [hfiles] at hf hwrites
  obtain ⟨before, after, hsplit, hafter⟩ := RenderSetup.alone_at_location mid
    ⟨p.render, config.buildRoot, config.strictCollisions, p.snapshot⟩ hready.plan hf
    fun c hc hpath => hfree (hpath ▸ namesCollision_of_collision hready hreport hc)
  rw [Build.writeAll_append] at hwrites
  obtain ⟨_, rendered, houtputs, hclosing⟩ := Build.bind_eq_ok hwrites
  have hheld : rendered.Holds f.toWrite.path f.toWrite.content := by
    rw [Prepared.run, hsplit, List.map_append, List.map_cons] at houtputs
    refine Workspace.holds_of_writeAll houtputs fun w hw => ?_
    obtain ⟨g, hg, rfl⟩ := List.mem_map.mp hw
    exact hafter g hg
  rw [← Workspace.textAfter_congr ((Workspace.here_of_writeAll houtputs).trans hhere)]
  exact (hheld.writeAll_textAfter hclosing).read

/-- The list of the outputs is what a build writes last. -/
theorem read_outputs (h : build engines stamp config enrich ws = (.ok result, ws'))
    (hwant : config.writeArtifacts = true) :
    ws'.read (config.artifactsPath.append "outputs.json") = .ok (outputsArtifact config result.files).content := by
  obtain ⟨_, mid, _, _, _, -, -, -, -, hwrites⟩ := writeAll_of_build h
  have hlast : result.files.map RenderedFile.toWrite ++ closingArtifacts config result =
      (result.files.map RenderedFile.toWrite ++ [reportArtifact config result.report]) ++
        [outputsArtifact config result.files] := by
    rw [closingArtifacts, if_pos hwant, List.append_assoc, List.singleton_append]
  rw [hlast] at hwrites
  exact (Workspace.holds_of_writeAll hwrites nofun).read

theorem TakenBy.ne {p : Path} {name other : String} (h : TakenBy ws config name p) (hne : name ≠ other) :
    ¬ TakenBy ws config other p := by
  intro hother
  have hnames := List.append_cancel_left (h.2.symm.trans hother.2)
  exact hne (FileName.text.inj (List.singleton_inj.mp hnames))

/-- After a build that succeeds with artifacts, `outputs.json` lists the rendered files, each with the hash of its
text. A file whose path no collision in the report names holds this text then, if it is not in the place of an
artifact that is written after it; in the place of `validation.json` it holds the report, and in that of
`outputs.json` the list. -/
theorem outputs_recorded (h : build engines stamp config enrich ws = (.ok result, ws')) :
    (∀ f ∈ result.files, ¬ result.report.NamesCollision f.path →
      (¬ TakenBy ws config "validation.json" f.path → ¬ TakenBy ws config "outputs.json" f.path →
        ws'.read f.path = .ok f.content) ∧
      (TakenBy ws config "validation.json" f.path → ws'.read f.path = .ok result.report.toValue.pretty) ∧
      (TakenBy ws config "outputs.json" f.path →
        ws'.read f.path = .ok (Value.list (result.files.map RenderedFile.toValue)).pretty)) ∧
    (config.writeArtifacts = true → ws'.read (config.artifactsPath.append "outputs.json") =
      .ok (Value.list (result.files.map RenderedFile.toValue)).pretty) := by
  refine ⟨fun f hf hfree => ?_, read_outputs h⟩
  rw [read_rendered h hf hfree]
  refine ⟨fun hreport houtputs => ?_, fun hreport => ?_, fun houtputs => ?_⟩
  · rw [if_neg houtputs, if_neg hreport]
  · rw [if_neg (hreport.ne (by decide)), if_pos hreport]
    rfl
  · rw [if_pos houtputs]
    rfl

/-! ## A page in the place of the report -/

/-- The page is gone: the report is in its place, though no collision is reported. -/
theorem recorded_output_replaced : ∃ result ws',
    build .standard ⟨"", ""⟩ recordConfig .ok (recordSpace [] [] []) = (.ok result, ws') ∧
      ∃ f ∈ result.files, (∀ issue ∈ result.report.issues, issue.code ≠ "output-collision") ∧
        f.content = "page" ∧ ws'.read f.path = .ok (Report.toValue ⟨[]⟩).pretty ∧
        ws'.read f.path ≠ .ok f.content := by
  obtain ⟨result, ws', hbuild, hfiles, hreport⟩ := build_record ⟨"", ""⟩
  have hf : ⟨⟨"o/_artifacts/validation.json"⟩, "page", "a", .directive, "page"⟩ ∈ result.files := by
    rw [hfiles]
    decide
  have hfree : ¬ result.report.NamesCollision ⟨"o/_artifacts/validation.json"⟩ := by
    rw [hreport]
    rintro ⟨_, hissue, -⟩
    cases hissue
  have hread := read_rendered hbuild hf hfree
  rw [if_neg (by decide), if_pos (by decide), hreport] at hread
  refine ⟨result, ws', hbuild, _, hf, by simp [hreport], rfl, hread, fun hpage => ?_⟩
  exact absurd (Except.ok.inj (hread.symm.trans hpage)) (by decide)

/-- The other page is where it was written, and the report in the place of its file. -/
theorem outputs_recorded_record : ∃ result ws',
    build .standard ⟨"", ""⟩ recordConfig .ok (recordSpace [] [] []) = (.ok result, ws') ∧
      ws'.read (⟨"o/x"⟩ : Path) = .ok "page" ∧ ws'.read (⟨"o/_artifacts/validation.json"⟩ : Path) = .ok (Report.toValue ⟨[]⟩).pretty ∧
      ws'.read (⟨"o/_artifacts/outputs.json"⟩ : Path) = .ok (Value.list (recordFiles.map RenderedFile.toValue)).pretty := by
  obtain ⟨result, ws', hbuild, hfiles, hreport⟩ := build_record ⟨"", ""⟩
  obtain ⟨hheld, houtputs⟩ := outputs_recorded hbuild
  have hfree : ∀ p, ¬ result.report.NamesCollision p := by
    rw [hreport]
    rintro p ⟨_, hissue, -⟩
    cases hissue
  rw [hfiles] at hheld houtputs
  refine ⟨result, ws', hbuild, ?_, ?_, houtputs rfl⟩
  · exact (hheld ⟨⟨"o/x"⟩, "page", "a", .directive, "page"⟩ (by decide) (hfree _)).1 (by decide) (by decide)
  · rw [← hreport]
    exact (hheld ⟨⟨"o/_artifacts/validation.json"⟩, "page", "a", .directive, "page"⟩ (by decide) (hfree _)).2.1
      (by decide)

end Project

end DocModel
