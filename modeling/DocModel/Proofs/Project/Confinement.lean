import DocModel.Project
import DocModel.Proofs.Class.Walk
import DocModel.Proofs.Output.Confinement
import DocModel.Proofs.Workspace.Scanning

/-!
# What is written outside the build root

Every file that a build writes is inside the build root, with one exception: the artifacts of a class whose
name leads out of it. All filenames of outputs are checked, class names are not.

* `finish_writesOnly`: what is written after a model is committed.
* `not_inside_iff_leadsOut`: where the artifacts of a class go.
* `build_writes`: which writes of a build are outside.
-/

namespace DocModel

namespace Project

open Workspace (pieces target)

variable {ws : Workspace} {config : BuildConfig} {engines : BuildEngines} {stamp : BuildStamp}
  {enrich : Draft → Except BuildError Draft}

/-- Artifacts go to the default place, or to one inside the build root. -/
def ArtifactsInside (ws : Workspace) (config : BuildConfig) : Prop :=
  ∀ p, config.artifactsRoot = some p → ws.Inside config.buildRoot p

theorem ArtifactsInside.artifactsPath (h : ArtifactsInside ws config) :
    ws.Inside config.buildRoot config.artifactsPath := by
  rw [BuildConfig.artifactsPath]
  cases hroot : config.artifactsRoot with
  | none =>
    show ws.Inside config.buildRoot (config.buildRoot.join ⟨"_artifacts"⟩)
    exact ws.inside_join (List.prefix_refl _) (by decide) (by decide)
  | some p => exact h p hroot

theorem inside_artifact (h : ArtifactsInside ws config) {name : String} (v : Value)
    (hrel : (⟨name⟩ : Path).isAbsolute = false) (hnames : .text ".." ∉ pieces ⟨name⟩) :
    ws.Inside config.buildRoot (artifact config name v).path := by
  show ws.Inside config.buildRoot (config.artifactsPath.join ⟨name⟩)
  exact ws.inside_join h.artifactsPath hrel hnames

/-! ## After the model is committed -/

/-- What a build does with a model and the report on it. -/
def conclude (engines : BuildEngines) (config : BuildConfig) (s : Snapshot) (report : Report) :
    Build BuildResult := do
  if report.hasErrors then
    writeReport config report
    throw (.invalid report)
  else
    produce engines config s report

/-- What a build does with a committed model and the issues found while loading it. -/
def finish (engines : BuildEngines) (config : BuildConfig) (issues : List Issue) (s : Snapshot) :
    Build BuildResult := do
  writeArtifacts config (snapshotArtifacts config s)
  conclude engines config s (Report.add ⟨issues⟩ (validate engines config s).issues)

/-- A file inside the build root, or an artifact of a class of the model. -/
def InsideOrClass (ws : Workspace) (config : BuildConfig) (s : Snapshot) (w : FileWrite) : Prop :=
  ws.Inside config.buildRoot w.path ∨ ∃ entry ∈ s.classes, w ∈ classArtifacts config entry.1 entry.2

variable {P : FileWrite → Prop}

theorem writeArtifacts_touchesOnly {writes : List FileWrite} (h : ∀ w ∈ writes, P w) :
    Build.TouchesOnly P (writeArtifacts config writes) := by
  rw [writeArtifacts]
  split
  · exact .writeAll h
  · exact .pure ()

theorem writeReport_touchesOnly (hP : ∀ w, ws.Inside config.buildRoot w.path → P w)
    (h : ArtifactsInside ws config) (r : Report) : Build.TouchesOnly P (writeReport config r) := by
  refine writeArtifacts_touchesOnly fun w hw => ?_
  rw [List.mem_singleton.mp hw]
  exact hP _ (inside_artifact h _ (by decide) (by decide))

theorem writeRun_touchesOnly {run : RenderRun} (h : ∀ f ∈ run.files, P f.toWrite) :
    Build.TouchesOnly P (writeRun run) := by
  refine .bind (.writeAll fun w hw => ?_) fun _ => ?_
  · obtain ⟨f, hf, rfl⟩ := List.mem_map.mp hw
    exact h f hf
  · split
    · exact .throw _
    · exact .pure ()

theorem render_touchesOnly (hP : ∀ w, ws.Inside config.buildRoot w.path → P w)
    (h : ArtifactsInside ws config) (s : Snapshot) (templates : TemplateSet) {plan : OutputPlan}
    (hplan : ∀ o ∈ plan.outputs, ws.Inside config.buildRoot o.path) (report : Report) :
    Build.TouchesOnly P (render engines config s templates plan report) := by
  refine .bind (.ofExcept _) fun renderer => ?_
  have hrun : ∀ f ∈ (RenderSetup.run ⟨renderer, config.buildRoot, config.strictCollisions, s⟩ plan).files,
      ws.Inside config.buildRoot f.path :=
    RenderSetup.inside_of_run ⟨renderer, config.buildRoot, config.strictCollisions, s⟩ hplan
  refine .bind (.tryCatch (writeRun_touchesOnly fun f hf => hP _ (hrun f hf)) fun e => ?_) fun _ => ?_
  · exact .bind (writeReport_touchesOnly hP h _) fun _ => .throw e
  · refine .bind (writeReport_touchesOnly hP h _) fun _ => .bind ?_ fun _ => .pure _
    refine writeArtifacts_touchesOnly fun w hw => ?_
    rw [List.mem_singleton.mp hw]
    exact hP _ (inside_artifact h _ (by decide) (by decide))

theorem produce_touchesOnly (hP : ∀ w, ws.Inside config.buildRoot w.path → P w)
    (h : ArtifactsInside ws config) (s : Snapshot) (report : Report) :
    Build.TouchesOnly P (produce engines config s report) := by
  refine .bind (.ofRead _) fun templates => .ofExcept_bind fun plan hplan => ?_
  dsimp only
  split
  · exact .bind (writeReport_touchesOnly hP h _) fun _ => .throw _
  · exact render_touchesOnly hP h s templates (OutputPlan.inside_of_ofSnapshot ws hplan) _

theorem conclude_touchesOnly (hP : ∀ w, ws.Inside config.buildRoot w.path → P w)
    (h : ArtifactsInside ws config) (s : Snapshot) (report : Report) :
    Build.TouchesOnly P (conclude engines config s report) := by
  rw [conclude]
  split
  · exact .bind (writeReport_touchesOnly hP h _) fun _ => .throw _
  · exact produce_touchesOnly hP h s _

theorem conclude_writesOnly (engines : BuildEngines) (hP : ∀ w, ws.Inside config.buildRoot w.path → P w)
    (h : ArtifactsInside ws config) (s : Snapshot) (report : Report) :
    Build.WritesOnly P (conclude engines config s report) :=
  (conclude_touchesOnly hP h s report).writesOnly

/-- After a model is committed, all that is not inside the build root is an artifact of one of its classes. -/
theorem finish_writesOnly (engines : BuildEngines) (h : ArtifactsInside ws config) (issues : List Issue)
    (s : Snapshot) :
    Build.WritesOnly (InsideOrClass ws config s) (finish engines config issues s) := by
  have hP : ∀ w : FileWrite, ws.Inside config.buildRoot w.path → InsideOrClass ws config s w := fun _ => .inl
  refine Build.TouchesOnly.writesOnly
    (.bind (writeArtifacts_touchesOnly fun w hw => ?_) fun _ => conclude_touchesOnly hP h s _)
  rcases List.mem_cons.mp hw with rfl | hw
  · exact hP _ (inside_artifact h _ (by decide) (by decide))
  · exact .inr (List.mem_flatMap.mp hw)

/-- Unless the file system fails, the artifacts of the model are written first. -/
theorem finish_writes_artifacts (h : ArtifactsInside ws config) (hwant : config.writeArtifacts = true)
    {issues : List Issue} {s : Snapshot}
    (hio : ∀ p fault, (finish engines config issues s ws).1 ≠ .error (.io p fault)) :
    ∃ rest, (finish engines config issues s ws).2.log = ws.log ++ (snapshotArtifacts config s ++ rest) := by
  rw [finish, Build.bind_apply, writeArtifacts, if_pos hwant] at hio ⊢
  rcases Build.writeAll_cases (snapshotArtifacts config s) ws with
    ⟨p, fault, ws', -, hwrite, -⟩ | ⟨ws', hwrite, hlog⟩
  · rw [hwrite] at hio
    exact absurd rfl (hio p fault)
  · rw [hwrite]
    obtain ⟨-, rest, hrest, -⟩ := conclude_writesOnly (P := fun _ => True) engines
      (fun _ _ => trivial) h s (Report.add ⟨issues⟩ (validate engines config s).issues) ws'
    exact ⟨rest, by rw [hrest, hlog, List.append_assoc]⟩

/-! ## Class names -/

/-- Following a class name from the directory of class artifacts leads out of the build root. -/
def LeadsOut (ws : Workspace) (config : BuildConfig) (name suffix : String) : Prop :=
  ¬ ws.location config.buildRoot <+:
    (pieces ⟨name ++ suffix⟩).foldl target (ws.location config.artifactsPath ++ [.text "classes"])

/-- Where the file of a class is, from the directory of class artifacts. -/
theorem location_classFile (ws : Workspace) (config : BuildConfig) (name suffix : String) :
    ws.location (config.artifactsPath.append ("classes/" ++ name ++ suffix)) =
      (pieces ⟨name ++ suffix⟩).foldl target (ws.location config.artifactsPath ++ [.text "classes"]) := by
  have htext : ("classes/" ++ name ++ suffix).toList = "classes".toList ++ '/' :: (name ++ suffix).toList := by
    rw [String.toList_append, String.toList_append, String.toList_append, List.append_assoc]
    rfl
  have hrel : (⟨"classes/" ++ name ++ suffix⟩ : Path).isAbsolute = false := by
    rw [Path.isAbsolute, htext]
    rfl
  have hpieces : pieces ⟨"classes/" ++ name ++ suffix⟩ = pieces ⟨"classes"⟩ ++ pieces ⟨name ++ suffix⟩ :=
    Workspace.pieces_of_toList_eq htext
  rw [Path.append, ws.location_join _ hrel, hpieces, List.foldl_append]
  rfl

theorem not_inside_iff_leadsOut (ws : Workspace) (config : BuildConfig) (name suffix : String) (v : Value) :
    ¬ ws.Inside config.buildRoot (artifact config ("classes/" ++ name ++ suffix) v).path ↔
      LeadsOut ws config name suffix := by
  show ¬ ws.Inside config.buildRoot (config.artifactsPath.append ("classes/" ++ name ++ suffix)) ↔ _
  rw [Workspace.Inside, location_classFile, LeadsOut]

/-- Only a name with a step up leads out. -/
theorem parent_mem_of_leadsOut (h : ArtifactsInside ws config) {name suffix : String}
    (hsuffix : suffix = ".json" ∨ suffix = ".schema.json") (hout : LeadsOut ws config name suffix) :
    ".." ∈ Text.split '/' name := by
  refine Decidable.byContradiction fun hname => hout ?_
  have hslash : '/' ∉ suffix.toList := by rcases hsuffix with rfl | rfl <;> decide
  obtain ⟨front, last, hsplit, happend⟩ := Text.splitChars_append_of_not_mem hslash name.toList
  have hsegments : Text.split '/' (name ++ suffix) =
      front.map String.ofList ++ [String.ofList (last ++ suffix.toList)] := by
    rw [Text.split, String.toList_append, happend, List.map_append]
    rfl
  have hnot : ".." ∉ Text.split '/' (name ++ suffix) := by
    rw [hsegments, List.mem_append, List.mem_singleton, not_or]
    refine ⟨fun hfront => hname ?_, fun hlast => ?_⟩
    · rw [Text.split, hsplit, List.map_append]
      exact List.mem_append_left _ hfront
    · -- The suffix is too long for the last segment to be `..`.
      have hlong : 2 < suffix.toList.length := by rcases hsuffix with rfl | rfl <;> decide
      have htwo : ['.', '.'] = last ++ suffix.toList := by
        rw [← String.toList_ofList (l := last ++ suffix.toList), ← hlast]
        rfl
      have hlength := congrArg List.length htwo
      rw [List.length_append, List.length_cons, List.length_singleton] at hlength
      omega
  have hclasses : ws.location config.buildRoot <+: ws.location config.artifactsPath ++ [.text "classes"] :=
    h.artifactsPath.trans (List.prefix_append _ _)
  exact hclasses.trans (Workspace.prefix_foldl_target (mt Workspace.text_mem_pieces.mp hnot) _)

/-! ## Builds -/

/-- The model that a build validates and renders. -/
def committed (stamp : BuildStamp) (config : BuildConfig) (enrich : Draft → Except BuildError Draft)
    (ws : Workspace) : Except BuildError Snapshot := do
  let loaded ← load stamp config ws
  let draft ← enrich (Draft.ofSnapshot loaded.snapshot)
  draft.commit fun _ => .ok ()

/-- A build ends without a model and without a change, or goes on with the committed model. -/
theorem build_cases (engines : BuildEngines) (stamp : BuildStamp) (config : BuildConfig)
    (enrich : Draft → Except BuildError Draft) (ws : Workspace) :
    (∃ e, committed stamp config enrich ws = .error e ∧
      build engines stamp config enrich ws = (.error e, ws)) ∨
    ∃ s issues, committed stamp config enrich ws = .ok s ∧
      build engines stamp config enrich ws = finish engines config issues s ws := by
  rw [build, Build.bind_apply, committed, Build.ofRead]
  dsimp only
  cases load stamp config ws with
  | error e => exact .inl ⟨e, rfl, rfl⟩
  | ok loaded =>
    dsimp only
    rw [Build.bind_apply, Build.ofExcept, Build.ofRead]
    simp only [bind, Except.bind]
    cases enrich (Draft.ofSnapshot loaded.snapshot) with
    | error e => exact .inl ⟨e, rfl, rfl⟩
    | ok draft => exact .inr ⟨_, loaded.issues, rfl, rfl⟩

/-- A build that commits a model goes on with it and with the issues found while loading. -/
theorem build_of_committed (engines : BuildEngines) {loaded : LoadedProject} {s : Snapshot}
    (hload : load stamp config ws = .ok loaded)
    (hs : committed stamp config enrich ws = .ok s) :
    build engines stamp config enrich ws = finish engines config loaded.issues s ws := by
  rw [committed] at hs
  obtain ⟨_, hloaded, hs⟩ := Except.bind_eq_ok_iff.mp hs
  obtain rfl := Except.ok.inj (hload.symm.trans hloaded)
  obtain ⟨draft, hdraft, hcommit⟩ := Except.bind_eq_ok_iff.mp hs
  rw [build, Build.bind_apply, Build.ofRead, hload]
  dsimp only
  rw [Build.bind_apply, Build.ofExcept, Build.ofRead, hdraft]
  dsimp only
  rw [Build.bind_apply, Build.ofExcept, Build.ofRead, hcommit]
  rfl

/-- What a build writes, whether it succeeds or fails: all files are inside the build root but the artifacts
of those classes of the committed model whose names lead out of it, and no name without a step up does. If
artifacts are wanted, only a fault of the file system keeps them from being written. -/
theorem build_writes (h : ArtifactsInside ws config) (engines : BuildEngines) (stamp : BuildStamp)
    (enrich : Draft → Except BuildError Draft) :
    (∃ writes, (build engines stamp config enrich ws).2.log = ws.log ++ writes ∧
      (∀ w ∈ writes, ¬ ws.Inside config.buildRoot w.path ↔
        ∃ s name c, committed stamp config enrich ws = .ok s ∧ (name, c) ∈ s.classes ∧
          ((w = artifact config ("classes/" ++ name ++ ".json") c.toValue ∧
              LeadsOut ws config name ".json") ∨
            ∃ schema, c.schema = some schema ∧
              w = artifact config ("classes/" ++ name ++ ".schema.json") schema ∧
              LeadsOut ws config name ".schema.json")) ∧
      (config.writeArtifacts = true →
        (∀ p fault, (build engines stamp config enrich ws).1 ≠ .error (.io p fault)) →
        ∀ s, committed stamp config enrich ws = .ok s → ∀ w ∈ snapshotArtifacts config s, w ∈ writes)) ∧
    ∀ name suffix, suffix = ".json" ∨ suffix = ".schema.json" → LeadsOut ws config name suffix →
      ".." ∈ Text.split '/' name := by
  refine ⟨?_, fun name suffix hsuffix => parent_mem_of_leadsOut h hsuffix⟩
  rcases build_cases engines stamp config enrich ws with ⟨e, he, hbuild⟩ | ⟨s, issues, hs, hbuild⟩
  · refine ⟨[], by rw [hbuild]; simp, by simp, fun _ _ s hs => ?_⟩
    exact absurd (he.symm.trans hs) (by simp)
  · obtain ⟨-, writes, hlog, hwrites⟩ := finish_writesOnly engines h issues s ws
    rw [hbuild]
    refine ⟨writes, hlog, fun w hw => ⟨fun hout => ?_, ?_⟩, fun hwant hio s' hs' w hw => ?_⟩
    · obtain ⟨⟨name, c⟩, hc, hmem⟩ := (hwrites w hw).resolve_left hout
      refine ⟨s, name, c, hs, hc, ?_⟩
      rcases List.mem_cons.mp hmem with rfl | hmem
      · exact .inl ⟨rfl, (not_inside_iff_leadsOut ws config name _ _).mp hout⟩
      · obtain ⟨schema, hschema, rfl⟩ := List.mem_map.mp hmem
        exact .inr ⟨schema, Option.mem_toList.mp hschema, rfl,
          (not_inside_iff_leadsOut ws config name _ _).mp hout⟩
    · rintro ⟨s, name, c, -, -, ⟨rfl, hout⟩ | ⟨schema, -, rfl, hout⟩⟩
      · exact (not_inside_iff_leadsOut ws config name _ _).mpr hout
      · exact (not_inside_iff_leadsOut ws config name _ _).mpr hout
    · obtain rfl : s = s' := by simpa using hs.symm.trans hs'
      obtain ⟨rest, hrest⟩ := finish_writes_artifacts h hwant hio
      rw [List.append_cancel_left (hlog.symm.trans hrest)]
      exact List.mem_append_left _ hw

/-! ## A name that leads out -/

/-- A class document with a name that goes three steps up. -/
def escapingText : String := "\x7b\"class\":\"../../../e\"\x7d"

def escapingDocument : Document := ⟨⟨0, ⟨⟨"c"⟩, ["a.json"]⟩⟩, .map [("class", .string "../../../e")]⟩

/-- A class directory with this document alone. -/
def escapingSources : Workspace where
  tree := .dir [("c", .dir [("a.json", .ofText escapingText)])]
  here := []

def escapingConfig : BuildConfig := { classRoots := [⟨"c"⟩], buildRoot := ⟨"o"⟩ }

def escapingClasses : Classes :=
  [("../../../e", { name := "../../../e", provenance := some escapingDocument.provenance })]

theorem readRoots_escaping :
    escapingSources.readRoots Document.extension escapingConfig.classRoots = .ok [escapingDocument] := by
  have hread : escapingSources.read ⟨⟨"c"⟩, ["a.json"]⟩ = .ok escapingText := Workspace.read_ofText rfl
  exact Workspace.readRoots_singleFile rfl rfl (by decide) hread rfl

theorem resolveClasses_escaping : resolveClasses [escapingDocument] = .ok ⟨escapingClasses, []⟩ :=
  (resolveClasses_singleton rfl rfl).trans rfl

theorem committed_escaping (stamp : BuildStamp) :
    ∃ s, committed stamp escapingConfig .ok escapingSources = .ok s ∧ s.classes = escapingClasses := by
  have hload : ∃ loaded, load stamp escapingConfig escapingSources = .ok loaded ∧
      loaded.snapshot.classes = escapingClasses := by
    have hcheck : escapingConfig.check escapingSources = .ok () := rfl
    have hinstances : escapingSources.readRoots Document.extension escapingConfig.instanceRoots = .ok [] := rfl
    simp only [load, hcheck, readRoots_escaping, resolveClasses_escaping, hinstances, bind, Except.bind]
    exact ⟨_, rfl, rfl⟩
  obtain ⟨loaded, hload, hclasses⟩ := hload
  rw [committed, hload]
  exact ⟨_, rfl, hclasses⟩

/-- The files of `escapingSources` when the directory of artifacts holds `files`. -/
def escapingTree (files : List (FileName × FileTree)) : FileTree :=
  .dir [("c", .dir [("a.json", .ofText escapingText)]), ("o", .dir [("_artifacts", .dir files)])]

theorem write_snapshot_escaping {w : FileWrite} (hpath : w.path = ⟨"o/_artifacts/snapshot.json"⟩) :
    Workspace.write w escapingSources =
      (.ok (), ⟨escapingTree [("snapshot.json", .ofText w.content)], [], [w]⟩) := by
  have hfault : (⟨"o/_artifacts/snapshot.json"⟩ : Path).fault? = none := by decide
  have hparent : w.path.parent? = some ⟨"o/_artifacts"⟩ := by
    rw [hpath]
    rfl
  have hdirs : escapingSources.makeDirs ⟨"o/_artifacts"⟩ = (.ok (), ⟨escapingTree [], [], []⟩) := rfl
  have hlocation : Workspace.fileLocation ⟨escapingTree [], [], []⟩ w.path =
      .ok ["o", "_artifacts", "snapshot.json"] := by
    rw [hpath]
    exact Workspace.fileLocation_of_notFound ["o", "_artifacts"] hfault rfl rfl rfl
  rw [Workspace.write_eq_ok hparent hdirs hlocation]
  rfl

theorem write_class_escaping {w : FileWrite} (hpath : w.path = ⟨"o/_artifacts/classes/../../../e.json"⟩)
    (text : String) (log : List FileWrite) : ∃ tree,
    Workspace.write w ⟨escapingTree [("snapshot.json", .ofText text)], [], log⟩ =
      (.ok (), ⟨tree, [], log ++ [w]⟩) := by
  have hfault : (⟨"o/_artifacts/classes/../../../e.json"⟩ : Path).fault? = none := by decide
  have hup : (⟨"o/_artifacts/classes/../../.."⟩ : Path).fault? = none := by decide
  have hparent : w.path.parent? = some ⟨"o/_artifacts/classes/../../.."⟩ := by
    rw [hpath]
    decide
  have hdirs : Workspace.makeDirs ⟨escapingTree [("snapshot.json", .ofText text)], [], log⟩
      ⟨"o/_artifacts/classes/../../.."⟩ =
      (.ok (), ⟨escapingTree [("classes", .dir []), ("snapshot.json", .ofText text)], [], log⟩) := by
    rw [Workspace.makeDirs, hup]
    rfl
  have hlocation : Workspace.fileLocation
      ⟨escapingTree [("classes", .dir []), ("snapshot.json", .ofText text)], [], log⟩ w.path =
      .ok ["e.json"] := by
    rw [hpath]
    exact Workspace.fileLocation_of_notFound [] hfault rfl rfl rfl
  exact ⟨_, Workspace.write_eq_ok hparent hdirs hlocation⟩

/-- The artifact of the class is written next to the build root. -/
theorem writeArtifacts_escaping {s : Snapshot} (h : s.classes = escapingClasses) : ∃ ws,
    writeArtifacts escapingConfig (snapshotArtifacts escapingConfig s) escapingSources = (.ok (), ws) ∧
      ∃ w ∈ ws.log, w.path = ⟨"o/_artifacts/classes/../../../e.json"⟩ := by
  let first := artifact escapingConfig "snapshot.json" s.toValue
  have hartifacts : ∃ second, snapshotArtifacts escapingConfig s = [first, second] ∧
      second.path = ⟨"o/_artifacts/classes/../../../e.json"⟩ := by
    rw [snapshotArtifacts, h]
    exact ⟨_, rfl, rfl⟩
  obtain ⟨second, hartifacts, hpath⟩ := hartifacts
  have hfirst := write_snapshot_escaping (w := first) rfl
  obtain ⟨tree, hsecond⟩ := write_class_escaping hpath first.content [first]
  refine ⟨⟨tree, [], [first, second]⟩, ?_, second, by simp, hpath⟩
  rw [hartifacts]
  show (Build.write first >>= fun _ => Build.write second >>= fun _ => pure ()) _ = _
  rw [Build.bind_apply, Build.write, hfirst]
  dsimp only
  rw [Build.bind_apply, Build.write, hsecond]
  rfl

/-- With the default place for artifacts, a file is written outside the build root. -/
theorem build_writes_outside : ArtifactsInside escapingSources escapingConfig ∧
    ∃ w ∈ (build .standard ⟨"", ""⟩ escapingConfig .ok escapingSources).2.log,
      ¬ escapingSources.Inside escapingConfig.buildRoot w.path := by
  have hinside : ArtifactsInside escapingSources escapingConfig := fun _ h => nomatch h
  refine ⟨hinside, ?_⟩
  obtain ⟨s, hs, hclasses⟩ := committed_escaping ⟨"", ""⟩
  rcases build_cases .standard ⟨"", ""⟩ escapingConfig .ok escapingSources with
    ⟨e, he, -⟩ | ⟨s', issues, hs', hbuild⟩
  · exact absurd (hs.symm.trans he) (by simp)
  · obtain rfl : s = s' := by simpa using hs.symm.trans hs'
    obtain ⟨ws, hwritten, w, hw, hpath⟩ := writeArtifacts_escaping hclasses
    have hrest := conclude_writesOnly .standard (fun _ _ => trivial) hinside s
      (Report.add ⟨issues⟩ (validate .standard escapingConfig s).issues) ws
    have hlog : w ∈ (finish .standard escapingConfig issues s escapingSources).2.log := by
      rw [finish, Build.bind_apply, hwritten]
      exact hrest.mem_log hw
    refine ⟨w, hbuild ▸ hlog, ?_⟩
    rw [hpath]
    decide

/-- All that is written outside is the artifact of the class. -/
theorem build_writes_escaping : ArtifactsInside escapingSources escapingConfig ∧
    ∀ w ∈ (build .standard ⟨"", ""⟩ escapingConfig .ok escapingSources).2.log,
      ¬ escapingSources.Inside escapingConfig.buildRoot w.path →
      ∃ c, ("../../../e", c) ∈ escapingClasses ∧
        w = artifact escapingConfig "classes/../../../e.json" c.toValue := by
  have hinside : ArtifactsInside escapingSources escapingConfig := fun _ h => nomatch h
  refine ⟨hinside, fun w hw hout => ?_⟩
  obtain ⟨⟨writes, hlog, hwrites, -⟩, -⟩ := build_writes hinside .standard ⟨"", ""⟩ .ok
  have hmem : w ∈ writes := by
    rw [hlog] at hw
    exact hw
  obtain ⟨s, name, c, hs, hc, hcase⟩ := (hwrites w hmem).mp hout
  obtain ⟨s', hs', hclasses⟩ := committed_escaping ⟨"", ""⟩
  obtain rfl : s' = s := by simpa using hs'.symm.trans hs
  rw [hclasses] at hc
  obtain ⟨rfl, rfl⟩ : name = "../../../e" ∧ c = _ := by simpa [escapingClasses] using hc
  rcases hcase with ⟨hw, -⟩ | ⟨schema, hschema, -⟩
  · exact ⟨_, hc, hw⟩
  · exact nomatch hschema

end Project

end DocModel
