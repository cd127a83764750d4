import DocModel.Proofs.Output.Overwrites

/-!
# Strict runs

A strict run and the run of the same plan that goes on at clashes are followed side by side. They are one run
as long as nothing clashes; the first clash ends the strict run before its file, and from there on the other
run only adds to what it has.

* `Extends`: a run only adds files and collisions.
* `Cut`: how a strict run stands to the other one, and `Cut.foldl_proceed`, that it goes on to stand so.
* `Joint.addEmitted`, `Joint.addOutput`: what one step makes of two runs that are still one.
* `strict_run_cut`: the strict run is the other one up to its first clash.
-/

namespace DocModel

namespace RenderSetup

/-- The setup, ending at the first clash or going on. -/
def withStrict (setup : RenderSetup) (strict : Bool) : RenderSetup := { setup with strict }

/-- The run of a plan that ends at the first clash. -/
def strictRun (setup : RenderSetup) (plan : OutputPlan) : RenderRun := (setup.withStrict true).run plan

/-- The run of a plan that goes on at clashes. -/
def lenientRun (setup : RenderSetup) (plan : OutputPlan) : RenderRun := (setup.withStrict false).run plan

variable {setup : RenderSetup} {plan : OutputPlan} {run run' : RenderRun}

/-! ## Runs that go on -/

/-- A run with more files and collisions. -/
structure Extends (run run' : RenderRun) : Prop where
  files : run.files <+: run'.files
  collisions : run.collisions <+: run'.collisions

theorem Extends.refl (run : RenderRun) : Extends run run := ⟨List.prefix_refl _, List.prefix_refl _⟩

theorem Extends.addEmitted (h : Extends run run') (o : PlannedOutput) (f : EmittedFile) :
    Extends run (setup.addEmitted o run' f) := by
  have hfile : ∀ file, run.files <+: run'.files ++ [file] := fun file => h.files.trans (List.prefix_append _ _)
  rw [RenderSetup.addEmitted]
  split
  · exact ⟨h.files, h.collisions⟩
  dsimp only
  split
  · exact ⟨hfile _, h.collisions⟩
  split
  · exact ⟨h.files, h.collisions⟩
  · exact ⟨hfile _, h.collisions.trans (List.prefix_append _ _)⟩

theorem Extends.addOutput (h : Extends run run') (o : PlannedOutput) :
    Extends run (setup.addOutput run' o) := by
  rw [RenderSetup.addOutput]
  split
  · exact ⟨h.files, h.collisions⟩
  split
  · exact ⟨h.files, h.collisions⟩
  · refine foldl_proceed_keeps (P := Extends run) (fun f _ _ _ hrun => hrun.addEmitted o f) ?_
    exact ⟨h.files.trans (List.prefix_append _ _), h.collisions⟩

/-! ## Two runs side by side -/

/-- Nothing has clashed so far, and the tracker has the claims of all files. -/
structure Joint (plan : OutputPlan) (run : RenderRun) : Prop where
  collisions : run.collisions = []
  claims : run.stopped = none → run.tracker.claims =
    ClaimTable.ofClaims (plannedClaims plan.outputs ++ emittedClaims run.files)

/-- How a strict run stands to the one that goes on: they are the same, or the strict run has ended before the
file of the first clash. -/
inductive Cut (plan : OutputPlan) (strict : RenderRun) : RenderRun → Prop where
  | same (h : Joint plan strict) : Cut plan strict strict
  | cut {run : RenderRun} {c : Collision} {o : PlannedOutput} {path : Path} {f : EmittedFile}
      (hclash :
        clashes (plannedClaims plan.outputs ++ emittedClaims strict.files) [(path, emittedClaim o)] = [c])
      (hstopped : strict.stopped = some (.collision c))
      (hfiles : strict.files ++ [emittedFile o path f] <+: run.files) (hcollisions : [c] <+: run.collisions) :
      Cut plan strict run

theorem Cut.eq {strict : RenderRun} (h : Cut plan strict run) (hnone : run.collisions = []) : strict = run := by
  cases h with
  | same h => rfl
  | cut hclash hstopped hfiles hcollisions =>
    rw [hnone] at hcollisions
    exact absurd (List.prefix_nil.mp hcollisions) (by simp)

theorem Cut.exists_clash {strict : RenderRun} {c : Collision} {rest : List Collision} (h : Cut plan strict run)
    (hcollisions : run.collisions = c :: rest) :
    strict.stopped = some (.collision c) ∧
      ∃ o path f later, run.files = strict.files ++ emittedFile o path f :: later ∧
        clashes (plannedClaims plan.outputs ++ emittedClaims strict.files) [(path, emittedClaim o)] = [c] := by
  cases h with
  | same h => exact nomatch h.collisions.symm.trans hcollisions
  | @cut _ c' o path f hclash hstopped hfiles hfirst =>
    obtain ⟨later, hlater⟩ := hfiles
    obtain ⟨_, hrest⟩ := hfirst
    obtain ⟨rfl, -⟩ := List.cons.inj (hrest.trans hcollisions)
    refine ⟨hstopped, o, path, f, later, ?_, hclash⟩
    rw [← hlater, List.append_assoc, List.singleton_append]

/-- Once the strict run has ended, the other one can go on. -/
theorem Cut.extend {strict : RenderRun} (h : Cut plan strict run) (hstopped : strict.stopped.isSome = true)
    (hgoes : run.stopped = none) (hextends : Extends run run') : Cut plan strict run' := by
  cases h with
  | same h => rw [hgoes] at hstopped; cases hstopped
  | cut hclash hstopped hfiles hcollisions =>
    exact .cut hclash hstopped (hfiles.trans hextends.files) (hcollisions.trans hextends.collisions)

/-- If one step keeps two runs standing so, then so do all. -/
theorem Cut.foldl_proceed {α : Type} {addStrict add : RenderRun → α → RenderRun}
    (hstep : ∀ run x, Joint plan run → run.stopped = none → Cut plan (addStrict run x) (add run x))
    (hextends : ∀ run x, Extends run (add run x)) {strict : RenderRun} (h : Cut plan strict run) (xs : List α) :
    Cut plan (xs.foldl (proceed addStrict) strict) (xs.foldl (proceed add) run) := by
  induction xs generalizing strict run with
  | nil => exact h
  | cons x rest ih =>
    refine ih ?_
    rw [proceed, proceed]
    cases hs : strict.stopped with
    | some e =>
      cases hr : run.stopped with
      | some _ => exact h
      | none => exact h.extend (by rw [hs]; rfl) hr (hextends run x)
    | none =>
      -- A strict run that goes on has not been cut, so the two are one.
      cases h with
      | same h => rw [hs]; exact hstep run x h hs
      | cut _ hstopped => rw [hs] at hstopped; cases hstopped

/-- An emitted file ends both runs, or only the strict one, or is added to both. -/
theorem Joint.addEmitted (h : Joint plan run) (hgoes : run.stopped = none) (o : PlannedOutput)
    (f : EmittedFile) :
    Cut plan ((setup.withStrict true).addEmitted o run f) ((setup.withStrict false).addEmitted o run f) := by
  obtain ⟨fault, hpath, hlenient⟩ | ⟨path, hpath, ⟨c, -, hfalse, -⟩ | ⟨-, hlenient⟩⟩ :=
    addEmitted_cases (setup.withStrict false) (h.claims hgoes) o f
  · have hstrict : (setup.withStrict true).addEmitted o run f =
        { run with stopped := some (.location o.template o.instanceId fault) } := by
      rw [RenderSetup.addEmitted,
        show Output.outputPath o.template f.filename (setup.withStrict true).root = _ from hpath]
    rw [hstrict, hlenient]
    exact .same ⟨h.collisions, fun hgoes => absurd hgoes (Option.some_ne_none _)⟩
  · cases hfalse
  · obtain ⟨fault, hpath', -⟩ | ⟨path', hpath', ⟨c, hclash, -, hstrict⟩ | ⟨hadd, hstrict⟩⟩ :=
      addEmitted_cases (setup.withStrict true) (h.claims hgoes) o f
    · cases hpath.symm.trans hpath'
    · obtain rfl : path = path' := Except.ok.inj (hpath.symm.trans hpath')
      rw [hstrict, hlenient, hclash]
      exact .cut hclash rfl (List.prefix_refl _) (by rw [h.collisions]; exact List.prefix_refl _)
    · obtain rfl : path = path' := Except.ok.inj (hpath.symm.trans hpath')
      have hclash := hadd.resolve_right Bool.noConfusion
      rw [hstrict, hlenient, hclash]
      refine .same ⟨by rw [h.collisions]; rfl, fun _ => ?_⟩
      rw [emittedClaims_emitted, List.append_assoc]

/-- Strict or not, an output ends a run with the same error, or the run goes on with the same emitted files. -/
theorem addOutput_withStrict (setup : RenderSetup) (run : RenderRun) (o : PlannedOutput) :
    (∃ e, ∀ strict, (setup.withStrict strict).addOutput run o = { run with stopped := some e }) ∨
    ∃ (text : String) (emitted : List EmittedFile), ∀ strict, (setup.withStrict strict).addOutput run o =
      emitted.foldl (proceed ((setup.withStrict strict).addEmitted o))
        { run with files := run.files ++ [directiveFile o text] } := by
  cases hinstance : setup.snapshot.instance? o.instanceId with
  | none =>
    refine .inl ⟨.merge (.missingInstance o.instanceId), fun strict => ?_⟩
    simp only [RenderSetup.addOutput, withStrict, hinstance]
  | some i =>
    cases hrender : setup.render o.template (setup.context i o) with
    | error fault =>
      refine .inl ⟨.template o.template fault, fun strict => ?_⟩
      have hrender' : (setup.withStrict strict).render o.template ((setup.withStrict strict).context i o) =
        .error fault := hrender
      simp only [RenderSetup.addOutput, show (setup.withStrict strict).snapshot = setup.snapshot from rfl,
        hinstance, hrender']
    | ok rendered =>
      refine .inr ⟨rendered.text, rendered.emitted, fun strict => ?_⟩
      have hrender' : (setup.withStrict strict).render o.template ((setup.withStrict strict).context i o) =
        .ok rendered := hrender
      simp only [RenderSetup.addOutput, show (setup.withStrict strict).snapshot = setup.snapshot from rfl,
        hinstance, hrender']
      rfl

theorem Joint.addOutput (h : Joint plan run) (hgoes : run.stopped = none) (o : PlannedOutput) :
    Cut plan ((setup.withStrict true).addOutput run o) ((setup.withStrict false).addOutput run o) := by
  obtain ⟨e, hend⟩ | ⟨text, emitted, hgo⟩ := addOutput_withStrict setup run o
  · rw [hend, hend]
    exact .same ⟨h.collisions, fun hgoes => absurd hgoes (Option.some_ne_none _)⟩
  · have hjoint : Joint plan { run with files := run.files ++ [directiveFile o text] } := by
      refine ⟨h.collisions, fun _ => ?_⟩
      rw [emittedClaims_directive]
      exact h.claims hgoes
    rw [hgo, hgo]
    refine Cut.foldl_proceed ?_ ?_ (.same hjoint) emitted
    · exact fun run f h hgoes => h.addEmitted hgoes o f
    · exact fun run f => (Extends.refl run).addEmitted o f

/-- The strict run of a plan stands so to the other one. -/
theorem cut_run (setup : RenderSetup) (plan : OutputPlan) :
    Cut plan (setup.strictRun plan) (setup.lenientRun plan) := by
  have hjoint : Joint plan { tracker := Tracker.ofPlan plan } :=
    ⟨rfl, fun _ => (Tracker.claims_ofPlan plan).trans (congrArg _ (List.append_nil _).symm)⟩
  refine Cut.foldl_proceed ?_ ?_ (.same hjoint) plan.outputs
  · exact fun run o h hgoes => h.addOutput hgoes o
  · exact fun run o => (Extends.refl run).addOutput o

/-! ## What is written -/

/-- Once its files are written, a run ends with its error, if there is one. -/
theorem writeRun_eq {ws ws' : Workspace}
    (h : Build.writeAll (run.files.map RenderedFile.toWrite) ws = (.ok (), ws')) :
    Project.writeRun run ws = (run.stopped.elim (.ok ()) .error, ws') := by
  rw [Project.writeRun, Build.bind_apply, h]
  cases run.stopped <;> rfl

/-- The strict run of a plan is the run that goes on at clashes, cut at the first clash. If nothing clashes they
are one run. Otherwise the strict run ends with the first collision, its files are those before the first
emitted file that clashes, and of all that the other run writes, contents included, it writes these and no
more. -/
theorem strict_run_cut (setup : RenderSetup) (plan : OutputPlan) :
    ((setup.lenientRun plan).collisions = [] → setup.strictRun plan = setup.lenientRun plan) ∧
    (∀ ws, (Build.writeAll ((setup.lenientRun plan).files.map RenderedFile.toWrite) ws).1 = .ok () →
      (Project.writeRun (setup.lenientRun plan) ws).2.log =
        ws.log ++ (setup.lenientRun plan).files.map RenderedFile.toWrite) ∧
    ∀ c rest, (setup.lenientRun plan).collisions = c :: rest →
      (setup.strictRun plan).stopped = some (.collision c) ∧
      (∃ o path f later,
        (setup.lenientRun plan).files = (setup.strictRun plan).files ++ emittedFile o path f :: later ∧
        clashes (plannedClaims plan.outputs) (emittedClaims (setup.strictRun plan).files) = [] ∧
        clashes (plannedClaims plan.outputs ++ emittedClaims (setup.strictRun plan).files)
          [(path, emittedClaim o)] = [c]) ∧
      ∀ ws, (Build.writeAll ((setup.lenientRun plan).files.map RenderedFile.toWrite) ws).1 = .ok () →
        ∃ ws', Build.writeAll ((setup.strictRun plan).files.map RenderedFile.toWrite) ws = (.ok (), ws') ∧
          ws'.log = ws.log ++ (setup.strictRun plan).files.map RenderedFile.toWrite ∧
          Project.writeRun (setup.strictRun plan) ws = (.error (.collision c), ws') := by
  have hfollows := follows_run (setup.withStrict true) plan
  refine ⟨(cut_run setup plan).eq, fun ws hio => ?_, fun c rest hcollisions => ?_⟩
  · obtain ⟨ws', hwrite, hlog⟩ := Build.writeAll_of_append (by rwa [List.append_nil])
    rw [writeRun_eq hwrite]
    exact hlog
  · obtain ⟨hstopped, o, path, f, later, hfiles, hclash⟩ := (cut_run setup plan).exists_clash hcollisions
    refine ⟨hstopped, ⟨o, path, f, later, hfiles, ?_, hclash⟩, fun ws hio => ?_⟩
    · exact hfollows.collisions.symm.trans (hfollows.strict rfl)
    · rw [hfiles, List.map_append] at hio
      obtain ⟨ws', hwrite, hlog⟩ := Build.writeAll_of_append hio
      refine ⟨ws', hwrite, hlog, ?_⟩
      rw [writeRun_eq hwrite, hstopped]
      rfl

/-- The plan of an instance with one output. -/
def oneOutput : OutputPlan := ⟨[⟨⟨"o/x"⟩, "page", "a"⟩], []⟩

/-- Of a template that emits a file, and another one over the output that it is rendered for, the strict run
writes the output and the first file. -/
theorem strict_run_cut_overItself :
    ∃ c ws', ((overItself true).lenientRun oneOutput).collisions = [c] ∧
      (Build.writeAll (((overItself true).lenientRun oneOutput).files.map RenderedFile.toWrite)
        ⟨.dir [], [], []⟩).1 = .ok () ∧
      Project.writeRun ((overItself true).strictRun oneOutput) ⟨.dir [], [], []⟩ = (.error (.collision c), ws') ∧
      ws'.log = [⟨.output, ⟨"o/x"⟩, "page"⟩, ⟨.output, ⟨"o/y"⟩, "new"⟩] := by
  have hcollisions : ((overItself true).lenientRun oneOutput).collisions =
      [⟨⟨"o/x"⟩, [⟨"page", "a", .directive⟩, ⟨"page", "a", .emitted⟩]⟩] := by decide +kernel
  have hio : (Build.writeAll (((overItself true).lenientRun oneOutput).files.map RenderedFile.toWrite)
      ⟨.dir [], [], []⟩).1 = .ok () := by rfl
  obtain ⟨-, -, hwrites⟩ := (strict_run_cut (overItself true) oneOutput).2.2 _ _ hcollisions
  obtain ⟨ws', -, hlog, hrun⟩ := hwrites _ hio
  exact ⟨_, ws', hcollisions, hio, hrun, hlog.trans (by decide +kernel)⟩

end RenderSetup

end DocModel
