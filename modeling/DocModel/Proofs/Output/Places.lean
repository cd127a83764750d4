import DocModel.Proofs.Output.Acceptance
import DocModel.Proofs.Output.Overwrites

/-!
# Where outputs lie

Below the build root an output lies where its names say. So no two paths of outputs lead to one place, and a
collision carries the very path that its files have; a file that no collision names has its place to itself.

* `location_join_names`: where ordinary names lead.
* `eq_of_location`: paths of outputs that lead to one place are the same text.
* `path_of_collision`: the path of a collision is the path of its files.
* `alone_at_location`: which files have their places to themselves.
-/

namespace DocModel

namespace Workspace

theorem foldl_target_ordinary {names : List FileName} (h : ∀ name ∈ names, name.IsOrdinary)
    (location : List FileName) : names.foldl target location = location ++ names := by
  induction names generalizing location with
  | nil => exact (List.append_nil _).symm
  | cons name rest ih =>
    obtain ⟨hname, hrest⟩ := List.forall_mem_cons.mp h
    have htarget : target location name = location ++ [name] := by
      rw [target, if_neg (by simp [hname.ne_empty, hname.ne_current]), if_neg hname.ne_parent]
    rw [List.foldl_cons, htarget, ih hrest, List.append_assoc, List.singleton_append]

/-- Ordinary names lead to the place of these names. -/
theorem location_join_names (ws : Workspace) (root : Path) {names : List String} (hne : names ≠ [])
    (h : ∀ s ∈ names, Path.IsOrdinary s) :
    ws.location (root.join ⟨Text.join "/" names⟩) = ws.location root ++ names.map .text := by
  have hsplit : Text.split '/' (Text.join "/" names) = names := by
    rw [Text.split, Path.splitChars_join hne h, List.map_map]
    exact (List.map_congr_left fun _ _ => String.ofList_toList).trans (List.map_id _)
  have hpieces : pieces ⟨Text.join "/" names⟩ = names.map .text := by rw [pieces, hsplit]
  have hnames : ∀ name ∈ names.map FileName.text, name.IsOrdinary :=
    List.forall_mem_map.mpr fun s hs => FileName.isOrdinary_text (h s hs)
  rw [location_join ws root (Path.not_isAbsolute_join hne h), hpieces, foldl_target_ordinary hnames]

end Workspace

namespace Output.IsOutputPath

variable {ws : Workspace} {root p q : Path}

theorem exists_names (h : IsOutputPath root p) : ∃ names, names ≠ [] ∧ (∀ s ∈ names, Path.IsOrdinary s) ∧
    p = root.join ⟨Text.join "/" names⟩ := by
  obtain ⟨key, filename, hpath⟩ := h
  obtain ⟨hnames, hp⟩ := eq_of_outputPath hpath
  exact ⟨namesOf key filename, namesOf_ne_nil key filename, hnames, hp⟩

theorem eq_of_same (hp : IsOutputPath root p) (hq : IsOutputPath root q) (h : p.same q = true) : p = q := by
  obtain ⟨_, _, hpath⟩ := hp
  obtain ⟨_, _, hpath'⟩ := hq
  exact Output.eq_of_same hpath hpath' h

/-- Two paths of outputs that lead to one place are the same text. -/
theorem eq_of_location (hp : IsOutputPath root p) (hq : IsOutputPath root q)
    (h : ws.location p = ws.location q) : p = q := by
  obtain ⟨names, hne, hnames, rfl⟩ := hp.exists_names
  obtain ⟨names', hne', hnames', rfl⟩ := hq.exists_names
  rw [ws.location_join_names root hne hnames, ws.location_join_names root hne' hnames',
    List.append_cancel_left_eq] at h
  rw [(List.map_inj_right fun _ _ heq => FileName.text.inj heq).mp h]

end Output.IsOutputPath

/-! ## Collisions -/

theorem exists_of_mem_clashes {earlier made : List (Path × Claim)} {c : Collision} (h : c ∈ clashes earlier made) :
    ∃ m ∈ made, m.1 = c.path := by
  induction made generalizing earlier with
  | nil => cases h
  | cons m rest ih =>
    have hlater : c ∈ clashes (earlier ++ [m]) rest → ∃ m' ∈ m :: rest, m'.1 = c.path := fun hc => by
      obtain ⟨m', hm', hpath⟩ := ih hc
      exact ⟨m', List.mem_cons_of_mem m hm', hpath⟩
    rw [clashes] at h
    split at h
    · exact hlater h
    · rcases List.mem_cons.mp h with rfl | h
      · exact ⟨m, List.mem_cons_self, rfl⟩
      · exact hlater h

namespace RenderSetup

variable {s : Snapshot} {templates : TemplateSet} {plan : OutputPlan} {setup : RenderSetup}

/-- The paths of all collisions are paths of outputs. -/
theorem isOutputPath_of_collision (h : OutputPlan.ofSnapshot s templates setup.root = .ok plan) {c : Collision}
    (hc : c ∈ plan.collisions ++ (setup.run plan).collisions) : Output.IsOutputPath setup.root c.path := by
  have hplanned := OutputPlan.isOutputPath_of_ofSnapshot h
  rcases List.mem_append.mp hc with hc | hc
  · obtain ⟨wanted, -, rfl⟩ := OutputPlan.ofSnapshot_eq_ok_iff.mp h
    obtain ⟨m, hm, hpath⟩ := ClaimTable.exists_of_mem_ofClaims (ClaimTable.mem_collisions_iff.mp hc).1
    obtain ⟨o, ho, rfl⟩ := List.mem_map.mp hm
    rw [← show o.path = c.path from hpath]
    exact hplanned o ho
  · rw [(follows_run setup plan).collisions] at hc
    obtain ⟨m, hm, hpath⟩ := exists_of_mem_clashes hc
    obtain ⟨f, hf, rfl⟩ := List.mem_map.mp hm
    rw [← show f.path = c.path from hpath]
    exact isOutputPath_of_run setup hplanned f (List.mem_filter.mp hf).1

/-- A collision has the path of its files, as they have it. -/
theorem path_of_collision (h : OutputPlan.ofSnapshot s templates setup.root = .ok plan) {f : RenderedFile}
    (hf : f ∈ (setup.run plan).files) {c : Collision} (hc : c ∈ plan.collisions ++ (setup.run plan).collisions)
    (hsame : c.path.same f.path = true) : c.path = f.path :=
  (isOutputPath_of_collision h hc).eq_of_same
    (isOutputPath_of_run setup (OutputPlan.isOutputPath_of_ofSnapshot h) f hf) hsame

/-- A file whose path no collision names is the only one in its place. -/
theorem alone_at_location (ws : Workspace) (setup : RenderSetup)
    (h : OutputPlan.ofSnapshot s templates setup.root = .ok plan) {f : RenderedFile}
    (hf : f ∈ (setup.run plan).files)
    (hfree : ∀ c ∈ plan.collisions ++ (setup.run plan).collisions, c.path ≠ f.path) :
    ∃ before after, (setup.run plan).files = before ++ f :: after ∧
      ∀ g ∈ after, ws.location g.path ≠ ws.location f.path := by
  have hnone : ∀ c ∈ plan.collisions ++ (setup.run plan).collisions, ¬ c.path.same f.path = true :=
    fun c hc hsame => hfree c hc (path_of_collision h hf hc hsame)
  have honce := countP_files_le_one h (p := f.path)
    (fun ⟨c, hc, hsame⟩ => hnone c (List.mem_append_left _ hc) hsame)
    (fun ⟨c, hc, hsame⟩ => hnone c (List.mem_append_right _ hc) hsame)
  have hpaths := isOutputPath_of_run setup (OutputPlan.isOutputPath_of_ofSnapshot h)
  obtain ⟨before, after, hfiles⟩ := List.append_of_mem hf
  refine ⟨before, after, hfiles, fun g hg hlocation => ?_⟩
  have hg' : g ∈ (setup.run plan).files := by
    rw [hfiles]
    exact List.mem_append_right _ (List.mem_cons_of_mem f hg)
  have heq : g.path = f.path := (hpaths g hg').eq_of_location (hpaths f hf) hlocation
  -- The file itself and the later one would be two on its path.
  have hlater : 0 < after.countP fun f' => f'.path.same f.path :=
    List.countP_pos_iff.mpr ⟨g, hg, by rw [heq, Path.same_self]⟩
  rw [hfiles, List.countP_append, List.countP_cons, if_pos (Path.same_self f.path)] at honce
  omega

end RenderSetup

end DocModel
