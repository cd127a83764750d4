import Mathlib.Data.List.Nodup
import DocModel.Proofs.Except
import DocModel.Proofs.Output.Acceptance
import DocModel.Proofs.Output.Claims

/-!
# The exact plan

Every directive of every instance asks for one output, or is refused with an error. A plan holds the outputs
that are asked for, each once, in the order in which they are asked for first, and as collisions the paths
that several owners ask for.

* `Asks`, `Refused`: what a directive asks for, and why it may not have it.
* `ofSnapshot_eq_ok_iff`: the plan, if there is one, from what is asked for.
* `ofSnapshot_exact`: when there is a plan, what it holds, and which error there is if not.
-/

namespace DocModel

section Lists

variable {α : Type}

/-- Of equal members the first one stays. -/
theorem eraseDups_concat [DecidableEq α] (l : List α) (a : α) :
    (l ++ [a]).eraseDups = if a ∈ l then l.eraseDups else l.eraseDups ++ [a] := by
  rw [List.eraseDups_append, List.removeAll, List.filter_cons]
  by_cases h : a ∈ l
  · simp [h]
  · simp [h, List.eraseDups_cons]

theorem nodup_eraseDups [DecidableEq α] (l : List α) : l.eraseDups.Nodup := by
  induction l using List.reverseRecOn with
  | nil => exact List.nodup_nil
  | append_singleton l a ih =>
    rw [eraseDups_concat]
    split
    · exact ih
    · next h =>
      exact List.nodup_append.mpr ⟨ih, List.pairwise_singleton _ a, fun x hx y hy heq => by
        rw [heq, List.mem_singleton.mp hy] at hx
        exact h (List.mem_eraseDups.mp hx)⟩

theorem one_lt_length_iff {l : List α} (h : l.Nodup) : 1 < l.length ↔ ∃ a ∈ l, ∃ b ∈ l, a ≠ b := by
  match l, h with
  | [], _ => simp
  | [a], _ => simp
  | a :: b :: rest, h =>
    have hne : a ≠ b := fun heq => (List.nodup_cons.mp h).1 (heq ▸ List.mem_cons_self)
    exact ⟨fun _ => ⟨a, by simp, b, by simp, hne⟩, fun _ => by simp⟩

end Lists

/-- Who asks for an output: a template and an instance. -/
def PlannedOutput.owner (o : PlannedOutput) : String × String := (o.template, o.instanceId)

def Claim.owner (c : Claim) : String × String := (c.template, c.instanceId)

/-- The claims that outputs make. -/
def plannedClaims (outputs : List PlannedOutput) : List (Path × Claim) :=
  outputs.map fun o => (o.path, o.claim)

theorem PlannedOutput.ext_owner {o o' : PlannedOutput} (hpath : o.path = o'.path) (howner : o.owner = o'.owner) :
    o = o' := by
  cases o
  cases o'
  cases hpath
  cases howner
  rfl

theorem plannedClaims_concat (outputs : List PlannedOutput) (o : PlannedOutput) :
    plannedClaims (outputs ++ [o]) = plannedClaims outputs ++ [(o.path, o.claim)] := List.map_append

theorem claimsOn_plannedClaims (outputs : List PlannedOutput) (p : Path) :
    claimsOn (plannedClaims outputs) p = (outputs.filter fun o => o.path.same p).map PlannedOutput.claim := by
  rw [claimsOn, plannedClaims, List.filter_map, List.map_map]
  rfl

namespace OutputPlan

variable {templates : TemplateSet} {root : Path}

/-- `o` is the output that a directive of an instance asks for: its template is the one that the reference
means, and its path that of the filename, or of the default one, for that template. -/
structure Asks (templates : TemplateSet) (root : Path) (id : String) (d : BuildDirective) (o : PlannedOutput) :
    Prop where
  template : templates.keyFor? d.template = some o.template
  path : Output.outputPath o.template (d.filename.getD (Output.defaultFilename o.template id)) root = .ok o.path
  instanceId : o.instanceId = id

/-- Why a directive of an instance asks for no output. -/
inductive Refused (templates : TemplateSet) (root : Path) (id : String) (d : BuildDirective) :
    BuildError → Prop where
  | unknown (h : templates.keyFor? d.template = none) :
      Refused templates root id d (.templateNotFound d.template)
  | misplaced {key : String} {fault : LocationFault} (hkey : templates.keyFor? d.template = some key)
      (hpath : Output.outputPath key (d.filename.getD (Output.defaultFilename key id)) root = .error fault) :
      Refused templates root id d (.location key id fault)

theorem planDirective_eq_ok_iff {id : String} {d : BuildDirective} {o : PlannedOutput} :
    planDirective templates root id d = .ok o ↔ Asks templates root id d o := by
  rw [planDirective]
  constructor
  · intro h
    split at h
    · cases h
    next key hkey =>
    dsimp only at h
    split at h
    · next path hpath => cases h; exact ⟨hkey, hpath, rfl⟩
    · cases h
  · rintro ⟨hkey, hpath, rfl⟩
    simp only [hkey, hpath]

theorem planDirective_eq_error_iff {id : String} {d : BuildDirective} {e : BuildError} :
    planDirective templates root id d = .error e ↔ Refused templates root id d e := by
  rw [planDirective]
  constructor
  · intro h
    split at h
    · next hkey => cases h; exact .unknown hkey
    next key hkey =>
    dsimp only at h
    split at h
    · cases h
    · next fault hpath => cases h; exact .misplaced hkey hpath
  · rintro (hkey | ⟨hkey, hpath⟩)
    · simp only [hkey]
    · simp only [hkey, hpath]

theorem Asks.eq {id : String} {d : BuildDirective} {o o' : PlannedOutput} (h : Asks templates root id d o)
    (h' : Asks templates root id d o') : o = o' :=
  Except.ok.inj ((planDirective_eq_ok_iff.mpr h).symm.trans (planDirective_eq_ok_iff.mpr h'))

/-! ## The outputs of a plan -/

/-- Paths with the same steps are the same text. -/
def PathsExact (outputs : List PlannedOutput) : Prop :=
  ∀ o ∈ outputs, ∀ o' ∈ outputs, o.path.same o'.path = true → o.path = o'.path

/-- Under one root, paths that are asked for have one text each. -/
theorem pathsExact_of_forall_asks {outputs : List PlannedOutput}
    (h : ∀ o ∈ outputs, ∃ id d, Asks templates root id d o) : PathsExact outputs := by
  intro o ho o' ho' hsame
  obtain ⟨_, _, hasks⟩ := h o ho
  obtain ⟨_, _, hasks'⟩ := h o' ho'
  exact Output.eq_of_same hasks.path hasks'.path hsame

/-- An output is left out exactly if it was found before. -/
theorem any_sameOwner_iff {outputs : List PlannedOutput} {o : PlannedOutput}
    (h : ∀ o' ∈ outputs, o'.path.same o.path = true → o'.path = o.path) :
    (claimsOn (plannedClaims outputs) o.path).any o.claim.sameOwner = true ↔ o ∈ outputs := by
  rw [claimsOn_plannedClaims, List.any_map, List.any_eq_true]
  constructor
  · rintro ⟨o', ho', howner⟩
    obtain ⟨ho', hsame⟩ := List.mem_filter.mp ho'
    have howner : o.owner = o'.owner := by
      rw [Function.comp_apply, Claim.sameOwner, Bool.and_eq_true, decide_eq_true_eq, decide_eq_true_eq] at howner
      exact Prod.ext howner.1 howner.2
    rwa [PlannedOutput.ext_owner (h o' ho' hsame).symm howner]
  · intro ho
    refine ⟨o, List.mem_filter.mpr ⟨ho, Path.same_self o.path⟩, ?_⟩
    simp [Claim.sameOwner]

/-- The outputs found are those asked for, each once, and the claims are those that they make. -/
theorem foldl_add_eq {wanted : List PlannedOutput} (h : PathsExact wanted) :
    wanted.foldl Progress.add {} =
      ⟨wanted.eraseDups, ClaimTable.ofClaims (plannedClaims wanted.eraseDups)⟩ := by
  induction wanted using List.reverseRecOn with
  | nil => rfl
  | append_singleton wanted o ih =>
    have hwanted : PathsExact wanted := fun a ha b hb =>
      h a (List.mem_append_left _ ha) b (List.mem_append_left _ hb)
    have ho : ∀ o' ∈ wanted.eraseDups, o'.path.same o.path = true → o'.path = o.path := fun o' ho' =>
      h o' (List.mem_append_left _ (List.mem_eraseDups.mp ho')) o (by simp)
    rw [List.foldl_append, ih hwanted, List.foldl_cons, List.foldl_nil, Progress.add, eraseDups_concat]
    simp only [ClaimTable.on_ofClaims, any_sameOwner_iff ho, List.mem_eraseDups]
    split
    · rfl
    · rw [plannedClaims_concat, ClaimTable.ofClaims_concat]

/-- The outputs that the directives of all instances ask for, in order. -/
def Wanted (templates : TemplateSet) (root : Path) (s : Snapshot) (wanted : List PlannedOutput) : Prop :=
  List.Forall₂ (fun request o => Asks templates root request.1 request.2 o) (requests s.instances) wanted

variable {s : Snapshot} {wanted : List PlannedOutput} {plan : OutputPlan}

theorem wanted_iff_mapM : Wanted templates root s wanted ↔
    (requests s.instances).mapM (fun request => planDirective templates root request.1 request.2) =
      .ok wanted := by
  rw [Except.mapM_eq_ok_iff]
  simp only [planDirective_eq_ok_iff]
  rfl

theorem Wanted.mem_iff (h : Wanted templates root s wanted) {o : PlannedOutput} :
    o ∈ wanted ↔ ∃ request ∈ requests s.instances, Asks templates root request.1 request.2 o := by
  simp only [Except.mem_iff_of_mapM (wanted_iff_mapM.mp h), planDirective_eq_ok_iff]

theorem Wanted.pathsExact (h : Wanted templates root s wanted) : PathsExact wanted :=
  pathsExact_of_forall_asks fun o ho => by
    obtain ⟨request, -, hasks⟩ := h.mem_iff.mp ho
    exact ⟨request.1, request.2, hasks⟩

/-- The plan of some wanted outputs. -/
def ofWanted (wanted : List PlannedOutput) : OutputPlan :=
  ⟨wanted.eraseDups, (ClaimTable.ofClaims (plannedClaims wanted.eraseDups)).collisions⟩

/-- The plan of a model is that of the outputs that its directives ask for. -/
theorem ofSnapshot_eq_ok_iff :
    ofSnapshot s templates root = .ok plan ↔
      ∃ wanted, Wanted templates root s wanted ∧ plan = ofWanted wanted := by
  rw [ofSnapshot, Except.bind_eq_ok_iff]
  refine exists_congr fun wanted => ?_
  rw [← wanted_iff_mapM]
  refine and_congr_right fun h => ?_
  rw [foldl_add_eq h.pathsExact]
  exact ⟨fun hplan => (Except.ok.inj hplan).symm, fun hplan => congrArg Except.ok hplan.symm⟩

theorem mem_requests_iff {instances : List Instance} {request : String × BuildDirective} :
    request ∈ requests instances ↔ ∃ i ∈ instances, i.id = request.1 ∧ request.2 ∈ i.build := by
  obtain ⟨id, d⟩ := request
  rw [requests, List.mem_flatMap]
  simp only [List.mem_map, Prod.mk.injEq]
  constructor
  · rintro ⟨i, hi, d', hd, rfl, rfl⟩
    exact ⟨i, hi, rfl, hd⟩
  · rintro ⟨i, hi, rfl, hd⟩
    exact ⟨i, hi, d, hd, rfl, rfl⟩

/-- There is a plan exactly if every directive asks for an output. -/
theorem exists_plan_iff : (∃ plan, ofSnapshot s templates root = .ok plan) ↔
    ∀ i ∈ s.instances, ∀ d ∈ i.build, ∃ o, Asks templates root i.id d o := by
  constructor
  · rintro ⟨plan, h⟩ i hi d hd
    obtain ⟨wanted, hwanted, -⟩ := ofSnapshot_eq_ok_iff.mp h
    have hrequest : (i.id, d) ∈ requests s.instances := mem_requests_iff.mpr ⟨i, hi, rfl, hd⟩
    exact Except.exists_of_forall₂ hwanted hrequest
  · intro h
    cases hmap : (requests s.instances).mapM fun request => planDirective templates root request.1 request.2 with
    | ok wanted =>
      exact ⟨ofWanted wanted, ofSnapshot_eq_ok_iff.mpr ⟨wanted, wanted_iff_mapM.mpr hmap, rfl⟩⟩
    | error e =>
      obtain ⟨earlier, ⟨id, d⟩, later, heq, -, herror⟩ := Except.mapM_eq_error_iff.mp hmap
      have hrequest : (id, d) ∈ requests s.instances := by rw [heq]; simp
      obtain ⟨i, hi, rfl, hd⟩ := mem_requests_iff.mp hrequest
      obtain ⟨o, hasks⟩ := h i hi d hd
      exact nomatch herror.symm.trans (planDirective_eq_ok_iff.mpr hasks)

/-- Without a plan the error is that of the first directive that is refused. -/
theorem ofSnapshot_eq_error_iff {e : BuildError} : ofSnapshot s templates root = .error e ↔
    ∃ earlier id d later, requests s.instances = earlier ++ (id, d) :: later ∧
      (∀ request ∈ earlier, ∃ o, Asks templates root request.1 request.2 o) ∧
      Refused templates root id d e := by
  have hmap : ofSnapshot s templates root = .error e ↔
      (requests s.instances).mapM (fun request => planDirective templates root request.1 request.2) =
        .error e := by
    rw [ofSnapshot]
    cases (requests s.instances).mapM fun request => planDirective templates root request.1 request.2 with
    | ok wanted => exact ⟨nofun, nofun⟩
    | error e' => exact ⟨fun h => congrArg _ (Except.error.inj h), fun h => congrArg _ (Except.error.inj h)⟩
  rw [hmap, Except.mapM_eq_error_iff]
  simp only [planDirective_eq_ok_iff, planDirective_eq_error_iff, Prod.exists]

/-! ## What a plan holds -/

/-- The plan of some wanted outputs, in full. -/
structure IsExact (wanted : List PlannedOutput) (plan : OutputPlan) : Prop where
  /-- The outputs are the wanted ones in the order of their first occurrences. -/
  outputs : plan.outputs = wanted.eraseDups
  nodup_outputs : plan.outputs.Nodup
  mem_outputs_iff : ∀ o, o ∈ plan.outputs ↔ o ∈ wanted
  /-- Paths of wanted outputs mean different things if they are different texts. -/
  pathsExact : PathsExact wanted
  /-- The paths of the collisions are those that two owners want. -/
  collision_iff : ∀ p, (∃ c ∈ plan.collisions, c.path = p) ↔
    ∃ o ∈ wanted, ∃ o' ∈ wanted, o.path = p ∧ o'.path = p ∧ o.owner ≠ o'.owner
  /-- Collisions come in the order of the steps of their paths, and no path has two of them. -/
  ordered : plan.collisions.Pairwise fun a b => a.path.before b.path = true
  /-- A collision lists the claims of the outputs on its path, so every owner of the path once. -/
  claims_eq : ∀ c ∈ plan.collisions,
    c.claims = (plan.outputs.filter fun o => o.path = c.path).map PlannedOutput.claim
  nodup_owners : ∀ c ∈ plan.collisions, (c.claims.map Claim.owner).Nodup
  mem_owners_iff : ∀ c ∈ plan.collisions, ∀ owner, owner ∈ c.claims.map Claim.owner ↔
    ∃ o ∈ wanted, o.path = c.path ∧ o.owner = owner

/-- Outputs on a path of an output are those with this text of it. -/
theorem filter_same_eq {outputs : List PlannedOutput} (h : PathsExact outputs) {o : PlannedOutput}
    (ho : o ∈ outputs) :
    (outputs.filter fun o' => o'.path.same o.path) = outputs.filter fun o' => o'.path = o.path := by
  refine List.filter_congr fun o' ho' => ?_
  rw [Bool.eq_iff_iff, decide_eq_true_eq]
  exact ⟨h o' ho' o ho, fun heq => heq ▸ Path.same_self o'.path⟩

theorem exists_path_of_mem_collisions {outputs : List PlannedOutput} {c : Collision}
    (h : c ∈ (ClaimTable.ofClaims (plannedClaims outputs)).collisions) : ∃ o ∈ outputs, o.path = c.path := by
  obtain ⟨m, hm, hpath⟩ := ClaimTable.exists_of_mem_ofClaims (ClaimTable.mem_collisions_iff.mp h).1
  obtain ⟨o, ho, rfl⟩ := List.mem_map.mp hm
  exact ⟨o, ho, hpath⟩

theorem claims_of_mem_collisions {outputs : List PlannedOutput} (hpaths : PathsExact outputs)
    {c : Collision} (h : c ∈ (ClaimTable.ofClaims (plannedClaims outputs)).collisions) :
    c.claims = (outputs.filter fun o => o.path = c.path).map PlannedOutput.claim := by
  obtain ⟨o, ho, hpath⟩ := exists_path_of_mem_collisions h
  rw [ClaimTable.claims_of_mem_collisions h, ← hpath, claimsOn_plannedClaims, filter_same_eq hpaths ho]

theorem exists_collision_iff {outputs : List PlannedOutput} (hnodup : outputs.Nodup)
    (hpaths : PathsExact outputs) {p : Path} :
    (∃ c ∈ (ClaimTable.ofClaims (plannedClaims outputs)).collisions, c.path = p) ↔
      ∃ o ∈ outputs, ∃ o' ∈ outputs, o.path = p ∧ o'.path = p ∧ o.owner ≠ o'.owner := by
  have hmany : ∀ o ∈ outputs, (∃ c ∈ (ClaimTable.ofClaims (plannedClaims outputs)).collisions,
      c.path.same o.path = true) ↔ ∃ a ∈ outputs, ∃ b ∈ outputs,
        a.path = o.path ∧ b.path = o.path ∧ a.owner ≠ b.owner := fun o ho => by
    rw [ClaimTable.exists_collision_iff, claimsOn_plannedClaims, List.length_map, filter_same_eq hpaths ho,
      one_lt_length_iff (hnodup.filter _)]
    simp only [List.mem_filter, decide_eq_true_eq]
    constructor
    · rintro ⟨a, ⟨ha, hpa⟩, b, ⟨hb, hpb⟩, hne⟩
      exact ⟨a, ha, b, hb, hpa, hpb, fun heq => hne (PlannedOutput.ext_owner (hpa.trans hpb.symm) heq)⟩
    · rintro ⟨a, ha, b, hb, hpa, hpb, hne⟩
      exact ⟨a, ⟨ha, hpa⟩, b, ⟨hb, hpb⟩, fun heq => hne (congrArg PlannedOutput.owner heq)⟩
  constructor
  · rintro ⟨c, hc, rfl⟩
    obtain ⟨o, ho, hpath⟩ := exists_path_of_mem_collisions hc
    rw [← hpath]
    exact (hmany o ho).mp ⟨c, hc, by rw [hpath]; exact Path.same_self c.path⟩
  · rintro ⟨a, ha, b, hb, rfl, hpb, hne⟩
    obtain ⟨c, hc, hsame⟩ := (hmany a ha).mpr ⟨a, ha, b, hb, rfl, hpb, hne⟩
    obtain ⟨o, ho, hpath⟩ := exists_path_of_mem_collisions hc
    rw [← hpath] at hsame
    exact ⟨c, hc, hpath ▸ hpaths o ho a ha hsame⟩

theorem isExact_ofWanted {wanted : List PlannedOutput} (hpaths : PathsExact wanted) :
    IsExact wanted (ofWanted wanted) := by
  have hmem : ∀ o, o ∈ wanted.eraseDups ↔ o ∈ wanted := fun o => List.mem_eraseDups
  have hnodup := nodup_eraseDups wanted
  have hpaths' : PathsExact wanted.eraseDups := fun o ho o' ho' =>
    hpaths o ((hmem o).mp ho) o' ((hmem o').mp ho')
  have howners : ∀ c ∈ (ofWanted wanted).collisions,
      c.claims.map Claim.owner = (wanted.eraseDups.filter fun o => o.path = c.path).map PlannedOutput.owner :=
    fun c hc => by
      rw [claims_of_mem_collisions hpaths' hc, List.map_map]
      rfl
  refine ⟨rfl, hnodup, hmem, hpaths, fun p => ?_, ClaimTable.pairwise_collisions _,
    fun c hc => claims_of_mem_collisions hpaths' hc, fun c hc => ?_, fun c hc owner => ?_⟩
  · rw [ofWanted, exists_collision_iff hnodup hpaths']
    simp only [hmem]
  · rw [howners c hc]
    refine List.Nodup.map_on (fun o ho o' ho' heq => ?_) (hnodup.filter _)
    have ho : o.path = c.path := by simpa using (List.mem_filter.mp ho).2
    have ho' : o'.path = c.path := by simpa using (List.mem_filter.mp ho').2
    exact PlannedOutput.ext_owner (ho.trans ho'.symm) heq
  · rw [howners c hc]
    simp only [List.mem_map, List.mem_filter, decide_eq_true_eq, hmem, and_assoc]

/-- `owner` claims the path `p`. -/
def ClaimedBy (plan : OutputPlan) (p : Path) (owner : String × String) : Prop :=
  ∃ o ∈ plan.outputs, o.path = p ∧ o.owner = owner

/-- `owner` is in a collision on the path `p`. -/
def CollidesWith (plan : OutputPlan) (p : Path) (owner : String × String) : Prop :=
  ∃ c ∈ plan.collisions, c.path = p ∧ owner ∈ c.claims.map Claim.owner

/-- All that is in a collision is known from what is claimed. -/
theorem IsExact.collidesWith_iff (h : IsExact wanted plan) {p : Path} {owner : String × String} :
    plan.CollidesWith p owner ↔
      plan.ClaimedBy p owner ∧ ∃ other, plan.ClaimedBy p other ∧ other ≠ owner := by
  simp only [ClaimedBy, h.mem_outputs_iff]
  constructor
  · rintro ⟨c, hc, rfl, howner⟩
    refine ⟨(h.mem_owners_iff c hc owner).mp howner, ?_⟩
    obtain ⟨o, ho, o', ho', hp, hp', hne⟩ := (h.collision_iff c.path).mp ⟨c, hc, rfl⟩
    by_cases heq : o.owner = owner
    · exact ⟨_, ⟨o', ho', hp', rfl⟩, fun heq' => hne (heq.trans heq'.symm)⟩
    · exact ⟨_, ⟨o, ho, hp, rfl⟩, heq⟩
  · rintro ⟨⟨o, ho, hp, rfl⟩, other, ⟨o', ho', hp', rfl⟩, hne⟩
    obtain ⟨c, hc, rfl⟩ := (h.collision_iff p).mpr ⟨o, ho, o', ho', hp, hp', hne.symm⟩
    exact ⟨c, hc, rfl, (h.mem_owners_iff c hc _).mpr ⟨o, ho, hp, rfl⟩⟩

/-- A model with the same instances in another order has a plan with the same claims. -/
theorem exists_plan_of_perm {s' : Snapshot} (hperm : s'.instances.Perm s.instances)
    (h : ofSnapshot s templates root = .ok plan) : ∃ plan', ofSnapshot s' templates root = .ok plan' ∧
      ∀ p owner, (plan'.ClaimedBy p owner ↔ plan.ClaimedBy p owner) ∧
        (plan'.CollidesWith p owner ↔ plan.CollidesWith p owner) := by
  obtain ⟨plan', h'⟩ := exists_plan_iff.mpr fun i hi => exists_plan_iff.mp ⟨plan, h⟩ i (hperm.mem_iff.mp hi)
  refine ⟨plan', h', fun p owner => ?_⟩
  obtain ⟨wanted, hwanted, rfl⟩ := ofSnapshot_eq_ok_iff.mp h
  obtain ⟨wanted', hwanted', rfl⟩ := ofSnapshot_eq_ok_iff.mp h'
  have hexact := isExact_ofWanted hwanted.pathsExact
  have hexact' := isExact_ofWanted hwanted'.pathsExact
  have hrequests : (requests s'.instances).Perm (requests s.instances) := hperm.flatMap_right _
  have hclaims : ∀ other, (ofWanted wanted').ClaimedBy p other ↔ (ofWanted wanted).ClaimedBy p other :=
    fun other => by
      simp only [ClaimedBy, hexact.mem_outputs_iff, hexact'.mem_outputs_iff, hwanted.mem_iff,
        hwanted'.mem_iff, hrequests.mem_iff]
  refine ⟨hclaims owner, ?_⟩
  simp only [hexact.collidesWith_iff, hexact'.collidesWith_iff, hclaims]

/-- There is a plan exactly if every directive of every instance asks for an output; the plan then holds
those outputs and the collisions among them; the order of instances does not change who claims a path; and
without a plan the error is that of the first directive that is refused. -/
theorem ofSnapshot_exact (s : Snapshot) (templates : TemplateSet) (root : Path) :
    ((∃ plan, ofSnapshot s templates root = .ok plan) ↔
      ∀ i ∈ s.instances, ∀ d ∈ i.build, ∃ o, Asks templates root i.id d o) ∧
    (∀ plan, ofSnapshot s templates root = .ok plan →
      ∃ wanted, Wanted templates root s wanted ∧ IsExact wanted plan) ∧
    (∀ (s' : Snapshot) (plan : OutputPlan), s'.instances.Perm s.instances →
      ofSnapshot s templates root = .ok plan → ∃ plan', ofSnapshot s' templates root = .ok plan' ∧
        ∀ p owner, (plan'.ClaimedBy p owner ↔ plan.ClaimedBy p owner) ∧
          (plan'.CollidesWith p owner ↔ plan.CollidesWith p owner)) ∧
    ∀ e, ofSnapshot s templates root = .error e ↔
      ∃ earlier id d later, requests s.instances = earlier ++ (id, d) :: later ∧
        (∀ request ∈ earlier, ∃ o, Asks templates root request.1 request.2 o) ∧
        Refused templates root id d e := by
  refine ⟨exists_plan_iff, fun plan h => ?_, fun s' plan hperm h => exists_plan_of_perm hperm h,
    fun e => ofSnapshot_eq_error_iff⟩
  obtain ⟨wanted, hwanted, rfl⟩ := ofSnapshot_eq_ok_iff.mp h
  exact ⟨wanted, hwanted, isExact_ofWanted hwanted.pathsExact⟩

/-- A model with these instances and nothing else. -/
def modelOf (instances : List Instance) : Snapshot :=
  ⟨⟨"", ""⟩, {}, [], instances, [], Snapshot.indexOf instances, [], ""⟩

/-- Two instances that ask for one path, one of them twice in different words. -/
def sharing : List Instance :=
  [{ id := "a", build := [⟨"page.hbs", some "x"⟩, ⟨"/page", some "/x"⟩] },
    { id := "b", build := [⟨"page", some "x"⟩] }]

def onePage : TemplateSet := [("page", ⟨"page", "", none⟩)]

/-- Each of the two claims the path once, whichever comes first. -/
theorem ofSnapshot_exact_sharing :
    ∃ plan plan' wanted, ofSnapshot (modelOf sharing) onePage ⟨"o"⟩ = .ok plan ∧
      Wanted onePage ⟨"o"⟩ (modelOf sharing) wanted ∧ IsExact wanted plan ∧
      plan.outputs = [⟨⟨"o/x"⟩, "page", "a"⟩, ⟨⟨"o/x"⟩, "page", "b"⟩] ∧
      ofSnapshot (modelOf sharing.reverse) onePage ⟨"o"⟩ = .ok plan' ∧
      plan'.CollidesWith ⟨"o/x"⟩ ("page", "b") := by
  have h : ofSnapshot (modelOf sharing) onePage ⟨"o"⟩ =
      .ok ⟨[⟨⟨"o/x"⟩, "page", "a"⟩, ⟨⟨"o/x"⟩, "page", "b"⟩],
        [⟨⟨"o/x"⟩, [⟨"page", "a", .directive⟩, ⟨"page", "b", .directive⟩]⟩]⟩ := by rfl
  obtain ⟨-, hexact, hperm, -⟩ := ofSnapshot_exact (modelOf sharing) onePage ⟨"o"⟩
  obtain ⟨wanted, hwanted, hexact⟩ := hexact _ h
  obtain ⟨plan', h', hsame⟩ := hperm (modelOf sharing.reverse) _ (.swap _ _ _) h
  refine ⟨_, plan', wanted, h, hwanted, hexact, rfl, h', (hsame _ _).2.mpr ?_⟩
  exact ⟨_, List.mem_singleton_self _, rfl, by decide⟩

end OutputPlan

end DocModel
