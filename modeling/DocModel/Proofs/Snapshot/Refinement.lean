import Mathlib.Logic.Function.Basic
import DocModel.Proofs.Snapshot.History

/-!
# Drafts as maps

What can be seen of a model are two maps, from ids to instances and from names to classes. A draft works on
lists that are searched from the front, added to at the end and arranged again by a commit; seen as maps,
each of its operations changes one entry and gives back the entry that was there.

* `ModelView.apply_comm`: operations on different entries can change places.
* `Draft.apply_view`: an operation on a draft is the operation on its maps.
* `Snapshot.eq_of_view_eq`: a committed snapshot is known from its maps.
* `Snapshot.draft_refines`: runs of operations, what a commit publishes, and that nothing but the maps counts.
-/

namespace DocModel

/-- A model seen as two maps. -/
structure ModelView where
  instances : String → Option Instance
  classes : String → Option ClassDefinition

/-- The entry that an operation is about: an instance, or a class. -/
def DraftOp.target : DraftOp → String ⊕ String
  | .upsertInstance new => .inl new.id
  | .removeInstance id => .inl id
  | .setGlobal _ => .inl Instance.globalId
  | .upsertClass new => .inr new.name
  | .removeClass name => .inr name

namespace ModelView

def setInstance (m : ModelView) (id : String) (i : Option Instance) : ModelView :=
  { m with instances := Function.update m.instances id i }

def setClass (m : ModelView) (name : String) (c : Option ClassDefinition) : ModelView :=
  { m with classes := Function.update m.classes name c }

/-- Each operation changes one entry and gives back what was there; the global record is never removed, and
setting it gives the instance its id. -/
def apply (m : ModelView) : DraftOp → Replaced × ModelView
  | .upsertInstance new => (.instanceWas (m.instances new.id), m.setInstance new.id (some new))
  | .removeInstance id =>
    if id = Instance.globalId then (.instanceWas none, m)
    else (.instanceWas (m.instances id), m.setInstance id none)
  | .setGlobal new =>
    (.instanceWas (m.instances Instance.globalId),
      m.setInstance Instance.globalId (some { new with id := Instance.globalId }))
  | .upsertClass new => (.classWas (m.classes new.name), m.setClass new.name (some new))
  | .removeClass name => (.classWas (m.classes name), m.setClass name none)

def run (m : ModelView) (ops : List DraftOp) : List Replaced × ModelView := DraftOp.runAll apply m ops

theorem setInstance_comm {a b : String} (h : a ≠ b) (m : ModelView) (i j : Option Instance) :
    (m.setInstance a i).setInstance b j = (m.setInstance b j).setInstance a i := by
  rw [setInstance, setInstance, setInstance, setInstance, Function.update_comm h]

theorem setClass_comm {a b : String} (h : a ≠ b) (m : ModelView) (c d : Option ClassDefinition) :
    (m.setClass a c).setClass b d = (m.setClass b d).setClass a c := by
  rw [setClass, setClass, setClass, setClass, Function.update_comm h]

/-- An operation sets the entry that it is about, or does nothing. -/
theorem apply_cases (op : DraftOp) :
    (∃ id i, op.target = .inl id ∧ ∀ m, (apply m op).2 = m.setInstance id i) ∨
      (∃ name c, op.target = .inr name ∧ ∀ m, (apply m op).2 = m.setClass name c) ∨
      ∀ m, (apply m op).2 = m := by
  cases op with
  | upsertInstance new => exact .inl ⟨_, _, rfl, fun _ => rfl⟩
  | removeInstance id =>
    by_cases h : id = Instance.globalId
    · exact .inr (.inr fun m => by rw [apply, if_pos h])
    · exact .inl ⟨id, none, rfl, fun m => by rw [apply, if_neg h]⟩
  | setGlobal new => exact .inl ⟨_, _, rfl, fun _ => rfl⟩
  | upsertClass new => exact .inr (.inl ⟨_, _, rfl, fun _ => rfl⟩)
  | removeClass name => exact .inr (.inl ⟨_, _, rfl, fun _ => rfl⟩)

/-- Operations on different entries can change places. -/
theorem apply_comm {a b : DraftOp} (h : a.target ≠ b.target) (m : ModelView) :
    ((m.apply a).2.apply b).2 = ((m.apply b).2.apply a).2 := by
  rcases apply_cases a with ⟨x, i, hx, ha⟩ | ⟨x, c, hx, ha⟩ | ha <;>
    rcases apply_cases b with ⟨y, j, hy, hb⟩ | ⟨y, d, hy, hb⟩ | hb <;> simp only [ha, hb]
  · exact setInstance_comm (fun heq => h (by rw [hx, hy, heq])) m i j
  · rfl
  · rfl
  · exact setClass_comm (fun heq => h (by rw [hx, hy, heq])) m c d

end ModelView

namespace DraftOp

variable {State State' : Type} {apply : State → DraftOp → Replaced × State}
  {apply' : State' → DraftOp → Replaced × State'}

theorem runAll_append (state : State) (ops others : List DraftOp) :
    (runAll apply state (ops ++ others)).2 = (runAll apply (runAll apply state ops).2 others).2 := by
  induction ops generalizing state with
  | nil => rfl
  | cons op ops ih => exact ih (apply state op).2

/-- If every operation is seen as an operation on the view, so is every run; an invariant that operations
keep may be used. -/
theorem runAll_view {view : State → State'} {P : State → Prop}
    (hstep : ∀ s op, P s → (apply s op).1 = (apply' (view s) op).1 ∧
      view (apply s op).2 = (apply' (view s) op).2 ∧ P (apply s op).2)
    {state : State} (h : P state) (ops : List DraftOp) :
    (runAll apply state ops).1 = (runAll apply' (view state) ops).1 ∧
      view (runAll apply state ops).2 = (runAll apply' (view state) ops).2 ∧
      P (runAll apply state ops).2 := by
  induction ops generalizing state with
  | nil => exact ⟨rfl, rfl, h⟩
  | cons op ops ih =>
    obtain ⟨hreplaced, hview, hkept⟩ := hstep state op h
    obtain ⟨hothers, hview', hkept'⟩ := ih hkept
    rw [hview] at hothers hview'
    exact ⟨congrArg₂ List.cons hreplaced hothers, hview', hkept'⟩

end DraftOp

/-! ## Lists of a draft -/

namespace Draft

open Instance (find?)

theorem replaceFirst_spec (new : Instance) (instances : List Instance) :
    (replaceFirst new instances = none ∧ find? instances new.id = none) ∨
      ∃ old rest, replaceFirst new instances = some (old, rest) ∧ find? instances new.id = some old ∧
        rest.map Instance.id = instances.map Instance.id ∧
        find? rest = Function.update (find? instances) new.id (some new) := by
  induction instances with
  | nil => exact .inl ⟨rfl, rfl⟩
  | cons i instances ih =>
    rw [replaceFirst, Instance.find?_cons]
    by_cases h : i.id = new.id
    · rw [if_pos h, if_pos h]
      refine .inr ⟨i, new :: instances, rfl, rfl, by simp [h], funext fun id => ?_⟩
      by_cases hid : id = new.id
      · rw [hid, Function.update_self, Instance.find?_cons, if_pos rfl]
      · rw [Function.update_of_ne hid, Instance.find?_cons, Instance.find?_cons, h, if_neg (Ne.symm hid),
          if_neg (Ne.symm hid)]
    · rw [if_neg h, if_neg h]
      rcases ih with ⟨hnone, hfind⟩ | ⟨old, rest, hsome, hfind, hids, hrest⟩
      · exact .inl ⟨by rw [hnone]; rfl, hfind⟩
      · refine .inr ⟨old, i :: rest, by rw [hsome]; rfl, hfind, by simp [hids], funext fun id => ?_⟩
        rw [Instance.find?_cons, hrest]
        by_cases hid : id = new.id
        · rw [hid, if_neg h, Function.update_self, Function.update_self]
        · rw [Function.update_of_ne hid, Function.update_of_ne hid, Instance.find?_cons]

theorem removeFirst_spec {instances : List Instance} (h : (instances.map Instance.id).Nodup) (id : String) :
    (removeFirst id instances = none ∧ find? instances id = none) ∨
      ∃ old rest, removeFirst id instances = some (old, rest) ∧ find? instances id = some old ∧
        (rest.map Instance.id).Sublist (instances.map Instance.id) ∧
        find? rest = Function.update (find? instances) id none := by
  induction instances with
  | nil => exact .inl ⟨rfl, rfl⟩
  | cons i instances ih =>
    obtain ⟨hi, hnodup⟩ := List.nodup_cons.mp h
    rw [removeFirst, Instance.find?_cons]
    by_cases hid : i.id = id
    · rw [if_pos hid, if_pos hid]
      refine .inr ⟨i, instances, rfl, rfl, List.sublist_cons_self _ _, funext fun other => ?_⟩
      by_cases ho : other = id
      · rw [ho, Function.update_self, find?, List.find?_eq_none]
        intro j hj hjid
        exact hi (List.mem_map.mpr ⟨j, hj, by rw [hid]; simpa using hjid⟩)
      · rw [Function.update_of_ne ho, Instance.find?_cons, hid, if_neg (Ne.symm ho)]
    · rw [if_neg hid, if_neg hid]
      rcases ih hnodup with ⟨hnone, hfind⟩ | ⟨old, rest, hsome, hfind, hids, hrest⟩
      · exact .inl ⟨by rw [hnone]; rfl, hfind⟩
      · refine .inr ⟨old, i :: rest, by rw [hsome]; rfl, hfind, hids.cons_cons _, funext fun other => ?_⟩
        rw [Instance.find?_cons, hrest]
        by_cases ho : other = id
        · rw [ho, if_neg hid, Function.update_self, Function.update_self]
        · rw [Function.update_of_ne ho, Function.update_of_ne ho, Instance.find?_cons]

/-! ## Steps -/

/-- The maps of a draft, whatever is out of date in it. -/
def view (d : Draft) : ModelView := ⟨find? d.working.instances, Dict.get? d.working.classes⟩

/-- What all operations keep: no id occurs twice, the global record is there, and classes are in order. -/
structure IsSound (d : Draft) : Prop where
  nodup : (d.working.instances.map Instance.id).Nodup
  global : (find? d.working.instances Instance.globalId).isSome = true
  classes : Dict.Ordered d.working.classes

theorem isSome_update {f : String → Option Instance} {id : String} (h : (f id).isSome = true) (key : String)
    (i : Instance) : (Function.update f key (some i) id).isSome = true := by
  by_cases hid : id = key
  · rw [hid, Function.update_self]
    rfl
  · rw [Function.update_of_ne hid]
    exact h

theorem upsertInstance_view {d : Draft} (h : d.IsSound) (new : Instance) :
    (d.upsertInstance new).1 = d.view.instances new.id ∧
      (d.upsertInstance new).2.view = d.view.setInstance new.id (some new) ∧
      (d.upsertInstance new).2.IsSound := by
  rw [upsertInstance]
  rcases replaceFirst_spec new d.working.instances with
    ⟨hnone, hfind⟩ | ⟨old, rest, hsome, hfind, hids, hrest⟩
  · rw [hnone]
    have hadded : find? (d.working.instances ++ [new]) =
        Function.update (find? d.working.instances) new.id (some new) := funext fun id => by
      rw [find?, List.find?_append]
      show (find? d.working.instances id).or (find? [new] id) = _
      rw [Instance.find?_cons]
      by_cases hid : id = new.id
      · rw [hid, hfind, Function.update_self, if_pos rfl]
        rfl
      · rw [Function.update_of_ne hid, if_neg (Ne.symm hid)]
        exact Option.or_none
    have hnew : new.id ∉ d.working.instances.map Instance.id := fun hmem => by
      obtain ⟨i, hi, hid⟩ := List.mem_map.mp hmem
      have hne := List.find?_eq_none.mp hfind i hi
      simp [hid] at hne
    refine ⟨hfind.symm, by rw [view, hadded]; rfl, ?_, ?_, h.classes⟩
    · show ((d.working.instances ++ [new]).map Instance.id).Nodup
      rw [List.map_append]
      exact h.nodup.append (List.nodup_singleton _) (by simpa using hnew)
    · show (find? (d.working.instances ++ [new]) Instance.globalId).isSome = true
      rw [hadded]
      exact isSome_update h.global _ _
  · rw [hsome]
    refine ⟨hfind.symm, by rw [view, hrest]; rfl, hids ▸ h.nodup, ?_, h.classes⟩
    show (find? rest Instance.globalId).isSome = true
    rw [hrest]
    exact isSome_update h.global _ _

theorem removeInstance_view {d : Draft} (h : d.IsSound) {id : String} (hid : id ≠ Instance.globalId) :
    (d.removeInstance id).1 = d.view.instances id ∧
      (d.removeInstance id).2.view = d.view.setInstance id none ∧ (d.removeInstance id).2.IsSound := by
  rw [removeInstance, if_neg hid]
  rcases removeFirst_spec h.nodup id with ⟨hnone, hfind⟩ | ⟨old, rest, hsome, hfind, hids, hrest⟩
  · rw [hnone]
    refine ⟨hfind.symm, ?_, h⟩
    rw [ModelView.setInstance, ← hfind]
    exact congrArg (ModelView.mk · _) (Function.update_eq_self id _).symm
  · rw [hsome]
    refine ⟨hfind.symm, by rw [view, hrest]; rfl, h.nodup.sublist hids, ?_, h.classes⟩
    show (find? rest Instance.globalId).isSome = true
    rw [hrest, Function.update_of_ne (Ne.symm hid)]
    exact h.global

theorem get?_eq_update {α : Type} {d d' : Dict α} {key : String} {v : Option α}
    (h : ∀ other, Dict.get? d' other = if other = key then v else Dict.get? d other) :
    Dict.get? d' = Function.update (Dict.get? d) key v := by
  funext other
  rw [h]
  by_cases ho : other = key
  · rw [ho, if_pos rfl, Function.update_self]
  · rw [if_neg ho, Function.update_of_ne ho]

/-- An operation on a draft is the operation on its maps. -/
theorem apply_view (d : Draft) (op : DraftOp) (h : d.IsSound) :
    (d.apply op).1 = (d.view.apply op).1 ∧ (d.apply op).2.view = (d.view.apply op).2 ∧
      (d.apply op).2.IsSound := by
  cases op with
  | upsertInstance new =>
    obtain ⟨hold, hview, hsound⟩ := upsertInstance_view h new
    exact ⟨congrArg Replaced.instanceWas hold, hview, hsound⟩
  | removeInstance id =>
    by_cases hid : id = Instance.globalId
    · have hnothing : d.removeInstance id = (none, d) := by rw [removeInstance, if_pos hid]
      rw [apply, ModelView.apply, hnothing, if_pos hid]
      exact ⟨rfl, rfl, h⟩
    · obtain ⟨hold, hview, hsound⟩ := removeInstance_view h hid
      rw [ModelView.apply, if_neg hid]
      exact ⟨congrArg Replaced.instanceWas hold, hview, hsound⟩
  | setGlobal new =>
    obtain ⟨hold, hview, hsound⟩ := upsertInstance_view h { new with id := Instance.globalId }
    exact ⟨congrArg Replaced.instanceWas hold, hview, hsound⟩
  | upsertClass new =>
    exact ⟨rfl, congrArg (ModelView.mk _) (get?_eq_update fun other => Dict.get?_insert _ _ other _),
      h.nodup, h.global, h.classes.insert _ _⟩
  | removeClass name =>
    exact ⟨rfl, congrArg (ModelView.mk _) (get?_eq_update fun other => Dict.get?_erase _ _ other),
      h.nodup, h.global, h.classes.erase _⟩

/-- A run of operations on a draft is the run on its maps. -/
theorem run_view {d : Draft} (h : d.IsSound) (ops : List DraftOp) :
    (d.run ops).1 = (d.view.run ops).1 ∧ (d.run ops).2.view = (d.view.run ops).2 ∧
      (d.run ops).2.IsSound :=
  DraftOp.runAll_view apply_view h ops

end Draft

/-! ## Commits -/

namespace Snapshot

/-- The maps of a snapshot, as its own lookups show them. -/
def view (s : Snapshot) : ModelView := ⟨s.instance?, s.class?⟩

theorem instance?_reindexed (s : Snapshot) (id : String) :
    s.reindexed.instance? id = Instance.find? s.reindexed.instances id :=
  instance?_eq_find? (Instance.idsOrdered_arranged s.instances).nodup rfl id

/-- A commit shows the maps of the draft. -/
theorem view_reindexed {d : Draft} (h : d.IsSound) : d.working.reindexed.view = d.view := by
  have hinstances : d.working.reindexed.instance? = Instance.find? d.working.instances := funext fun id => by
    rw [instance?_reindexed]
    show Instance.find? (Instance.arranged d.working.instances) id = _
    rw [Instance.find?_arranged]
    by_cases hid : id = Instance.globalId
    · obtain ⟨g, hg⟩ := Option.isSome_iff_exists.mp h.global
      rw [hid, hg]
      rfl
    · rw [if_neg hid, Option.or_none]
  rw [view, hinstances]
  rfl

theorem isSound_reindexed {s : Snapshot} (h : Dict.Ordered s.classes) :
    (Draft.ofSnapshot s.reindexed).IsSound where
  nodup := (Instance.idsOrdered_arranged s.instances).nodup
  global := Instance.isSome_find?_arranged_global s.instances
  classes := h

theorem Committed.isSound {s : Snapshot} (h : Committed s) : (Draft.ofSnapshot s).IsSound := by
  induction h with
  | assembled stamp sourceRoots instances provenance hclasses => exact isSound_reindexed hclasses
  | edited ops validate h hcommit ih =>
    rw [← (Draft.commit_eq_ok_iff.mp hcommit).2]
    exact isSound_reindexed (Draft.run_view ih ops).2.2.classes

theorem Committed.view_ofSnapshot {s : Snapshot} (h : Committed s) : (Draft.ofSnapshot s).view = s.view := by
  obtain ⟨working, rfl⟩ := h.exists_reindexed
  exact congrArg (ModelView.mk · _) (funext fun id => (instance?_reindexed working id).symm)

/-- A committed snapshot is known from its maps. -/
theorem eq_of_view_eq {s s' : Snapshot} (h : Committed s) (h' : Committed s') (hview : s.view = s'.view) :
    s.classes = s'.classes ∧ s.instances = s'.instances ∧ s.hierarchy = s'.hierarchy ∧
      s.contentHash = s'.contentHash := by
  have hclasses : s.classes = s'.classes :=
    h.isSound.classes.ext h'.isSound.classes fun name => congrFun (congrArg ModelView.classes hview) name
  obtain ⟨working, rfl⟩ := h.exists_reindexed
  obtain ⟨working', rfl⟩ := h'.exists_reindexed
  have hinstances : working.reindexed.instances = working'.reindexed.instances := by
    refine Instance.IdsOrdered.ext (Instance.idsOrdered_arranged _) (Instance.idsOrdered_arranged _) fun id => ?_
    have hid := congrFun (congrArg ModelView.instances hview) id
    exact ((instance?_reindexed working id).symm.trans hid).trans (instance?_reindexed working' id)
  refine ⟨hclasses, hinstances, congrArg Classes.forest hclasses, ?_⟩
  exact congrArg₂ contentHashOf (congrArg Dict.values hclasses) hinstances

/-- A draft of a committed snapshot works as the two maps that the snapshot shows: each operation gives back
the entry that it replaces or removes in them, and a commit shows the maps that the operations lead to. Runs
that lead to the same maps publish the same classes, instances, hierarchy and content hash, and operations
on different entries lead to the same maps in either order. -/
theorem draft_refines {s : Snapshot} (h : Committed s) :
    (∀ ops, ((Draft.ofSnapshot s).run ops).1 = (s.view.run ops).1 ∧
      ∃ s', ((Draft.ofSnapshot s).run ops).2.commit (fun _ => .ok ()) = .ok s' ∧
        s'.view = (s.view.run ops).2) ∧
    (∀ ops ops' s₁ s₂, ((Draft.ofSnapshot s).run ops).2.commit (fun _ => .ok ()) = .ok s₁ →
      ((Draft.ofSnapshot s).run ops').2.commit (fun _ => .ok ()) = .ok s₂ →
      (s.view.run ops).2 = (s.view.run ops').2 →
      s₁.classes = s₂.classes ∧ s₁.instances = s₂.instances ∧ s₁.hierarchy = s₂.hierarchy ∧
        s₁.contentHash = s₂.contentHash) ∧
    ∀ (before : List DraftOp) (a b : DraftOp) (after : List DraftOp), a.target ≠ b.target →
      (s.view.run (before ++ a :: b :: after)).2 = (s.view.run (before ++ b :: a :: after)).2 := by
  have hrun : ∀ ops, ((Draft.ofSnapshot s).run ops).1 = (s.view.run ops).1 ∧
      ((Draft.ofSnapshot s).run ops).2.working.reindexed.view = (s.view.run ops).2 := fun ops => by
    obtain ⟨hreplaced, hview, hsound⟩ := Draft.run_view h.isSound ops
    rw [h.view_ofSnapshot] at hreplaced hview
    exact ⟨hreplaced, (view_reindexed hsound).trans hview⟩
  refine ⟨fun ops => ⟨(hrun ops).1, _, rfl, (hrun ops).2⟩, fun ops ops' s₁ s₂ h₁ h₂ hsame => ?_,
    fun before a b after hne => ?_⟩
  · refine eq_of_view_eq (.edited ops _ h h₁) (.edited ops' _ h h₂) ?_
    rw [← (Draft.commit_eq_ok_iff.mp h₁).2, ← (Draft.commit_eq_ok_iff.mp h₂).2, (hrun ops).2, (hrun ops').2,
      hsame]
  · rw [ModelView.run, ModelView.run, DraftOp.runAll_append, DraftOp.runAll_append]
    exact congrArg (fun m => (DraftOp.runAll ModelView.apply m after).2) (ModelView.apply_comm hne _)

/-- Adding one instance and removing another, in either order. -/
theorem draft_refines_either_order :
    Committed loadedTwice ∧
      ((Draft.ofSnapshot loadedTwice).run someOps).1 = (loadedTwice.view.run someOps).1 ∧
      ((Draft.ofSnapshot loadedTwice).run
          [.upsertInstance { id := "aa" }, .removeInstance "b"]).2.working.reindexed.contentHash =
        ((Draft.ofSnapshot loadedTwice).run
          [.removeInstance "b", .upsertInstance { id := "aa" }]).2.working.reindexed.contentHash := by
  have hloaded : Committed loadedTwice := .assembled _ _ _ _ (by simp [Dict.Ordered, Dict.keys])
  obtain ⟨hrun, hsame, hcomm⟩ := draft_refines hloaded
  have hmaps := hcomm [] (.upsertInstance { id := "aa" }) (.removeInstance "b") [] (by decide)
  exact ⟨hloaded, (hrun someOps).1, (hsame _ _ _ _ rfl rfl hmaps).2.2.2⟩

end Snapshot

end DocModel
