import DocModel.Proofs.Snapshot.Arrangement
import DocModel.Proofs.Text.ByteOrder
import DocModel.Snapshot.Draft

/-!
# Histories of snapshots

A snapshot is assembled once, and then edited any number of times: a draft is opened, operations are run on
it, and it is committed. While a draft is open, its order, index, forest and hash may be out of date;
`reindexed` alone restores all of them, from whatever instances and classes there are.

* `inOrder_reindexed`: everything derived is right after it, whatever was there before.
* `mem_assemble_iff`: of several loaded instances with one id the first is kept.
* `committed_inOrder`: so it is for every snapshot that comes out of a history.
-/

namespace DocModel

/-- An operation on a draft. -/
inductive DraftOp where
  | upsertInstance (new : Instance)
  | removeInstance (id : String)
  | setGlobal (new : Instance)
  | upsertClass (new : ClassDefinition)
  | removeClass (name : String)

/-- What an operation has replaced or removed. -/
inductive Replaced where
  | instanceWas (old : Option Instance)
  | classWas (old : Option ClassDefinition)
  deriving DecidableEq

namespace DraftOp

/-- Operations one after the other, with what each of them gives back. -/
def runAll {State : Type} (apply : State → DraftOp → Replaced × State) (state : State) :
    List DraftOp → List Replaced × State
  | [] => ([], state)
  | op :: ops =>
    let (replaced, state) := apply state op
    let (others, state) := runAll apply state ops
    (replaced :: others, state)

end DraftOp

namespace Draft

def apply (d : Draft) : DraftOp → Replaced × Draft
  | .upsertInstance new => (d.upsertInstance new).map .instanceWas id
  | .removeInstance name => (d.removeInstance name).map .instanceWas id
  | .setGlobal new => (d.setGlobal new).map .instanceWas id
  | .upsertClass new => (d.upsertClass new).map .classWas id
  | .removeClass name => (d.removeClass name).map .classWas id

def run (d : Draft) (ops : List DraftOp) : List Replaced × Draft := DraftOp.runAll apply d ops

theorem commit_eq_ok_iff {d : Draft} {validate : Snapshot → Except BuildError Unit} {s : Snapshot} :
    d.commit validate = .ok s ↔ validate d.working.reindexed = .ok () ∧ d.working.reindexed = s := by
  have hcommit : d.commit validate =
      (validate d.working.reindexed).bind fun _ => .ok d.working.reindexed := rfl
  rw [hcommit]
  cases validate d.working.reindexed with
  | error e => simp [Except.bind]
  | ok u => cases u; simp [Except.bind]

end Draft

namespace Snapshot

/-- A snapshot that was assembled, or edited through drafts after that. Classes are loaded in the order of
their names. -/
inductive Committed : Snapshot → Prop where
  | assembled (stamp : BuildStamp) (sourceRoots : SourceRoots) {classes : Classes}
      (instances : List Instance) (provenance : Dict (List Provenance)) (hclasses : Dict.Ordered classes) :
      Committed (assemble stamp sourceRoots classes instances provenance)
  | edited {s s' : Snapshot} (ops : List DraftOp) (validate : Snapshot → Except BuildError Unit)
      (h : Committed s) (hcommit : ((Draft.ofSnapshot s).run ops).2.commit validate = .ok s') : Committed s'

/-- Everything derived from classes and instances is right. -/
structure InOrder (s : Snapshot) : Prop where
  /-- The global record comes first and nowhere else, then the others in the byte order of their ids. -/
  global_first : ∃ g rest, s.instances = g :: rest ∧ g.id = Instance.globalId ∧
    (∀ i ∈ rest, i.id ≠ Instance.globalId) ∧ rest.Pairwise fun a b => Text.bytes a.id < Text.bytes b.id
  /-- The index has the position of each id that there is, and nothing else. -/
  index_iff : ∀ id n, Dict.get? s.index id = some n ↔
    ∃ h : n < s.instances.length, (s.instances[n]).id = id
  instance?_iff : ∀ id i, s.instance? id = some i ↔ i ∈ s.instances ∧ i.id = id
  hierarchy : s.hierarchy = s.classes.forest
  contentHash : s.contentHash = contentHashOf (Dict.values s.classes) s.instances

/-- Whatever instances and classes there are, deriving everything anew makes it right. -/
theorem inOrder_reindexed (s : Snapshot) : s.reindexed.InOrder := by
  have hordered : Instance.IdsOrdered s.reindexed.instances := Instance.idsOrdered_arranged s.instances
  have hindex : s.reindexed.index = indexOf s.reindexed.instances := rfl
  refine ⟨?_, fun id n => ?_, fun id i => ?_, rfl, rfl⟩
  · obtain ⟨g, rest, hcons, hg, hrest, hlt⟩ :=
      hordered.exists_global (Instance.isSome_find?_arranged_global s.instances)
    exact ⟨g, rest, hcons, hg, hrest, hlt.imp Text.lt_iff_bytes_lt.mp⟩
  · rw [hindex, get?_indexOf_iff hordered.nodup]
    simp only [List.getElem?_eq_some_iff]
    constructor
    · rintro ⟨i, ⟨h, rfl⟩, hid⟩
      exact ⟨h, hid⟩
    · rintro ⟨h, hid⟩
      exact ⟨_, ⟨h, rfl⟩, hid⟩
  · rw [instance?_eq_find? hordered.nodup hindex, Instance.find?_eq_some_iff hordered.nodup]

/-- Of several loaded instances with one id the first is kept, and the global record is made up if there is
none. -/
theorem mem_assemble_iff (stamp : BuildStamp) (sourceRoots : SourceRoots) (classes : Classes)
    (instances : List Instance) (provenance : Dict (List Provenance)) (i : Instance) :
    i ∈ (assemble stamp sourceRoots classes instances provenance).instances ↔
      Instance.find? instances i.id = some i ∨
        i = Instance.emptyGlobal ∧ Instance.find? instances Instance.globalId = none := by
  have hmem : Instance.find? (Instance.arranged instances) i.id = some i ↔
      i ∈ Instance.arranged instances ∧ i.id = i.id :=
    Instance.find?_eq_some_iff (Instance.idsOrdered_arranged instances).nodup
  rw [Instance.find?_arranged, Option.or_eq_some_iff, and_iff_left rfl] at hmem
  show i ∈ Instance.arranged instances ↔ _
  rw [← hmem]
  refine or_congr_right ?_
  constructor
  · rintro ⟨hnone, hi⟩
    split at hi
    · next hid => exact ⟨(Option.some.inj hi).symm, hid ▸ hnone⟩
    · cases hi
  · rintro ⟨rfl, hnone⟩
    exact ⟨hnone, rfl⟩

/-- A committed snapshot is what deriving everything anew makes of some other. -/
theorem Committed.exists_reindexed {s : Snapshot} (h : Committed s) :
    ∃ working : Snapshot, s = working.reindexed := by
  cases h with
  | assembled => exact ⟨_, rfl⟩
  | edited ops validate h hcommit => exact ⟨_, (Draft.commit_eq_ok_iff.mp hcommit).2.symm⟩

/-- In every snapshot that was assembled or committed, whatever was loaded and whatever drafts have done to
it, order, index, forest and hash are right; and of several loaded instances with one id the first is
assembled. -/
theorem committed_inOrder :
    (∀ s, Committed s → s.InOrder) ∧
    ∀ (stamp : BuildStamp) (sourceRoots : SourceRoots) (classes : Classes) (instances : List Instance)
      (provenance : Dict (List Provenance)) (i : Instance),
      i ∈ (assemble stamp sourceRoots classes instances provenance).instances ↔
        Instance.find? instances i.id = some i ∨
          i = Instance.emptyGlobal ∧ Instance.find? instances Instance.globalId = none := by
  refine ⟨fun s h => ?_, mem_assemble_iff⟩
  obtain ⟨working, rfl⟩ := h.exists_reindexed
  exact inOrder_reindexed working

/-- Three instances, of which two have one id. -/
def loadedTwice : Snapshot :=
  assemble ⟨"", ""⟩ {} [("c", { name := "c" })]
    [{ id := "b", classRef := some "c" }, { id := "a" }, { id := "b" }] []

/-- An instance is removed, another one is added, and the global record is set. -/
def someOps : List DraftOp :=
  [.removeInstance "a", .upsertInstance { id := "aa" }, .setGlobal { id := "x", classRef := some "c" }]

/-- The draft is out of order before it is committed, and what is committed is in order. -/
theorem committed_inOrder_edited :
    Committed loadedTwice ∧ Committed ((Draft.ofSnapshot loadedTwice).run someOps).2.working.reindexed ∧
      ((Draft.ofSnapshot loadedTwice).run someOps).2.working.reindexed.InOrder ∧
      { id := "b", classRef := some "c" } ∈ loadedTwice.instances := by
  have hloaded : Committed loadedTwice := .assembled _ _ _ _ (by simp [Dict.Ordered, Dict.keys])
  have hedited : Committed ((Draft.ofSnapshot loadedTwice).run someOps).2.working.reindexed :=
    .edited someOps (fun _ => .ok ()) hloaded rfl
  exact ⟨hloaded, hedited, committed_inOrder.1 _ hedited, (committed_inOrder.2 _ _ _ _ _ _).mpr (.inl rfl)⟩

end Snapshot

end DocModel
