import DocModel.Proofs.Snapshot.Refinement

/-!
# Reads through an open draft

An instance is read at the position that the index has for its id, and the index is that of the snapshot that
the draft was opened from, whatever operations there have been since. So the reads through a draft are those of
the ids that are still at the positions where they were: all of them are right while the ids are those of the
snapshot in their order, and an operation that adds an id or removes one makes some of them wrong, which give
another instance, or none, or point past the end. Only a commit makes them right again.

* `readsRight_iff`: when the read of an id is right.
* `ids_apply_eq_iff`: what an operation has to do for the ids to stay.
* `draft_reads`: all that reads through a draft can give.
-/

namespace DocModel

open Instance (find?)

namespace Snapshot

variable {s : Snapshot} {id : String} {base : List String}

def ids (s : Snapshot) : List String := s.instances.map Instance.id

/-- Reading an id gives the instance of this id if there is one, and else nothing. -/
def ReadsRight (s : Snapshot) (id : String) : Prop :=
  s.read id =
    match find? s.instances id with
    | some i => .found i
    | none => .missing

theorem read_eq_missing_iff : s.read id = .missing ↔ Dict.get? s.index id = none := by
  rw [read]
  cases Dict.get? s.index id with
  | none => simp
  | some n =>
    simp only [reduceCtorEq, iff_false]
    cases s.instances[n]? <;> simp

theorem read_eq_outOfRange_iff {n : Nat} :
    s.read id = .outOfRange n ↔ Dict.get? s.index id = some n ∧ s.instances.length ≤ n := by
  rw [read]
  cases Dict.get? s.index id with
  | none => simp
  | some m =>
    dsimp only
    cases hm : s.instances[m]? with
    | none =>
      have hle := List.getElem?_eq_none_iff.mp hm
      simp only [InstanceRead.outOfRange.injEq, Option.some.injEq]
      exact ⟨fun heq => ⟨heq, heq ▸ hle⟩, fun h => h.1⟩
    | some i =>
      obtain ⟨hlt, -⟩ := List.getElem?_eq_some_iff.mp hm
      simp only [reduceCtorEq, Option.some.injEq, false_iff]
      omega

/-- The index has the positions of the ids in a list. -/
def Indexes (s : Snapshot) (base : List String) : Prop :=
  ∀ (id : String) (n : Nat), Dict.get? s.index id = some n ↔ base[n]? = some id

theorem getElem?_ids (s : Snapshot) (n : Nat) : s.ids[n]? = s.instances[n]?.map Instance.id := List.getElem?_map ..

theorem find?_eq_none_iff : find? s.instances id = none ↔ id ∉ s.ids := by
  simp [find?, ids]

theorem readsRight_iff_of_mem {i : Instance} (hids : s.ids.Nodup) (hi : i ∈ s.instances) (hid : i.id = id) :
    s.ReadsRight id ↔ s.read id = .found i := by
  rw [ReadsRight, (Instance.find?_eq_some_iff hids).mpr ⟨hi, hid⟩]

theorem readsRight_iff_of_not_mem (hid : id ∉ s.ids) : s.ReadsRight id ↔ s.read id = .missing := by
  rw [ReadsRight, find?_eq_none_iff.mpr hid]

/-- The read of an id is right if the id is where the index has it, and only then. -/
theorem readsRight_iff (hindex : s.Indexes base) (hids : s.ids.Nodup) :
    s.ReadsRight id ↔ ∀ n : Nat, s.ids[n]? = some id ↔ base[n]? = some id := by
  by_cases hmem : id ∈ s.ids
  · obtain ⟨m, hm⟩ := List.mem_iff_getElem?.mp hmem
    have honly : ∀ n : Nat, s.ids[n]? = some id → n = m := fun n hn =>
      (List.getElem?_inj (List.getElem?_eq_some_iff.mp hn).1 hids).mp (hn.trans hm.symm)
    obtain ⟨i, hi, hid⟩ : ∃ i, s.instances[m]? = some i ∧ i.id = id := by
      rwa [getElem?_ids, Option.map_eq_some_iff] at hm
    rw [readsRight_iff_of_mem hids (List.mem_of_getElem? hi) hid, read_eq_found_iff]
    constructor
    · rintro ⟨n, hn, hfound⟩ k
      obtain rfl : n = m := honly n (by rw [getElem?_ids, hfound, Option.map_some, hid])
      rw [← hindex id k, hn, Option.some.injEq]
      exact ⟨fun hk => (honly k hk).symm, fun hk => hk ▸ hm⟩
    · intro hsame
      exact ⟨m, (hindex id m).mpr ((hsame m).mp hm), hi⟩
  · have hnot : ∀ n : Nat, s.ids[n]? ≠ some id := fun n hn => hmem (List.mem_of_getElem? hn)
    rw [readsRight_iff_of_not_mem hmem, read_eq_missing_iff, Option.eq_none_iff_forall_ne_some]
    exact forall_congr' fun n => by rw [Ne, hindex id n, iff_false_left (hnot n)]

theorem forall_readsRight_iff (hindex : s.Indexes base) (hids : s.ids.Nodup) :
    (∀ id, s.ReadsRight id) ↔ s.ids = base := by
  constructor
  · intro h
    -- Right reads for all ids fix what stands at each position, and so the whole list.
    refine List.ext_getElem? fun n => Option.ext fun id => ?_
    exact (readsRight_iff hindex hids).mp (h id) n
  · rintro rfl id
    exact (readsRight_iff hindex hids).mpr fun _ => Iff.rfl

theorem indexes_reindexed (s : Snapshot) : s.reindexed.Indexes s.reindexed.ids := by
  intro id n
  show Dict.get? (indexOf (Instance.arranged s.instances)) id = some n ↔ _
  rw [get?_indexOf_iff (Instance.idsOrdered_arranged s.instances).nodup, getElem?_ids, Option.map_eq_some_iff]
  rfl

/-- A snapshot that is committed reads every id right. -/
theorem readsRight_reindexed (s : Snapshot) (id : String) : s.reindexed.ReadsRight id :=
  (forall_readsRight_iff (indexes_reindexed s) (Instance.idsOrdered_arranged s.instances).nodup).mpr rfl id

end Snapshot

/-! ## What operations do to the ids -/

/-- The operation neither adds an id nor removes one: it replaces an instance that there is, removes one that
there is not, or is about a class. -/
def DraftOp.KeepsIds (ids : List String) : DraftOp → Prop
  | .upsertInstance new => new.id ∈ ids
  | .removeInstance id => id = Instance.globalId ∨ id ∉ ids
  | .setGlobal _ => Instance.globalId ∈ ids
  | .upsertClass _ | .removeClass _ => True

namespace Draft

theorem index_upsertInstance (d : Draft) (new : Instance) :
    (d.upsertInstance new).2.working.index = d.working.index := by
  rw [upsertInstance]
  cases replaceFirst new d.working.instances <;> rfl

theorem index_removeInstance (d : Draft) (id : String) :
    (d.removeInstance id).2.working.index = d.working.index := by
  rw [removeInstance]
  split
  · rfl
  · cases removeFirst id d.working.instances <;> rfl

/-- No operation touches the index. -/
theorem index_apply (d : Draft) (op : DraftOp) : (d.apply op).2.working.index = d.working.index := by
  cases op with
  | upsertInstance new => exact d.index_upsertInstance new
  | removeInstance id => exact d.index_removeInstance id
  | setGlobal new => exact d.index_upsertInstance _
  | upsertClass new => rfl
  | removeClass name => rfl

/-- The draft after some operations. -/
def after (d : Draft) (ops : List DraftOp) : Draft := (d.run ops).2

theorem index_after (d : Draft) (ops : List DraftOp) : (d.after ops).working.index = d.working.index := by
  induction ops generalizing d with
  | nil => rfl
  | cons op ops ih => exact (ih (d.apply op).2).trans (d.index_apply op)

theorem ids_upsertInstance_eq_iff (d : Draft) (new : Instance) :
    (d.upsertInstance new).2.working.ids = d.working.ids ↔ new.id ∈ d.working.ids := by
  rw [upsertInstance]
  rcases replaceFirst_spec new d.working.instances with ⟨hnone, hfind⟩ | ⟨old, rest, hsome, hfind, hids, -⟩
  · rw [hnone]
    refine iff_of_false (fun hsame => ?_) (Snapshot.find?_eq_none_iff.mp hfind)
    have hlength := congrArg List.length hsame
    simp [Snapshot.ids] at hlength
  · rw [hsome]
    exact iff_of_true hids (not_not.mp fun hmem => by simp [Snapshot.find?_eq_none_iff.mpr hmem] at hfind)

theorem ids_removeInstance_eq_iff {d : Draft} (h : d.IsSound) (id : String) :
    (d.removeInstance id).2.working.ids = d.working.ids ↔ id = Instance.globalId ∨ id ∉ d.working.ids := by
  rw [removeInstance]
  by_cases hglobal : id = Instance.globalId
  · rw [if_pos hglobal]
    exact iff_of_true rfl (.inl hglobal)
  rw [if_neg hglobal, or_iff_right hglobal]
  rcases removeFirst_spec h.nodup id with ⟨hnone, hfind⟩ | ⟨old, rest, hsome, hfind, -, hrest⟩
  · rw [hnone]
    exact iff_of_true rfl (Snapshot.find?_eq_none_iff.mp hfind)
  · rw [hsome]
    have hmem : id ∈ d.working.ids :=
      not_not.mp fun hmem => by simp [Snapshot.find?_eq_none_iff.mpr hmem] at hfind
    refine iff_of_false (fun hsame => ?_) (not_not_intro hmem)
    have hgone : find? rest id = none := by rw [hrest, Function.update_self]
    rw [← hsame] at hmem
    exact Snapshot.find?_eq_none_iff.mp hgone hmem

/-- The ids stay if the operation neither adds one nor removes one, and only then. -/
theorem ids_apply_eq_iff {d : Draft} (h : d.IsSound) (op : DraftOp) :
    (d.apply op).2.working.ids = d.working.ids ↔ op.KeepsIds d.working.ids := by
  cases op with
  | upsertInstance new => exact d.ids_upsertInstance_eq_iff new
  | removeInstance id => exact ids_removeInstance_eq_iff h id
  | setGlobal new => exact d.ids_upsertInstance_eq_iff _
  | upsertClass new => exact iff_of_true rfl trivial
  | removeClass name => exact iff_of_true rfl trivial

end Draft

namespace Snapshot

theorem Committed.indexes {s : Snapshot} (h : Committed s) : s.Indexes s.ids := by
  obtain ⟨working, rfl⟩ := h.exists_reindexed
  exact indexes_reindexed working

/-- A read through a draft goes to the position that the id had when the draft was opened, and gives whatever
instance is there now: none at all if the id is newer than that, and it points past the end if the list has
become too short. It is right for the ids that are where they were, so for all of them if the ids are those of
the snapshot in their order. An operation keeps all reads right if it neither adds an id nor removes one, and
only then; and a commit makes them right again. -/
theorem draft_reads {s : Snapshot} (h : Committed s) (ops : List DraftOp) :
    let d := (Draft.ofSnapshot s).after ops
    (∀ id, d.working.read id = .missing ↔ id ∉ s.ids) ∧
    (∀ id i, d.working.read id = .found i ↔ ∃ n : Nat, s.ids[n]? = some id ∧ d.working.instances[n]? = some i) ∧
    (∀ id n, d.working.read id = .outOfRange n ↔ s.ids[n]? = some id ∧ d.working.instances.length ≤ n) ∧
    (∀ id, d.working.ReadsRight id ↔ ∀ n : Nat, d.working.ids[n]? = some id ↔ s.ids[n]? = some id) ∧
    ((∀ id, d.working.ReadsRight id) ↔ d.working.ids = s.ids) ∧
    ((∀ id, d.working.ReadsRight id) → ∀ op,
      (∀ id, (d.after [op]).working.ReadsRight id) ↔ op.KeepsIds d.working.ids) ∧
    ∀ validate s', d.commit validate = .ok s' → ∀ id, s'.ReadsRight id := by
  intro d
  have hsound : d.IsSound := (Draft.run_view h.isSound ops).2.2
  have hindexes : d.working.Indexes s.ids := fun id n => by
    rw [(Draft.ofSnapshot s).index_after ops]
    exact h.indexes id n
  have hall : (∀ id, d.working.ReadsRight id) ↔ d.working.ids = s.ids :=
    forall_readsRight_iff hindexes hsound.nodup
  refine ⟨fun id => ?_, fun id i => ?_, fun id n => ?_, fun id => readsRight_iff hindexes hsound.nodup, hall,
    fun hright op => ?_, fun validate s' hcommit id => ?_⟩
  · rw [read_eq_missing_iff, Option.eq_none_iff_forall_ne_some, List.mem_iff_getElem?, not_exists]
    exact forall_congr' fun n => not_congr (hindexes id n)
  · rw [read_eq_found_iff]
    exact exists_congr fun n => and_congr_left' (hindexes id n)
  · rw [read_eq_outOfRange_iff, hindexes]
  · have hsound' : (d.after [op]).IsSound := (Draft.apply_view d op hsound).2.2
    have hindexes' : (d.after [op]).working.Indexes s.ids := fun id n => by
      rw [d.index_after [op]]
      exact hindexes id n
    rw [forall_readsRight_iff hindexes' hsound'.nodup, ← hall.mp hright]
    exact Draft.ids_apply_eq_iff hsound op
  · rw [← (Draft.commit_eq_ok_iff.mp hcommit).2]
    exact readsRight_reindexed _ id

/-- The global record and two other instances. -/
def pair : Snapshot := assemble ⟨"", ""⟩ {} [] [{ id := "global" }, { id := "a" }, { id := "b" }] []

theorem committed_pair : Committed pair := .assembled _ _ _ _ List.Pairwise.nil

theorem instances_pair : pair.instances = [{ id := "global" }, { id := "a" }, { id := "b" }] := by
  refine Instance.arranged_eq_self ?_ rfl
  unfold Instance.IdsOrdered Instance.IdBefore
  decide

/-- While an instance is only replaced, all reads are right. -/
theorem draft_reads_after_replacing :
    Committed pair ∧
      ∀ id, ((Draft.ofSnapshot pair).after [.upsertInstance { id := "b", classRef := some "c" }]).working.ReadsRight id := by
  obtain ⟨-, -, -, -, hall, hkeeps, -⟩ := draft_reads committed_pair []
  refine ⟨committed_pair, (hkeeps (hall.mpr rfl) (.upsertInstance _)).mpr ?_⟩
  show "b" ∈ pair.instances.map Instance.id
  rw [instances_pair]
  decide

/-- After a removal an id that is gone reads as its neighbour, and the id of this one points past the end although
it is still there. -/
theorem draft_reads_wrong_after_removal :
    Committed pair ∧
      ((Draft.ofSnapshot pair).after [.removeInstance "a"]).working.instances = [{ id := "global" }, { id := "b" }] ∧
      ((Draft.ofSnapshot pair).after [.removeInstance "a"]).working.read "a" = .found { id := "b" } ∧
      ((Draft.ofSnapshot pair).after [.removeInstance "a"]).working.read "b" = .outOfRange 2 ∧
      ¬ ∀ (s : Snapshot) (ops : List DraftOp) (id : String), Committed s →
        ((Draft.ofSnapshot s).after ops).working.ReadsRight id := by
  have hindex : ∀ (id : String) (n : Nat), pair.ids[n]? = some id →
      Dict.get? ((Draft.ofSnapshot pair).after [.removeInstance "a"]).working.index id = some n := by
    intro id n hid
    rw [Draft.index_after]
    exact (committed_pair.indexes id n).mpr hid
  have hids : pair.ids = ["global", "a", "b"] := congrArg (List.map Instance.id) instances_pair
  have hleft : ((Draft.ofSnapshot pair).after [.removeInstance "a"]).working.instances =
      [{ id := "global" }, { id := "b" }] := by
    have hremoved : Draft.removeFirst "a" pair.instances = some ({ id := "a" }, [{ id := "global" }, { id := "b" }]) := by
      rw [instances_pair]
      rfl
    show ((Draft.ofSnapshot pair).removeInstance "a").2.working.instances = _
    rw [Draft.removeInstance, if_neg (by decide), Draft.ofSnapshot, hremoved]
  have ha : ((Draft.ofSnapshot pair).after [.removeInstance "a"]).working.read "a" = .found { id := "b" } :=
    read_eq_found_iff.mpr ⟨1, hindex "a" 1 (by rw [hids]; rfl), by rw [hleft]; rfl⟩
  have hb : ((Draft.ofSnapshot pair).after [.removeInstance "a"]).working.read "b" = .outOfRange 2 :=
    read_eq_outOfRange_iff.mpr ⟨hindex "b" 2 (by rw [hids]; rfl), by rw [hleft]; rfl⟩
  refine ⟨committed_pair, hleft, ha, hb, fun hall => ?_⟩
  have hright := hall pair [.removeInstance "a"] "b" committed_pair
  rw [ReadsRight, hb, hleft] at hright
  cases hright

end Snapshot

end DocModel
