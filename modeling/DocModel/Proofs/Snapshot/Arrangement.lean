import Mathlib.Data.List.Nodup
import DocModel.Proofs.Dict.Insertion
import DocModel.Snapshot.Basic

/-!
# The order of instances

The instances of a model are put in order by a stable sort, and then all but the first of each run of one id
are dropped. Both steps leave what is found under an id as it was, and together they leave the ids in
strictly increasing order, so an arranged list is known from what is found in it.

* `idsOrdered_arranged`: the order of ids in an arranged list.
* `find?_arranged`: what is found in it is what is found in the given list, the global record apart.
* `IdsOrdered.ext`: lists in order in which the same is found are equal.
* `get?_indexOf_iff`: the index leads from an id to the position of its instance.
-/

namespace DocModel

namespace Instance

/-- The first instance of an id. -/
def find? (instances : List Instance) (id : String) : Option Instance :=
  List.find? (fun i => i.id = id) instances

/-- The order of ids: that of the global record comes first. -/
def IdBefore (a b : String) : Prop := b ≠ globalId ∧ (a = globalId ∨ a < b)

/-- The ids increase strictly. -/
def IdsOrdered (instances : List Instance) : Prop := instances.Pairwise fun a b => IdBefore a.id b.id

theorem before_iff {a b : Instance} : a.before b = true ↔ IdBefore a.id b.id := by
  rw [before, isGlobal, isGlobal, IdBefore]
  by_cases ha : a.id = globalId <;> by_cases hb : b.id = globalId <;> simp [ha, hb]

theorem IdBefore.irrefl (a : String) : ¬ IdBefore a a := by
  rintro ⟨hne, heq | hlt⟩
  · exact hne heq
  · exact String.lt_irrefl a hlt

theorem IdBefore.ne {a b : String} (h : IdBefore a b) : a ≠ b := by
  rintro rfl
  exact IdBefore.irrefl a h

theorem IdBefore.trans {a b c : String} (hab : IdBefore a b) (hbc : IdBefore b c) : IdBefore a c := by
  obtain ⟨hb, hab⟩ := hab
  obtain ⟨hc, hbc⟩ := hbc
  have hbc : b < c := hbc.resolve_left hb
  exact ⟨hc, hab.imp_right fun hab => String.lt_trans hab hbc⟩

theorem idBefore_trichotomy (a b : String) : IdBefore a b ∨ a = b ∨ IdBefore b a := by
  by_cases ha : a = globalId
  · by_cases hb : b = globalId
    · exact .inr (.inl (ha.trans hb.symm))
    · exact .inl ⟨hb, .inl ha⟩
  · by_cases hb : b = globalId
    · exact .inr (.inr ⟨ha, .inl hb⟩)
    · rcases Std.lt_trichotomy a b with hlt | heq | hgt
      · exact .inl ⟨hb, .inr hlt⟩
      · exact .inr (.inl heq)
      · exact .inr (.inr ⟨ha, .inr hgt⟩)

/-! ## Sorting -/

theorem not_before_trans (a b c : Instance) (hab : (!b.before a) = true) (hbc : (!c.before b) = true) :
    (!c.before a) = true := by
  rw [Bool.not_eq_true', ← Bool.not_eq_true, before_iff] at *
  intro hca
  rcases idBefore_trichotomy a.id b.id with h | h | h
  · exact hbc (hca.trans h)
  · exact hbc (h ▸ hca)
  · exact hab h

theorem not_before_total (a b : Instance) : (!b.before a || !a.before b) = true := by
  cases hba : b.before a with
  | false => rfl
  | true =>
    have hab : ¬ a.before b = true := fun hab =>
      IdBefore.irrefl _ ((before_iff.mp hab).trans (before_iff.mp hba))
    simpa using hab

theorem pairwise_sorted (instances : List Instance) :
    (sorted instances).Pairwise fun a b => ¬ IdBefore b.id a.id := by
  refine (List.pairwise_mergeSort not_before_trans not_before_total instances).imp fun {a b} h => ?_
  rwa [Bool.not_eq_true', ← Bool.not_eq_true, before_iff] at h

/-- The instances of one id stay in their order. -/
theorem filter_sorted (instances : List Instance) (id : String) :
    (sorted instances).filter (fun i => i.id = id) = instances.filter fun i => i.id = id := by
  have heven : (instances.filter fun i => i.id = id).Pairwise fun a b => (!b.before a) = true := by
    refine List.pairwise_of_forall_mem_list fun a ha b hb => ?_
    have ha : a.id = id := by simpa using (List.mem_filter.mp ha).2
    have hb : b.id = id := by simpa using (List.mem_filter.mp hb).2
    rw [Bool.not_eq_true', ← Bool.not_eq_true, before_iff, ha, hb]
    exact IdBefore.irrefl id
  have hsub : (instances.filter fun i => i.id = id).Sublist (sorted instances) :=
    List.sublist_mergeSort not_before_trans not_before_total heven List.filter_sublist
  have hsub := hsub.filter fun i => decide (i.id = id)
  rw [List.filter_filter] at hsub
  simp only [Bool.and_self] at hsub
  have hperm := (List.mergeSort_perm instances fun a b => !b.before a).filter fun i => decide (i.id = id)
  exact (hsub.eq_of_length hperm.length_eq.symm).symm

theorem find?_sorted (instances : List Instance) (id : String) :
    find? (sorted instances) id = find? instances id := by
  rw [find?, find?, ← List.head?_filter, ← List.head?_filter, filter_sorted]

/-! ## Dropping repeats -/

theorem find?_cons (i : Instance) (rest : List Instance) (id : String) :
    find? (i :: rest) id = if i.id = id then some i else find? rest id := by
  rw [find?, List.find?_cons]
  by_cases h : i.id = id <;> simp [h, find?]

theorem find?_cons_dropRepeats (i : Instance) (rest : List Instance) (id : String) :
    find? (i :: dropRepeats i rest) id = find? (i :: rest) id := by
  induction rest generalizing i with
  | nil => rfl
  | cons next rest ih =>
    rw [dropRepeats]
    split
    · next heq =>
      have hi := ih i
      rw [find?_cons] at hi ⊢
      rw [hi, find?_cons, find?_cons, find?_cons, heq]
      split <;> rfl
    · rw [find?_cons, find?_cons i, ih next]

theorem find?_distinctRuns (instances : List Instance) (id : String) :
    find? (distinctRuns instances) id = find? instances id := by
  cases instances with
  | nil => rfl
  | cons i rest => exact find?_cons_dropRepeats i rest id

/-- In a sorted list, what is left after an instance comes strictly after it. -/
theorem idsOrdered_cons_dropRepeats {i : Instance} {rest : List Instance}
    (h : (i :: rest).Pairwise fun a b => ¬ IdBefore b.id a.id) : IdsOrdered (i :: dropRepeats i rest) := by
  induction rest generalizing i with
  | nil => exact List.pairwise_singleton _ i
  | cons next rest ih =>
    obtain ⟨hi, hrest⟩ := List.pairwise_cons.mp h
    rw [dropRepeats]
    split
    · exact ih (List.pairwise_cons.mpr
        ⟨fun j hj => hi j (List.mem_cons_of_mem _ hj), (List.pairwise_cons.mp hrest).2⟩)
    · next hne =>
      have hnext : IdBefore i.id next.id := by
        rcases idBefore_trichotomy i.id next.id with hlt | heq | hgt
        · exact hlt
        · exact absurd heq.symm hne
        · exact absurd hgt (hi next List.mem_cons_self)
      have hordered : IdsOrdered (next :: dropRepeats next rest) := ih hrest
      refine List.pairwise_cons.mpr ⟨fun j hj => ?_, hordered⟩
      rcases List.mem_cons.mp hj with rfl | hj
      · exact hnext
      · exact hnext.trans ((List.pairwise_cons.mp hordered).1 j hj)

theorem idsOrdered_distinctRuns {instances : List Instance}
    (h : instances.Pairwise fun a b => ¬ IdBefore b.id a.id) : IdsOrdered (distinctRuns instances) := by
  cases instances with
  | nil => exact List.Pairwise.nil
  | cons i rest => exact idsOrdered_cons_dropRepeats h

/-! ## Arranged lists -/

theorem find?_eq_some_of_any_isGlobal {instances : List Instance} (h : instances.any isGlobal = true) :
    ∃ g, find? instances globalId = some g := by
  obtain ⟨g, hg, hglobal⟩ := List.any_eq_true.mp h
  exact Option.isSome_iff_exists.mp (List.find?_isSome.mpr ⟨g, hg, hglobal⟩)

/-- The global record is added where it is missing, and nothing else. -/
theorem find?_withGlobal (instances : List Instance) (id : String) :
    find? (withGlobal instances) id =
      (find? instances id).or (if id = globalId then some emptyGlobal else none) := by
  rw [withGlobal]
  split
  · next h =>
    split
    · next hid =>
      obtain ⟨g, hg⟩ := find?_eq_some_of_any_isGlobal h
      rw [hid, hg]
      rfl
    · rw [Option.or_none]
  · have hempty : find? [emptyGlobal] id = if id = globalId then some emptyGlobal else none := by
      rw [find?_cons]
      exact if_congr eq_comm rfl rfl
    rw [find?, List.find?_append, ← hempty]
    rfl

theorem idsOrdered_arranged (instances : List Instance) : IdsOrdered (arranged instances) :=
  idsOrdered_distinctRuns (pairwise_sorted _)

theorem find?_arranged (instances : List Instance) (id : String) :
    find? (arranged instances) id =
      (find? instances id).or (if id = globalId then some emptyGlobal else none) := by
  rw [arranged, find?_distinctRuns, find?_sorted, find?_withGlobal]

/-- An arranged list has the global record. -/
theorem isSome_find?_arranged_global (instances : List Instance) :
    (find? (arranged instances) globalId).isSome = true := by
  rw [find?_arranged, if_pos rfl, Option.isSome_or, Option.isSome_some, Bool.or_true]

theorem IdsOrdered.nodup {instances : List Instance} (h : IdsOrdered instances) :
    (instances.map Instance.id).Nodup :=
  List.pairwise_map.mpr (h.imp fun {_ _} hlt => hlt.ne)

/-- Where no id occurs twice, what is found is what there is. -/
theorem find?_eq_some_iff {instances : List Instance} (h : (instances.map Instance.id).Nodup) {id : String}
    {i : Instance} : find? instances id = some i ↔ i ∈ instances ∧ i.id = id := by
  constructor
  · intro hfind
    exact ⟨List.mem_of_find?_eq_some hfind, by simpa using List.find?_some hfind⟩
  · rintro ⟨hi, rfl⟩
    have hsome : (find? instances i.id).isSome = true := List.find?_isSome.mpr ⟨i, hi, by simp⟩
    obtain ⟨j, hj⟩ := Option.isSome_iff_exists.mp hsome
    have hid : j.id = i.id := by simpa using List.find?_some hj
    rw [hj, List.inj_on_of_nodup_map h (List.mem_of_find?_eq_some hj) hi hid]

/-- A list in the order of ids is known from what is found in it. -/
theorem IdsOrdered.ext {l l' : List Instance} (h : IdsOrdered l) (h' : IdsOrdered l')
    (hfind : ∀ id, find? l id = find? l' id) : l = l' := by
  have hmem : ∀ i, i ∈ l ↔ i ∈ l' := fun i => by
    have hl : find? l i.id = some i ↔ i ∈ l ∧ i.id = i.id := find?_eq_some_iff h.nodup
    have hl' : find? l' i.id = some i ↔ i ∈ l' ∧ i.id = i.id := find?_eq_some_iff h'.nodup
    rw [hfind, hl'] at hl
    simpa using hl.symm
  have hperm : l.Perm l' :=
    (List.perm_ext_iff_of_nodup (List.Nodup.of_map _ h.nodup) (List.Nodup.of_map _ h'.nodup)).mpr hmem
  exact List.Perm.eq_of_pairwise
    (fun a b _ _ hab hba => absurd (hab.trans hba) (IdBefore.irrefl a.id)) h h' hperm

/-- What is in order already, with the global record, stays as it is. -/
theorem arranged_eq_self {instances : List Instance} (h : IdsOrdered instances)
    (hglobal : (find? instances globalId).isSome = true) : arranged instances = instances := by
  refine (idsOrdered_arranged instances).ext h fun id => ?_
  rw [find?_arranged]
  by_cases hid : id = globalId
  · obtain ⟨g, hg⟩ := Option.isSome_iff_exists.mp hglobal
    rw [hid, hg, Option.some_or]
  · rw [if_neg hid, Option.or_none]

/-- The global record comes first, and after it the other instances in the order of their ids. -/
theorem IdsOrdered.exists_global {instances : List Instance} (h : IdsOrdered instances)
    (hglobal : (find? instances globalId).isSome = true) :
    ∃ g rest, instances = g :: rest ∧ g.id = globalId ∧ (∀ i ∈ rest, i.id ≠ globalId) ∧
      rest.Pairwise fun a b => a.id < b.id := by
  cases instances with
  | nil => cases hglobal
  | cons g rest =>
    obtain ⟨hg, hrest⟩ := List.pairwise_cons.mp h
    have hne : ∀ i ∈ rest, i.id ≠ globalId := fun i hi => (hg i hi).1
    have hid : g.id = globalId := by
      rw [find?_cons] at hglobal
      split at hglobal
      · assumption
      · obtain ⟨i, hi, hglobal⟩ := List.find?_isSome.mp hglobal
        exact absurd (by simpa using hglobal) (hne i hi)
    refine ⟨g, rest, rfl, hid, hne, ?_⟩
    exact hrest.imp_of_mem fun {a b} ha _ hlt => hlt.2.resolve_left (hne a ha)

end Instance

/-! ## The index -/

namespace Snapshot

theorem keys_zipIdx (instances : List Instance) :
    Dict.keys (instances.zipIdx.map fun entry => (entry.1.id, entry.2)) = instances.map Instance.id := by
  rw [Dict.keys, List.map_map]
  show instances.zipIdx.map (Instance.id ∘ Prod.fst) = _
  rw [← List.map_map, List.zipIdx_map_fst]

/-- Where no id occurs twice, the index leads from each id to the position of its instance. -/
theorem get?_indexOf_iff {instances : List Instance} (h : (instances.map Instance.id).Nodup) {id : String}
    {n : Nat} : Dict.get? (indexOf instances) id = some n ↔ ∃ i, instances[n]? = some i ∧ i.id = id := by
  have hnodup := h
  rw [← keys_zipIdx] at hnodup
  rw [indexOf, Dict.get?_ofList hnodup]
  constructor
  · intro hget
    obtain ⟨⟨i, m⟩, hi, heq⟩ := List.mem_map.mp (Dict.mem_of_get? hget)
    cases heq
    exact ⟨i, List.mem_zipIdx_iff_getElem?.mp hi, rfl⟩
  · rintro ⟨i, hi, rfl⟩
    exact Dict.get?_of_mem hnodup (List.mem_map.mpr ⟨(i, n), List.mem_zipIdx_iff_getElem?.mpr hi, rfl⟩)

theorem read_eq_found_iff {s : Snapshot} {id : String} {i : Instance} :
    s.read id = .found i ↔ ∃ n, Dict.get? s.index id = some n ∧ s.instances[n]? = some i := by
  rw [read]
  cases Dict.get? s.index id with
  | none => simp
  | some n =>
    simp only [Option.some.injEq, exists_eq_left']
    cases s.instances[n]? <;> simp

theorem instance?_eq_some_iff {s : Snapshot} {id : String} {i : Instance} :
    s.instance? id = some i ↔ s.read id = .found i := by
  rw [instance?]
  cases s.read id <;> simp [InstanceRead.instance?]

/-- Through the index every instance is found under its id, and nothing else. -/
theorem instance?_eq_find? {s : Snapshot} (h : (s.instances.map Instance.id).Nodup)
    (hindex : s.index = indexOf s.instances) (id : String) : s.instance? id = Instance.find? s.instances id := by
  refine Option.ext fun i => ?_
  rw [instance?_eq_some_iff, read_eq_found_iff, hindex, Instance.find?_eq_some_iff h]
  constructor
  · rintro ⟨n, hn, hi⟩
    obtain ⟨j, hj, hid⟩ := (get?_indexOf_iff h).mp hn
    obtain rfl : j = i := by rw [hj] at hi; exact Option.some.inj hi
    exact ⟨List.mem_of_getElem? hj, hid⟩
  · rintro ⟨hi, hid⟩
    obtain ⟨n, hn⟩ := List.mem_iff_getElem?.mp hi
    exact ⟨n, (get?_indexOf_iff h).mpr ⟨i, hn, hid⟩, hn⟩

end Snapshot

end DocModel
