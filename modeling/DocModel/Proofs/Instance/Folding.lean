import DocModel.Proofs.Document.Order
import DocModel.Proofs.Instance.Loading

/-!
# Folding by id

Documents fold by the id that they belong to, each id on its own. So what a fold holds under an id is known from
the documents of that id in their order, and how these lie between documents of other ids does not matter.

* `exists_idOf_eq_ok_iff`, `idOf_eq_ok_iff`: which documents belong to an id, and to which.
* `map_recordOf`: the record of an id, as the layers of its documents.
* `get?_records_eq_some_iff`, `get?_provenance_eq_some_iff`: what a fold holds under an id.
* `provenance_perm`: each document is noted once.
* `eq_of_documentsOf`: folds of the same documents of each id are equal.
* `folded_by_id`: all of it.
-/

namespace DocModel

namespace FoldedInstances

/-- A map whose `id` is missing, null or a text that is not empty. -/
def IsIdentified (v : Value) : Prop :=
  ∃ body, v = .map body ∧
    ∀ w, Dict.get? body "id" = some w → w = .null ∨ ∃ id, id ≠ "" ∧ w = .string id

/-- A map that names the id, or names none if the id is the global one. -/
def BelongsTo (v : Value) (id : String) : Prop :=
  ∃ body, v = .map body ∧
    (id ≠ "" ∧ Dict.get? body "id" = some (.string id) ∨
      id = Instance.globalId ∧ (Dict.get? body "id" = none ∨ Dict.get? body "id" = some .null))

theorem idOf_eq_ok_iff {v : Value} {id : String} : idOf v = .ok id ↔ BelongsTo v id := by
  cases v with
  | map body =>
    simp only [idOf, BelongsTo, Value.map.injEq, exists_eq_left']
    cases Dict.get? body "id" with
    | none => simp [eq_comm]
    | some w =>
      cases w with
      | null => simp [eq_comm]
      | string s =>
        by_cases hs : s = ""
        · subst hs
          simp [eq_comm]
        · simp only [hs, if_false, Except.ok.injEq]
          constructor
          · rintro rfl
            exact .inl ⟨hs, rfl⟩
          · rintro (⟨-, h⟩ | ⟨-, h | h⟩) <;> cases h
            rfl
      | _ => simp
  | _ => simp [idOf, BelongsTo]

theorem exists_idOf_eq_ok_iff {v : Value} : (∃ id, idOf v = .ok id) ↔ IsIdentified v := by
  cases v with
  | map body =>
    simp only [idOf, IsIdentified, Value.map.injEq, exists_eq_left']
    cases Dict.get? body "id" with
    | none => simp
    | some w =>
      cases w with
      | string s => by_cases hs : s = "" <;> simp [hs]
      | _ => simp
  | _ => simp [idOf, IsIdentified]

theorem mem_documentsOf_iff {docs : List Document} {id : String} {doc : Document} :
    doc ∈ documentsOf docs id ↔ doc ∈ docs ∧ BelongsTo doc.value id := by
  rw [documentsOf, List.mem_filter, decide_eq_true_iff, ← idOf_eq_ok_iff, Except.toOption_eq_some_iff]

/-! ## Success -/

/-- The error that a document stops a fold with. -/
def fault : Document → Option BuildError := Document.refusal? fun doc => idOf doc.value

theorem add_failsBy : Except.FailsBy add fault := by
  refine Document.failsBy_refusal? (fun folded doc id hid => ?_) (fun folded doc fault hbad => ?_)
  · exact ⟨folded.addTo id doc, add_eq_ok_iff.mpr ⟨id, hid, rfl⟩⟩
  · rw [add, hbad]

theorem fault_eq_none_iff {doc : Document} : fault doc = none ↔ IsIdentified doc.value :=
  Document.refusal?_eq_none_iff.trans exists_idOf_eq_ok_iff

theorem exists_ofDocuments_eq_ok_iff {docs : List Document} :
    (∃ folded, ofDocuments docs = .ok folded) ↔ ∀ doc ∈ docs, IsIdentified doc.value := by
  simp only [← fault_eq_none_iff]
  exact add_failsBy.exists_foldlM_eq_ok_iff

/-! ## What is held under an id -/

/-- The documents of an id, each layered on those before it. -/
def layered (docs : List Document) (id : String) : Value :=
  (documentsOf docs id).foldl (fun below doc => below.layer doc.value) (.map [])

/-- The record of an id holds the layers of its documents. -/
theorem map_recordOf (docs : List Document) (id : String) : .map (recordOf docs id) = layered docs id := by
  have hmaps : ∀ doc ∈ documentsOf docs id, doc.value = .map (fieldsOf doc.value) := by
    intro doc hdoc
    obtain ⟨body, hbody, -⟩ := (mem_documentsOf_iff.mp hdoc).2
    rw [hbody]
    rfl
  rw [recordOf, fragmentsOf, layered]
  generalize documentsOf docs id = those at hmaps
  generalize ([] : Fields) = below
  induction those generalizing below with
  | nil => rfl
  | cons doc rest ih =>
    obtain ⟨hdoc, hrest⟩ := List.forall_mem_cons.mp hmaps
    rw [List.map_cons, List.foldl_cons, List.foldl_cons, ih hrest, hdoc, Value.layer_map]
    rfl

variable {docs docs' : List Document} {folded folded' : FoldedInstances}

theorem get?_records_eq_some_iff (h : ofDocuments docs = .ok folded) {id : String} {fields : Fields} :
    Dict.get? folded.records id = some fields ↔
      id ≠ Instance.globalId ∧ documentsOf docs id ≠ [] ∧ .map fields = layered docs id := by
  by_cases hid : id = Instance.globalId
  · have hnone := Dict.get?_eq_none_iff.mpr (isOrdered_ofDocuments h).global
    simp [hid, hnone]
  · have hcontains : Dict.contains folded.records id = true ↔
        Dict.contains ({} : FoldedInstances).records id = true ∨ documentsOf docs id ≠ [] :=
      contains_records_iff h hid
    have hrecord := record_eq_recordOf h id
    rw [record, if_neg hid] at hrecord
    rw [← map_recordOf, ← hrecord]
    simp only [Dict.contains, Dict.get?_nil, Option.isSome_none, Bool.false_eq_true, false_or] at hcontains
    rw [← hcontains]
    cases Dict.get? folded.records id <;> simp [hid, eq_comm]

theorem contains_provenance_iff (h : docs.foldlM add folded = .ok folded') {id : String} :
    Dict.contains folded'.provenance id = true ↔
      Dict.contains folded.provenance id = true ∨ documentsOf docs id ≠ [] := by
  induction docs generalizing folded with
  | nil => cases h; simp [documentsOf]
  | cons doc docs ih =>
    obtain ⟨next, hadd, hfold⟩ := Except.foldlM_cons_eq_ok_iff.mp h
    obtain ⟨docId, hdoc, rfl⟩ := add_eq_ok_iff.mp hadd
    rw [ih hfold, documentsOf_cons hdoc, provenance_addTo, Dict.modify, Dict.contains_insert]
    by_cases ho : id = docId <;> simp [ho]

theorem get?_provenance_eq_some_iff (h : ofDocuments docs = .ok folded) {id : String}
    {sources : List Provenance} :
    Dict.get? folded.provenance id = some sources ↔
      documentsOf docs id ≠ [] ∧ sources = (documentsOf docs id).map Document.provenance := by
  have hcontains : Dict.contains folded.provenance id = true ↔
      Dict.contains ({} : FoldedInstances).provenance id = true ∨ documentsOf docs id ≠ [] :=
    contains_provenance_iff h
  have hnoted : (Dict.get? folded.provenance id).getD [] = (documentsOf docs id).map Document.provenance :=
    provenance_of_foldlM h id
  simp only [Dict.contains, Dict.get?_nil, Option.isSome_none, Bool.false_eq_true, false_or] at hcontains
  rw [← hnoted, ← hcontains]
  cases Dict.get? folded.provenance id <;> simp [eq_comm]

/-- Each document is noted once, under one id. -/
theorem provenance_perm (h : docs.foldlM add folded = .ok folded') :
    (folded'.provenance.flatMap Prod.snd).Perm
      (docs.map Document.provenance ++ folded.provenance.flatMap Prod.snd) := by
  induction docs generalizing folded with
  | nil => cases h; exact .refl _
  | cons doc docs ih =>
    obtain ⟨next, hadd, hfold⟩ := Except.foldlM_cons_eq_ok_iff.mp h
    obtain ⟨id, -, rfl⟩ := add_eq_ok_iff.mp hadd
    have hstep := Dict.flatMap_modify_perm folded.provenance id doc.provenance
    rw [← provenance_addTo] at hstep
    exact (ih hfold).trans ((hstep.append_left _).trans List.perm_middle)

theorem ordered_provenance (h : ofDocuments docs = .ok folded) : Dict.Ordered folded.provenance := by
  refine Except.foldlM_keeps (P := fun folded => Dict.Ordered folded.provenance) ?_ Dict.Ordered.nil h
  intro doc _ s t hs hst
  obtain ⟨id, -, rfl⟩ := add_eq_ok_iff.mp hst
  rw [provenance_addTo]
  exact hs.insert _ _

/-! ## Interleaved documents -/

/-- What a fold holds is known from the documents of each id. -/
theorem eq_of_documentsOf (h : ofDocuments docs = .ok folded) (h' : ofDocuments docs' = .ok folded')
    (hsame : ∀ id, documentsOf docs id = documentsOf docs' id) : folded = folded' := by
  have hglobal : folded.global = folded'.global := by
    have hrecord : folded.record Instance.globalId = folded'.record Instance.globalId := by
      rw [record_eq_recordOf h, record_eq_recordOf h', recordOf, recordOf, fragmentsOf, fragmentsOf, hsame]
    simpa [record] using hrecord
  have hrecords : folded.records = folded'.records := by
    refine (isOrdered_ofDocuments h).ordered.ext (isOrdered_ofDocuments h').ordered fun id => ?_
    refine Option.ext fun fields => ?_
    rw [get?_records_eq_some_iff h, get?_records_eq_some_iff h', layered, layered, hsame]
  have hprovenance : folded.provenance = folded'.provenance := by
    refine (ordered_provenance h).ext (ordered_provenance h') fun id => ?_
    refine Option.ext fun sources => ?_
    rw [get?_provenance_eq_some_iff h, get?_provenance_eq_some_iff h', hsame]
  obtain ⟨global, records, provenance⟩ := folded
  obtain rfl : global = folded'.global := hglobal
  obtain rfl : records = folded'.records := hrecords
  obtain rfl : provenance = folded'.provenance := hprovenance
  rfl

/-- Folding succeeds on maps whose `id` is missing, null or a text that is not empty, and on nothing else. Each
record is the layers of the documents of its id, the global one among them if a document names no id; where
the documents of an id came from is listed in their order, and each document is listed once; and any other
interleaving of the documents of each id folds to the same. -/
theorem folded_by_id (docs : List Document) :
    ((∃ folded, ofDocuments docs = .ok folded) ↔ ∀ doc ∈ docs, IsIdentified doc.value) ∧
    (∀ id doc, doc ∈ documentsOf docs id ↔ doc ∈ docs ∧ BelongsTo doc.value id) ∧
    ∀ folded, ofDocuments docs = .ok folded →
      .map folded.global = layered docs Instance.globalId ∧
      Dict.Ordered folded.records ∧ Dict.contains folded.records Instance.globalId = false ∧
      (∀ id fields, Dict.get? folded.records id = some fields ↔
        id ≠ Instance.globalId ∧ documentsOf docs id ≠ [] ∧ .map fields = layered docs id) ∧
      Dict.Ordered folded.provenance ∧
      (∀ id sources, Dict.get? folded.provenance id = some sources ↔
        documentsOf docs id ≠ [] ∧ sources = (documentsOf docs id).map Document.provenance) ∧
      (∀ doc ∈ docs, ∃! id, doc ∈ documentsOf docs id) ∧
      (folded.provenance.flatMap Prod.snd).Perm (docs.map Document.provenance) ∧
      ∀ docs', (∀ doc ∈ docs', IsIdentified doc.value) →
        (∀ id, documentsOf docs' id = documentsOf docs id) → ofDocuments docs' = .ok folded := by
  refine ⟨exists_ofDocuments_eq_ok_iff, fun id doc => mem_documentsOf_iff, fun folded h =>
    ⟨?global, (isOrdered_ofDocuments h).ordered, (isOrdered_ofDocuments h).global,
      fun id fields => get?_records_eq_some_iff h, ordered_provenance h,
      fun id sources => get?_provenance_eq_some_iff h, ?once, ?noted, ?interleaved⟩⟩
  case global =>
    rw [← map_recordOf, ← record_eq_recordOf h, record, if_pos rfl]
  case once =>
    intro doc hdoc
    obtain ⟨id, hid⟩ := exists_idOf_eq_ok_iff.mpr (exists_ofDocuments_eq_ok_iff.mp ⟨folded, h⟩ doc hdoc)
    refine ⟨id, mem_documentsOf_iff.mpr ⟨hdoc, idOf_eq_ok_iff.mp hid⟩, fun other hother => ?_⟩
    have hother := idOf_eq_ok_iff.mpr (mem_documentsOf_iff.mp hother).2
    exact Except.ok.inj (hother.symm.trans hid)
  case noted => simpa using provenance_perm h
  case interleaved =>
    intro docs' hdocs' hsame
    obtain ⟨folded', h'⟩ := exists_ofDocuments_eq_ok_iff.mpr hdocs'
    rw [h', eq_of_documentsOf h' h hsame]

/-- The documents of an id between which a document without an id may stand. -/
def interleaved (between : Bool) : List Document :=
  let first : Document := ⟨⟨0, ⟨⟨"a.json"⟩, []⟩⟩, .map [("id", .string "a"), ("x", .number (.int 1))]⟩
  let last : Document := ⟨⟨1, ⟨⟨"a.json"⟩, []⟩⟩, .map [("id", .string "a"), ("y", .null)]⟩
  let other : Document := ⟨⟨0, ⟨⟨"b.json"⟩, []⟩⟩, .map [("x", .number (.int 2))]⟩
  if between then [first, other, last] else [first, last, other]

/-- Both interleavings make the same record and list its two documents in their order. -/
theorem folded_by_id_interleaved :
    ∃ folded, ofDocuments (interleaved true) = .ok folded ∧ ofDocuments (interleaved false) = .ok folded ∧
      Dict.get? folded.records "a" = some [("id", .string "a"), ("x", .number (.int 1)), ("y", .null)] ∧
      Dict.get? folded.provenance "a" = some [⟨0, ⟨⟨"a.json"⟩, []⟩⟩, ⟨1, ⟨⟨"a.json"⟩, []⟩⟩] := by
  obtain ⟨-, -, hfolds⟩ := folded_by_id (interleaved true)
  obtain ⟨-, -, -, hrecords, -, hprovenance, -, -, hother⟩ := hfolds _ rfl
  have hidentified : ∀ doc ∈ interleaved false, IsIdentified doc.value := by
    have hsucceeds : ∃ folded, ofDocuments (interleaved false) = .ok folded := ⟨_, rfl⟩
    exact (folded_by_id (interleaved false)).1.mp hsucceeds
  have hsame : ∀ id, documentsOf (interleaved false) id = documentsOf (interleaved true) id := by
    intro id
    by_cases ha : "a" = id
    · subst ha
      rfl
    by_cases hglobal : Instance.globalId = id
    · subst hglobal
      rfl
    · simp [documentsOf, interleaved, idOf, Dict.get?, Except.toOption, ha, hglobal]
  refine ⟨_, rfl, hother _ hidentified hsame, (hrecords "a" _).mpr ⟨by decide, by decide, rfl⟩,
    (hprovenance "a" _).mpr ⟨by decide, rfl⟩⟩

end FoldedInstances

end DocModel
