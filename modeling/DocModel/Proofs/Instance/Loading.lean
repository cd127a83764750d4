import DocModel.Proofs.Instance.Defaults

/-!
# Later sources win

Loading folds the documents of each id as layers, puts class defaults under the fold and strips directives
last. For documents that are sources this comes, field by field, to merging the values of the documents one
by one over the default.

* `recordOf_spec`: the fold holds in each field the layers of what the documents hold there.
* `isRead_of_mem_instances`: an instance is read from what the documents of its id come to.
* `later_sources_win`: what a loaded instance holds in each field.
-/

namespace DocModel

namespace FoldedInstances

/-- The documents of an id. -/
def documentsOf (docs : List Document) (id : String) : List Document :=
  docs.filter fun doc => (idOf doc.value).toOption = some id

/-- What the documents of an id hold in a field, in their order; some may not have it. -/
def valuesOf (docs : List Document) (id field : String) : List Value :=
  (documentsOf docs id).filterMap fun doc => doc.value.get? field

/-! ## Records -/

theorem record_addTo (folded : FoldedInstances) (id : String) (doc : Document) (other : String) :
    (folded.addTo id doc).record other =
      if other = id then Fields.layer (folded.record id) (fieldsOf doc.value) else folded.record other := by
  by_cases hid : id = Instance.globalId
  · by_cases ho : other = id
    · simp [addTo, record, hid, ho]
    · have hne : other ≠ Instance.globalId := fun h => ho (h.trans hid.symm)
      simp [addTo, record, hid, hne]
  · by_cases ho : other = id
    · subst ho
      simp [addTo, record, hid, Dict.get?_insert_self]
    · simp [addTo, record, hid, ho, Dict.get?_insert_of_ne]

theorem isSource_fieldsOf {v : Value} (h : v.isSource = true) : (fieldsOf v).IsSource := by
  cases v with
  | map fields => exact Fields.isSource_iff.mp h
  | _ => simp [Value.isSource, Value.plainMap?] at h

theorem get?_fieldsOf (v : Value) (field : String) :
    Dict.get? (fieldsOf v) field = v.get? field := by
  cases v <;> rfl

theorem add_eq_ok_iff {folded folded' : FoldedInstances} {doc : Document} :
    folded.add doc = .ok folded' ↔ ∃ id, idOf doc.value = .ok id ∧ folded' = folded.addTo id doc := by
  rw [add]
  cases idOf doc.value with
  | error e => simp
  | ok id => simp [eq_comm]

theorem documentsOf_cons {doc : Document} {id : String} (h : idOf doc.value = .ok id)
    (docs : List Document) (other : String) :
    documentsOf (doc :: docs) other =
      if other = id then doc :: documentsOf docs other else documentsOf docs other := by
  have hid : (idOf doc.value).toOption = some id := by rw [h]; rfl
  by_cases ho : other = id
  · rw [if_pos ho, ho, documentsOf, List.filter_cons_of_pos (by simpa using hid)]
    rfl
  · rw [if_neg ho, documentsOf, List.filter_cons_of_neg (by simpa [hid] using Ne.symm ho)]
    rfl

/-- What the documents of an id say, in their order. -/
def fragmentsOf (docs : List Document) (id : String) : List Fields :=
  (documentsOf docs id).map fun doc => fieldsOf doc.value

theorem valuesOf_eq (docs : List Document) (id field : String) :
    valuesOf docs id field = (fragmentsOf docs id).filterMap (Dict.get? · field) := by
  rw [fragmentsOf, List.filterMap_map, valuesOf]
  exact congrArg (List.filterMap · _) (funext fun doc => (get?_fieldsOf doc.value field).symm)

/-- What the documents of an id say, layered. -/
def recordOf (docs : List Document) (id : String) : Fields := (fragmentsOf docs id).foldl Fields.layer []

/-- Adding documents layers what those of an id say on its record, and touches no other. -/
theorem record_of_foldlM {docs : List Document} {folded folded' : FoldedInstances}
    (h : docs.foldlM add folded = .ok folded') (id : String) :
    folded'.record id = (fragmentsOf docs id).foldl Fields.layer (folded.record id) := by
  induction docs generalizing folded with
  | nil => cases h; rfl
  | cons doc docs ih =>
    obtain ⟨next, hadd, hfold⟩ := Except.foldlM_cons_eq_ok_iff.mp h
    obtain ⟨docId, hid, rfl⟩ := add_eq_ok_iff.mp hadd
    rw [ih hfold, record_addTo, fragmentsOf, fragmentsOf, documentsOf_cons hid]
    by_cases ho : id = docId
    · subst ho
      rw [if_pos rfl, if_pos rfl]
      rfl
    · rw [if_neg ho, if_neg ho]

theorem record_eq_recordOf {docs : List Document} {folded : FoldedInstances}
    (h : ofDocuments docs = .ok folded) (id : String) : folded.record id = recordOf docs id := by
  have hempty : record {} id = [] := by
    rw [record]
    split <;> rfl
  rw [record_of_foldlM h id, hempty, recordOf]

theorem provenance_addTo (folded : FoldedInstances) (id : String) (doc : Document) :
    (folded.addTo id doc).provenance = Dict.modify folded.provenance id [] (· ++ [doc.provenance]) := by
  rw [addTo]
  split <;> rfl

/-- Adding documents notes where those of an id came from. -/
theorem provenance_of_foldlM {docs : List Document} {folded folded' : FoldedInstances}
    (h : docs.foldlM add folded = .ok folded') (id : String) :
    (Dict.get? folded'.provenance id).getD [] =
      (Dict.get? folded.provenance id).getD [] ++ (documentsOf docs id).map Document.provenance := by
  induction docs generalizing folded with
  | nil => cases h; exact (List.append_nil _).symm
  | cons doc docs ih =>
    obtain ⟨next, hadd, hfold⟩ := Except.foldlM_cons_eq_ok_iff.mp h
    obtain ⟨docId, hid, rfl⟩ := add_eq_ok_iff.mp hadd
    rw [ih hfold, provenance_addTo, Dict.modify, Dict.get?_insert, documentsOf_cons hid]
    by_cases ho : id = docId
    · subst ho
      simp
    · simp [ho]

theorem isSource_of_mem_fragmentsOf {docs : List Document} (hdocs : ∀ doc ∈ docs, doc.value.isSource = true)
    {id : String} : ∀ fields ∈ fragmentsOf docs id, fields.IsSource := by
  intro fields hfields
  obtain ⟨doc, hdoc, rfl⟩ := List.mem_map.mp hfields
  exact isSource_fieldsOf (hdocs doc (List.mem_filter.mp hdoc).1)

theorem isSource_recordOf {docs : List Document} (hdocs : ∀ doc ∈ docs, doc.value.isSource = true)
    (id : String) : (recordOf docs id).IsSource :=
  Fields.IsSource.foldl_layer (isSource_of_mem_fragmentsOf hdocs) .nil

theorem isReset_fieldsOf {v : Value} (h : v.isReset = false) : (fieldsOf v).isReset = false := by
  cases v with
  | map fields => exact h
  | _ => rfl

/-- Documents that are no directives come to none, and in each field to the layers of what they hold there. -/
theorem recordOf_spec {docs : List Document} (hdocs : ∀ doc ∈ docs, doc.value.isReset = false) (id : String) :
    (recordOf docs id).isReset = false ∧
      ∀ field, Dict.get? (recordOf docs id) field = Value.layers (valuesOf docs id field) := by
  have hfragments : ∀ fields ∈ fragmentsOf docs id, fields.isReset = false := by
    intro fields hfields
    obtain ⟨doc, hdoc, rfl⟩ := List.mem_map.mp hfields
    exact isReset_fieldsOf (hdocs doc (List.mem_filter.mp hdoc).1)
  have hempty : Fields.isReset [] = false := rfl
  obtain ⟨hreset, hget⟩ := Fields.foldl_layer_spec hfragments hempty
  exact ⟨hreset, fun field => by rw [valuesOf_eq]; exact hget field⟩

theorem contains_recordOf {docs : List Document} (hdocs : ∀ doc ∈ docs, doc.value.isReset = false)
    (id field : String) : Dict.contains (recordOf docs id) field = !(valuesOf docs id field).isEmpty := by
  rw [Dict.contains, (recordOf_spec hdocs id).2, Value.isSome_layers]

/-- The records of all ids but the global one are in the order of the ids. -/
structure IsOrdered (folded : FoldedInstances) : Prop where
  ordered : Dict.Ordered folded.records
  global : Dict.contains folded.records Instance.globalId = false

theorem IsOrdered.addTo {folded : FoldedInstances} (h : folded.IsOrdered) (id : String)
    (doc : Document) : (folded.addTo id doc).IsOrdered := by
  rw [FoldedInstances.addTo]
  split
  · exact ⟨h.ordered, h.global⟩
  · next hid =>
    refine ⟨h.ordered.insert _ _, ?_⟩
    rw [Dict.contains_insert, h.global]
    simpa using Ne.symm hid

theorem isOrdered_ofDocuments {docs : List Document} {folded : FoldedInstances}
    (h : ofDocuments docs = .ok folded) : folded.IsOrdered := by
  refine Except.foldlM_keeps (P := IsOrdered) ?_ ⟨Dict.Ordered.nil, rfl⟩ h
  intro doc _ s t hs hst
  obtain ⟨id, -, rfl⟩ := add_eq_ok_iff.mp hst
  exact hs.addTo id doc

/-- The ids of a fold are those that its documents have. -/
theorem contains_records_iff {docs : List Document} {folded folded' : FoldedInstances}
    (h : docs.foldlM add folded = .ok folded') {id : String} (hid : id ≠ Instance.globalId) :
    Dict.contains folded'.records id = true ↔
      Dict.contains folded.records id = true ∨ documentsOf docs id ≠ [] := by
  induction docs generalizing folded with
  | nil => cases h; simp [documentsOf]
  | cons doc docs ih =>
    obtain ⟨next, hadd, hfold⟩ := Except.foldlM_cons_eq_ok_iff.mp h
    obtain ⟨docId, hdoc, rfl⟩ := add_eq_ok_iff.mp hadd
    rw [ih hfold, documentsOf_cons hdoc, FoldedInstances.addTo]
    by_cases ho : id = docId
    · subst ho
      simp [hid, Dict.contains_insert]
    · by_cases hg : docId = Instance.globalId
      · simp [hg, hid]
      · simp [hg, ho, Dict.contains_insert]

/-- All records of a fold with their ids, the global one first. -/
def allRecords (folded : FoldedInstances) : Dict Fields :=
  (Instance.globalId, folded.global) :: folded.records

theorem IsOrdered.nodup_allRecords {folded : FoldedInstances} (h : folded.IsOrdered) :
    (Dict.keys folded.allRecords).Nodup := by
  refine List.nodup_cons.mpr ⟨fun hmem => ?_, h.ordered.nodup⟩
  have hcontains := Dict.contains_eq_true_iff.mpr hmem
  rw [h.global] at hcontains
  cases hcontains

/-- Each record is found under its id. -/
theorem record_of_mem {folded : FoldedInstances} (h : folded.IsOrdered) {record : String × Fields}
    (hm : record ∈ folded.allRecords) : record.2 = folded.record record.1 := by
  obtain ⟨id, fields⟩ := record
  rw [FoldedInstances.record]
  rcases List.mem_cons.mp hm with heq | hm
  · cases heq
    simp
  · have hget := Dict.get?_of_mem h.ordered.nodup hm
    have hne : id ≠ Instance.globalId := by
      intro he
      have hc := h.global
      rw [Dict.contains, ← he, hget] at hc
      cases hc
    rw [if_neg hne, hget]
    rfl

end FoldedInstances

namespace LoadedInstances

/-! ## Instances -/

/-- The fields that the instance of a record is read from. -/
def finalFields (classes : Classes) (provenance : Dict (List Provenance)) (record : String × Fields) :
    Fields :=
  let last := ((Dict.get? provenance record.1).bind List.getLast?).map Provenance.path
  Instance.settled (Instance.withDefaults classes last record.1 record.2).1

/-- The instance is the one that loading reads from the record. -/
def IsRead (classes : Classes) (provenance : Dict (List Provenance)) (record : String × Fields)
    (i : Instance) : Prop :=
  Instance.ofFields record.1 (finalFields classes provenance record) = .ok i

variable {classes : Classes} {provenance : Dict (List Provenance)}

/-- What is remarked on while the defaults go under a record. -/
def issuesOn (classes : Classes) (provenance : Dict (List Provenance)) (record : String × Fields) :
    List Issue :=
  let last := ((Dict.get? provenance record.1).bind List.getLast?).map Provenance.path
  (Instance.withDefaults classes last record.1 record.2).2

theorem addRecord_eq_ok {loaded loaded' : LoadedInstances} {record : String × Fields}
    (h : addRecord classes provenance loaded record = .ok loaded') :
    ∃ i, IsRead classes provenance record i ∧ loaded'.instances = loaded.instances ++ [i] ∧
      loaded'.warnings = loaded.warnings ++ issuesOn classes provenance record := by
  obtain ⟨i, hi, hloaded⟩ := Except.bind_eq_ok_iff.mp h
  cases hloaded
  exact ⟨i, hi, rfl, rfl⟩

/-- Loading reads one instance from each record and remarks on what is remarked on for each. -/
theorem instances_of_foldlM {records : List (String × Fields)} {loaded loaded' : LoadedInstances}
    (h : records.foldlM (addRecord classes provenance) loaded = .ok loaded') :
    ∃ read, List.Forall₂ (IsRead classes provenance) records read ∧
      loaded'.instances = loaded.instances ++ read ∧
      loaded'.warnings = loaded.warnings ++ records.flatMap (issuesOn classes provenance) := by
  induction records generalizing loaded with
  | nil => cases h; exact ⟨[], .nil, by simp, by simp⟩
  | cons record rest ih =>
    obtain ⟨next, hadd, hfold⟩ := Except.foldlM_cons_eq_ok_iff.mp h
    obtain ⟨i, hi, hinstances, hwarnings⟩ := addRecord_eq_ok hadd
    obtain ⟨read, hread, hinstances', hwarnings'⟩ := ih hfold
    refine ⟨i :: read, .cons hi hread, ?_, ?_⟩
    · rw [hinstances', hinstances, List.append_assoc, List.singleton_append]
    · rw [hwarnings', hwarnings, List.append_assoc, List.flatMap_cons]

theorem ofDocuments_eq_ok {docs : List Document} {loaded : LoadedInstances}
    (h : ofDocuments classes docs = .ok loaded) :
    ∃ folded, FoldedInstances.ofDocuments docs = .ok folded ∧
      List.Forall₂ (IsRead classes folded.provenance) folded.allRecords loaded.instances ∧
      loaded.warnings = folded.allRecords.flatMap (issuesOn classes folded.provenance) := by
  obtain ⟨folded, hfold, hall⟩ := Except.bind_eq_ok_iff.mp h
  obtain ⟨read, hread, hinstances, hwarnings⟩ := instances_of_foldlM hall
  refine ⟨folded, hfold, ?_, hwarnings⟩
  rw [hinstances]
  exact hread

end LoadedInstances

namespace Instance

/-! ## Fields -/

theorem ofFields_eq_ok {id : String} {fields : Fields} {i : Instance} (h : ofFields id fields = .ok i) :
    i.id = id ∧ classRefOf id (Dict.get? fields "class") = .ok i.classRef ∧
      buildOf id (Dict.get? fields "build") = .ok i.build ∧
      i.properties = ["id", "class", "build"].foldl Dict.erase fields := by
  obtain ⟨classRef, hclass, h⟩ := Except.bind_eq_ok_iff.mp h
  obtain ⟨build, hbuild, h⟩ := Except.bind_eq_ok_iff.mp h
  cases h
  exact ⟨rfl, hclass, hbuild, rfl⟩

theorem classRefOf_eq_ok {id : String} {v : Option Value} {classRef : Option String}
    (h : classRefOf id v = .ok classRef) : classRef = v.bind Value.string? := by
  rw [classRefOf.eq_def] at h
  split at h <;> cases h <;> rfl

/-- The value of a field, which for `build` has been read as directives. -/
def Holds (i : Instance) (field : String) (v : Option Value) : Prop :=
  if field = "build" then buildOf i.id v = .ok i.build else Dict.get? i.properties field = v

theorem holds_of_ofFields {id : String} {fields : Fields} {i : Instance} (h : ofFields id fields = .ok i)
    {field : String} (hid : field ≠ "id") (hclass : field ≠ "class") :
    i.Holds field (Dict.get? fields field) := by
  obtain ⟨rfl, -, hbuild, hprops⟩ := ofFields_eq_ok h
  rw [Holds]
  split
  · next hf => rw [hf]; exact hbuild
  · next hf =>
    rw [hprops]
    simp only [List.foldl_cons, List.foldl_nil, Dict.get?_erase, hid, hclass, hf, if_false]

/-- The default that the class of an instance has for a field. No default is reserved or null, and a field
that the schema requires has none as long as it is not given. -/
def defaultFor (classes : Classes) (i : Instance) (field : String) (given : Bool) : Option Value := do
  let c ← i.classRef.bind (Dict.get? classes)
  let d ← Dict.get? c.properties field
  if ClassDefinition.reservedFields.contains field || d.isNull
    || (c.requiredFields.contains field && !given) then none
  else some d

theorem defaultFor_eq_defaultUnder {classes : Classes} {fields : Fields} {i : Instance}
    (hclass : classOf classes fields = i.classRef.bind (Dict.get? classes)) (field : String) :
    i.defaultFor classes field (Dict.contains fields field) = defaultUnder classes fields field := by
  rw [defaultFor, defaultUnder, ← hclass]
  cases classOf classes fields with
  | none => rfl
  | some c =>
    simp only [Option.bind_eq_bind, Option.bind_some]
    cases Dict.get? c.properties field with
    | none => rfl
    | some d =>
      rw [Option.bind_some, Option.filter_some, takesDefault]
      cases ClassDefinition.reservedFields.contains field <;> cases d.isNull <;>
        cases c.requiredFields.contains field <;> cases Dict.contains fields field <;> rfl

end Instance

namespace LoadedInstances

/-- The instances are those of the records, in the same order. -/
theorem map_id_of_forall₂ {classes : Classes} {provenance : Dict (List Provenance)}
    {records : List (String × Fields)} {read : List Instance}
    (h : List.Forall₂ (IsRead classes provenance) records read) : read.map Instance.id = Dict.keys records := by
  induction h with
  | nil => rfl
  | cons hi _ ih => exact congrArg₂ List.cons (Instance.ofFields_eq_ok hi).1 ih

/-- Each instance is read from what the documents of its id come to. -/
theorem isRead_of_mem_instances {classes : Classes} {docs : List Document} {loaded : LoadedInstances}
    (hload : ofDocuments classes docs = .ok loaded) {i : Instance} (hi : i ∈ loaded.instances) :
    ∃ provenance, IsRead classes provenance (i.id, FoldedInstances.recordOf docs i.id) i := by
  obtain ⟨folded, hfold, hread, -⟩ := ofDocuments_eq_ok hload
  obtain ⟨⟨id, fields⟩, hrecord, hi⟩ := (Except.mem_iff_of_mapM (Except.mapM_eq_ok_iff.mpr hread)).mp hi
  have hfields := FoldedInstances.record_of_mem (FoldedInstances.isOrdered_ofDocuments hfold) hrecord
  rw [FoldedInstances.record_eq_recordOf hfold] at hfields
  obtain rfl : i.id = id := (Instance.ofFields_eq_ok hi).1
  exact ⟨folded.provenance, hfields ▸ hi⟩

/-- A record that no default makes a directive settles field by field. -/
theorem get?_finalFields {classes : Classes} (hc : ∀ e ∈ classes, Dict.Ordered e.2.properties)
    (provenance : Dict (List Provenance)) {record : String × Fields}
    (hr : ¬ Instance.TurnsIntoReset classes record.2) (field : String) :
    Dict.get? (finalFields classes provenance record) field =
      (Instance.underlaid classes record.2 field).map Value.strip := by
  rw [← Instance.isReset_withDefaults_iff hc _ record.1, Bool.not_eq_true] at hr
  rw [finalFields, Instance.get?_settled hr, Instance.get?_withDefaults hc]

/-- The class of an instance is the one whose defaults its record took. -/
theorem classOf_of_isRead {classes : Classes} (hc : ∀ e ∈ classes, e.2.HasPlainDefaults)
    {provenance : Dict (List Provenance)} {record : String × Fields} (hr : record.2.IsSource)
    {i : Instance} (h : IsRead classes provenance record i) :
    Instance.classOf classes record.2 = i.classRef.bind (Dict.get? classes) := by
  have hclass := Instance.classRefOf_eq_ok (Instance.ofFields_eq_ok h).2.1
  have hget := get?_finalFields (fun e he => (hc e he).ordered) provenance
    (Instance.not_turnsIntoReset hc hr.isStrippable) "class"
  rw [Instance.underlaid_reserved (by decide)] at hget
  rw [hclass, hget, Instance.classOf]
  cases hv : Dict.get? record.2 "class" with
  | none => rfl
  | some v => simp [Value.string?_strip (hr.get? hv)]

theorem isWellFormed_of_mem_valuesOf {docs : List Document}
    (hdocs : ∀ doc ∈ docs, doc.value.isSource = true) {id field : String} :
    ∀ v ∈ FoldedInstances.valuesOf docs id field, v.isWellFormed = true := by
  intro v hv
  rw [FoldedInstances.valuesOf_eq] at hv
  obtain ⟨fields, hfields, hget⟩ := List.mem_filterMap.mp hv
  exact (FoldedInstances.isSource_of_mem_fragmentsOf hdocs fields hfields).get? hget

theorem exists_mem_instances_iff {classes : Classes} {docs : List Document} {loaded : LoadedInstances}
    (hload : ofDocuments classes docs = .ok loaded) (id : String) :
    (∃ i ∈ loaded.instances, i.id = id) ↔
      id = Instance.globalId ∨ FoldedInstances.documentsOf docs id ≠ [] := by
  obtain ⟨folded, hfold, hread, -⟩ := ofDocuments_eq_ok hload
  have hids : (∃ i ∈ loaded.instances, i.id = id) ↔ id ∈ Instance.globalId :: Dict.keys folded.records := by
    rw [← List.mem_map, map_id_of_forall₂ hread]
    rfl
  rw [hids, List.mem_cons, ← Dict.contains_eq_true_iff]
  by_cases hg : id = Instance.globalId
  · simp [hg]
  · rw [FoldedInstances.contains_records_iff hfold hg]
    simp [hg, Dict.contains]

/-- What a field of an instance comes to: the values of its documents merged one by one over the default. -/
theorem holds_of_mem_instances {classes : Classes} (hc : ∀ e ∈ classes, e.2.HasPlainDefaults)
    {docs : List Document} (hdocs : ∀ doc ∈ docs, doc.value.isSource = true) {loaded : LoadedInstances}
    (hload : ofDocuments classes docs = .ok loaded) {i : Instance} (hi : i ∈ loaded.instances)
    {field : String} (hid : field ≠ "id") (hclass : field ≠ "class")
    (hvs : Value.CompatibleLayers (FoldedInstances.valuesOf docs i.id field)) :
    i.Holds field (Value.mergeAll
      (i.defaultFor classes field !(FoldedInstances.valuesOf docs i.id field).isEmpty)
      (FoldedInstances.valuesOf docs i.id field)) := by
  obtain ⟨provenance, hread⟩ := isRead_of_mem_instances hload hi
  have hsource := FoldedInstances.isSource_recordOf hdocs i.id
  have hreset : ∀ doc ∈ docs, doc.value.isReset = false :=
    fun doc hdoc => (Value.strippable_of_isSource (hdocs doc hdoc)).2
  have hlayers := (FoldedInstances.recordOf_spec hreset i.id).2 field
  rw [← FoldedInstances.contains_recordOf hreset,
    Instance.defaultFor_eq_defaultUnder (classOf_of_isRead hc hsource hread),
    ← Value.map_strip_underlay_layers (fun d hd => Instance.isPlain_defaultUnder hc hd)
      (isWellFormed_of_mem_valuesOf hdocs) hvs, ← hlayers]
  have hholds := Instance.holds_of_ofFields hread hid hclass
  rwa [get?_finalFields (fun e he => (hc e he).ordered) provenance
    (Instance.not_turnsIntoReset hc hsource.isStrippable)] at hholds

/-- Later sources win, lists append unless they are reset: each id that there are documents of has an
instance, and each of its fields comes to the values of the documents merged one by one over the default
of its class. -/
theorem later_sources_win {classDocs docs : List Document} {resolved : ResolvedClasses}
    {loaded : LoadedInstances} (hclassDocs : ∀ doc ∈ classDocs, doc.value.isSource = true)
    (hdocs : ∀ doc ∈ docs, doc.value.isSource = true) (hresolve : resolveClasses classDocs = .ok resolved)
    (hload : ofDocuments resolved.classes docs = .ok loaded) :
    (∀ id, (∃ i ∈ loaded.instances, i.id = id) ↔
      id = Instance.globalId ∨ FoldedInstances.documentsOf docs id ≠ []) ∧
    ∀ i ∈ loaded.instances, ∀ field, field ≠ "id" → field ≠ "class" →
      Value.CompatibleLayers (FoldedInstances.valuesOf docs i.id field) →
      i.Holds field (Value.mergeAll
        (i.defaultFor resolved.classes field !(FoldedInstances.valuesOf docs i.id field).isEmpty)
        (FoldedInstances.valuesOf docs i.id field)) := by
  have hplain := ClassDefinition.hasPlainDefaults_of_resolveClasses hclassDocs hresolve
  refine ⟨exists_mem_instances_iff hload, fun i hi field hid hclass hvs => ?_⟩
  exact holds_of_mem_instances hplain hdocs hload hi hid hclass hvs

/-- Two documents of an instance over the default of its class: all three lists, one after the other. -/
theorem later_sources_win_append :
    ∃ resolved loaded,
      resolveClasses [⟨⟨0, ⟨⟨"a.json"⟩, []⟩⟩, .map [("class", .string "a"), ("tags", .strings ["x"])]⟩] =
        .ok resolved ∧
      ofDocuments resolved.classes
        [⟨⟨0, ⟨⟨"i.json"⟩, []⟩⟩, .map [("class", .string "a"), ("id", .string "i"), ("tags", .strings ["y"])]⟩,
          ⟨⟨0, ⟨⟨"j.json"⟩, []⟩⟩, .map [("id", .string "i"), ("tags", .strings ["z"])]⟩] = .ok loaded ∧
      ∃ i ∈ loaded.instances, i.id = "i" ∧ i.Holds "tags" (some (.strings ["x", "y", "z"])) := by
  have hfold : ClassDefinition.foldDocuments
      [⟨⟨0, ⟨⟨"a.json"⟩, []⟩⟩, .map [("class", .string "a"), ("tags", .strings ["x"])]⟩] =
      .ok [("a", ⟨"a", [], none, [("tags", .strings ["x"])], some ⟨0, ⟨⟨"a.json"⟩, []⟩⟩⟩)] := by
    rw [ClassDefinition.foldDocuments, Document.sorted, List.mergeSort_singleton]
    rfl
  have hresolve : resolveClasses
      [⟨⟨0, ⟨⟨"a.json"⟩, []⟩⟩, .map [("class", .string "a"), ("tags", .strings ["x"])]⟩] =
      .ok ⟨[("a", ⟨"a", [], none, [("tags", .strings ["x"])], some ⟨0, ⟨⟨"a.json"⟩, []⟩⟩⟩)], []⟩ := by
    rw [resolveClasses, hfold]
    exact Resolver.resolveAll_singleton "a" rfl
  have hcompat : Value.CompatibleLayers [.strings ["y"], .strings ["z"]] := by
    refine (Value.compatibleLayers_concat_iff [.strings ["y"]]).mpr ⟨?_, ?_⟩
    · refine (Value.compatibleLayers_concat_iff []).mpr ⟨Value.compatibleLayers_nil, ?_⟩
      intro x hx
      cases hx
    · intro x hx
      cases hx
      exact .list (.inl rfl)
  have hload : ofDocuments
      [("a", ⟨"a", [], none, [("tags", .strings ["x"])], some ⟨0, ⟨⟨"a.json"⟩, []⟩⟩⟩)]
      [⟨⟨0, ⟨⟨"i.json"⟩, []⟩⟩, .map [("class", .string "a"), ("id", .string "i"), ("tags", .strings ["y"])]⟩,
        ⟨⟨0, ⟨⟨"j.json"⟩, []⟩⟩, .map [("id", .string "i"), ("tags", .strings ["z"])]⟩] =
      .ok ⟨[.emptyGlobal, ⟨"i", some "a", [("tags", .strings ["x", "y", "z"])], []⟩],
        [("i", [⟨0, ⟨⟨"i.json"⟩, []⟩⟩, ⟨0, ⟨⟨"j.json"⟩, []⟩⟩])], []⟩ := rfl
  have hwins := later_sources_win (by decide) (by decide) hresolve hload
  refine ⟨_, _, hresolve, hload, ⟨"i", some "a", [("tags", .strings ["x", "y", "z"])], []⟩, ?_, rfl, ?_⟩
  · decide
  · exact hwins.2 _ (by decide) "tags" (by decide) (by decide) hcompat

end LoadedInstances

end DocModel
