import DocModel.Proofs.Instance.Plainness

/-!
# Required fields and what loading remarks on

No default goes under a field that the schema of its class requires: an instance without it in its documents
stays without it, and loading remarks on it once. The one way around that is a default that makes the record
a reset directive, since the instance is then read from what the directive stands for.

* `warnings_eq`: what loading remarks on, instance by instance.
* `holds_of_not_turnsIntoReset`, `holds_of_turnsIntoReset`: what an instance holds.
* `required_stay_missing`: both together, for the classes that resolving gives.
* `required_filled_by_directive`: a required field that a default brings in as a directive.
-/

namespace DocModel

/-- Whether the issue is that an instance misses a required field. -/
def Issue.isMissing (id field : String) (issue : Issue) : Bool :=
  issue.code = "required-before-defaults" && issue.instanceId = some id && issue.path = some field

namespace FoldedInstances

variable {docs : List Document}

/-- The class of an id, which is what the last of its documents to have the field names. -/
def classNameOf (docs : List Document) (id : String) : Option String :=
  (valuesOf docs id "class").getLast?.bind Value.string?

/-- Where the last document of an id came from. -/
def lastPath (docs : List Document) (id : String) : Option SourcePath :=
  (documentsOf docs id).getLast?.map fun doc => doc.provenance.path

theorem lastPath_eq {folded : FoldedInstances} (h : ofDocuments docs = .ok folded) (id : String) :
    ((Dict.get? folded.provenance id).bind List.getLast?).map Provenance.path = lastPath docs id := by
  have hnoted : (Dict.get? folded.provenance id).getD [] = (documentsOf docs id).map Document.provenance :=
    provenance_of_foldlM h id
  have hlast : (Dict.get? folded.provenance id).bind List.getLast? =
      ((Dict.get? folded.provenance id).getD []).getLast? := by
    cases Dict.get? folded.provenance id <;> rfl
  rw [hlast, hnoted, List.getLast?_map, Option.map_map, lastPath]
  rfl

theorem classNameOf_eq (hdocs : ∀ doc ∈ docs, doc.value.isReset = false) (id : String) :
    (Dict.get? (recordOf docs id) "class").bind Value.string? = classNameOf docs id := by
  rw [(recordOf_spec hdocs id).2, Value.string?_layers, classNameOf]

/-- Documents that have no directive for their class come to none there. -/
theorem isReset_class (hdocs : ∀ doc ∈ docs, doc.value.isReset = false)
    (hclass : ∀ doc ∈ docs, ∀ v, doc.value.get? "class" = some v → v.isReset = false) {id : String} {v : Value}
    (h : Dict.get? (recordOf docs id) "class" = some v) : v.isReset = false := by
  have hvalues : ∀ w ∈ valuesOf docs id "class", w.isReset = false := by
    intro w hw
    obtain ⟨doc, hdoc, hget⟩ := List.mem_filterMap.mp hw
    exact hclass doc (List.mem_filter.mp hdoc).1 w hget
  have hlayers := Value.isReset_layers (valuesOf docs id "class")
  rwa [← (recordOf_spec hdocs id).2, h, Option.any_some, Value.endsInReset_eq_false hvalues] at hlayers

end FoldedInstances

namespace Instance

/-- A field that the fields of an instance do not have is not in the document of the instance either. -/
theorem lacks_of_ofFields {id : String} {fields : Fields} {i : Instance} (h : ofFields id fields = .ok i)
    {field : String} (hnone : Dict.get? fields field = none) :
    Dict.get? i.properties field = none ∧ (field ≠ "id" → Dict.get? i.toFields field = none) := by
  obtain ⟨-, hclass, hbuild, hprops⟩ := ofFields_eq_ok h
  have hproperties : Dict.get? i.properties field = none := by
    rw [hprops]
    simp [Dict.get?_erase, hnone]
  refine ⟨hproperties, fun hid => ?_⟩
  have hclassRef : field = "class" → i.classRef = none := by
    rintro rfl
    rw [classRefOf_eq_ok hclass, hnone]
    rfl
  have hdirectives : field = "build" → i.build = [] := by
    rintro rfl
    rw [hnone] at hbuild
    exact (Except.ok.inj hbuild).symm
  -- What the document has beside the properties is there only if the instance has a class or directives.
  obtain ⟨_, classRef, properties, build⟩ := i
  cases classRef <;> cases build <;> simp_all [toFields, Dict.get?_insert]

end Instance

namespace LoadedInstances

variable {classes : Classes} {docs : List Document} {loaded : LoadedInstances}

open FoldedInstances

/-! ## Remarks -/

/-- What loading remarks on about an id. -/
def remarks (classes : Classes) (docs : List Document) (id : String) : List Issue :=
  match classNameOf docs id with
  | none => []
  | some name =>
    match Dict.get? classes name with
    | none => [Instance.unknownClass id name (lastPath docs id)]
    | some c =>
      (c.requiredFields.filter fun field => (valuesOf docs id field).isEmpty).map fun field =>
        Instance.missingRequired id field c.name

theorem instanceId_of_mem_remarks {id : String} {issue : Issue} (h : issue ∈ remarks classes docs id) :
    issue.instanceId = some id := by
  rw [remarks] at h
  split at h
  · cases h
  split at h
  · rw [List.mem_singleton.mp h]
    rfl
  · obtain ⟨field, -, rfl⟩ := List.mem_map.mp h
    rfl

theorem issuesOn_recordOf (hdocs : ∀ doc ∈ docs, doc.value.isReset = false) {folded : FoldedInstances}
    (hfold : FoldedInstances.ofDocuments docs = .ok folded) (id : String) :
    issuesOn classes folded.provenance (id, recordOf docs id) = remarks classes docs id := by
  rw [issuesOn, lastPath_eq hfold, Instance.withDefaults, classNameOf_eq hdocs, remarks]
  cases classNameOf docs id with
  | none => rfl
  | some name =>
    dsimp only
    cases Dict.get? classes name with
    | none => rfl
    | some c => simp only [Instance.applyDefaults, contains_recordOf hdocs, Bool.not_not]

/-- Loading remarks on the instances one after the other, and there is one for each id. -/
theorem warnings_eq (hdocs : ∀ doc ∈ docs, doc.value.isReset = false)
    (hload : ofDocuments classes docs = .ok loaded) :
    loaded.warnings = (loaded.instances.map Instance.id).flatMap (remarks classes docs) ∧
      (loaded.instances.map Instance.id).Nodup := by
  obtain ⟨folded, hfold, hread, hwarnings⟩ := ofDocuments_eq_ok hload
  have hordered := isOrdered_ofDocuments hfold
  rw [map_id_of_forall₂ hread]
  refine ⟨?_, hordered.nodup_allRecords⟩
  rw [hwarnings, Dict.keys, List.flatMap_map]
  refine List.flatMap_congr fun record hrecord => ?_
  have hfields := record_of_mem hordered hrecord
  rw [record_eq_recordOf hfold] at hfields
  rw [← issuesOn_recordOf hdocs hfold, ← hfields]

/-- What is remarked on about one id stands between remarks on others. -/
theorem filter_flatMap_of_nodup {ids : List String} (hids : ids.Nodup) {f : String → List Issue}
    (hf : ∀ id, ∀ issue ∈ f id, issue.instanceId = some id) {id : String} (hid : id ∈ ids) :
    (ids.flatMap f).filter (fun issue => issue.instanceId = some id) = f id := by
  have hself : (f id).filter (fun issue => issue.instanceId = some id) = f id :=
    List.filter_eq_self.mpr fun issue hissue => by simpa using hf id issue hissue
  have hothers : ∀ others : List String, id ∉ others →
      others.flatMap (fun other => (f other).filter fun issue => issue.instanceId = some id) = [] := by
    intro others hnot
    rw [List.flatMap_eq_nil_iff]
    intro other hother
    have hne : other ≠ id := fun heq => hnot (heq ▸ hother)
    rw [List.filter_eq_nil_iff]
    exact fun issue hissue => by simpa [hf other issue hissue] using hne
  obtain ⟨before, after, rfl⟩ := List.append_of_mem hid
  obtain ⟨hnot, -⟩ := List.nodup_cons.mp (List.nodup_middle.mp hids)
  rw [List.mem_append, not_or] at hnot
  rw [List.filter_flatMap, List.flatMap_append, List.flatMap_cons, hself, hothers before hnot.1,
    hothers after hnot.2, List.nil_append, List.append_nil]

theorem filter_warnings (hdocs : ∀ doc ∈ docs, doc.value.isReset = false)
    (hload : ofDocuments classes docs = .ok loaded) {i : Instance} (hi : i ∈ loaded.instances) :
    loaded.warnings.filter (fun issue => issue.instanceId = some i.id) = remarks classes docs i.id := by
  obtain ⟨hwarnings, hnodup⟩ := warnings_eq hdocs hload
  rw [hwarnings]
  exact filter_flatMap_of_nodup hnodup (fun _ _ => instanceId_of_mem_remarks) (List.mem_map_of_mem hi)

/-- A required field is remarked on once if it is missing, and else not at all. -/
theorem filter_missingRequired {required : List String} (hrequired : required.Nodup) {field : String}
    (hfield : field ∈ required) (missing : String → Bool) (id className : String) :
    ((required.filter missing).map fun field => Instance.missingRequired id field className).filter
        (Issue.isMissing id field) =
      if missing field then [Instance.missingRequired id field className] else [] := by
  have hissue : (Issue.isMissing id field ∘ fun field => Instance.missingRequired id field className) =
      fun other => decide (other = field) := by
    funext other
    simp [Issue.isMissing, Instance.missingRequired]
  rw [List.filter_map, hissue, List.filter_eq, (hrequired.filter missing).count]
  cases hmissing : missing field <;> simp [hfield, hmissing]

theorem filter_isMissing (hdocs : ∀ doc ∈ docs, doc.value.isReset = false)
    (hload : ofDocuments classes docs = .ok loaded) {i : Instance} (hi : i ∈ loaded.instances)
    {name : String} (hname : classNameOf docs i.id = some name) {c : ClassDefinition}
    (hget : Dict.get? classes name = some c) (hc : c.requiredFields.Nodup) {field : String}
    (hfield : field ∈ c.requiredFields) :
    loaded.warnings.filter (Issue.isMissing i.id field) =
      if valuesOf docs i.id field = [] then [Instance.missingRequired i.id field c.name] else [] := by
  have hof : (fun issue => Issue.isMissing i.id field issue && decide (issue.instanceId = some i.id)) =
      Issue.isMissing i.id field := by
    funext issue
    simp only [Issue.isMissing]
    cases decide (issue.instanceId = some i.id) <;> simp
  rw [← hof, ← List.filter_filter, filter_warnings hdocs hload hi, remarks, hname]
  simp only [hget]
  rw [filter_missingRequired hc hfield]
  simp

/-! ## Instances -/

/-- An instance whose record no default makes a directive holds the record over the defaults. -/
theorem holds_of_not_turnsIntoReset (hc : ∀ e ∈ classes, Dict.Ordered e.2.properties)
    (hload : ofDocuments classes docs = .ok loaded) {i : Instance} (hi : i ∈ loaded.instances)
    (hturns : ¬ Instance.TurnsIntoReset classes (recordOf docs i.id)) {field : String} (hid : field ≠ "id")
    (hclass : field ≠ "class") :
    i.Holds field ((Instance.underlaid classes (recordOf docs i.id) field).map Value.strip) := by
  obtain ⟨provenance, hread⟩ := isRead_of_mem_instances hload hi
  have hholds := Instance.holds_of_ofFields hread hid hclass
  rwa [get?_finalFields hc provenance hturns] at hholds

/-- Any other instance holds the map that the directive stands for. -/
theorem holds_of_turnsIntoReset (hc : ∀ e ∈ classes, Dict.Ordered e.2.properties)
    (hload : ofDocuments classes docs = .ok loaded) {i : Instance} (hi : i ∈ loaded.instances)
    (hturns : Instance.TurnsIntoReset classes (recordOf docs i.id)) {field : String} (hid : field ≠ "id")
    (hclass : field ≠ "class") :
    i.Holds field ((Instance.underlaid classes (recordOf docs i.id) Value.resetValueKey).bind
      fun v => v.strip.get? field) := by
  obtain ⟨provenance, hread⟩ := isRead_of_mem_instances hload hi
  have hholds := Instance.holds_of_ofFields hread hid hclass
  rwa [finalFields, Instance.get?_settled_of_isReset ((Instance.isReset_withDefaults_iff hc _ _).mpr hturns),
    Instance.get?_withDefaults hc] at hholds

theorem classRef_eq (hc : ∀ e ∈ classes, Dict.Ordered e.2.properties)
    (hdocs : ∀ doc ∈ docs, doc.value.isReset = false)
    (hclass : ∀ doc ∈ docs, ∀ v, doc.value.get? "class" = some v → v.isReset = false)
    (hload : ofDocuments classes docs = .ok loaded) {i : Instance} (hi : i ∈ loaded.instances)
    (hturns : ¬ Instance.TurnsIntoReset classes (recordOf docs i.id)) :
    i.classRef = classNameOf docs i.id := by
  obtain ⟨provenance, hread⟩ := isRead_of_mem_instances hload hi
  rw [Instance.classRefOf_eq_ok (Instance.ofFields_eq_ok hread).2.1, get?_finalFields hc provenance hturns,
    Instance.underlaid_reserved (by decide), ← classNameOf_eq hdocs]
  cases hget : Dict.get? (recordOf docs i.id) "class" with
  | none => rfl
  | some v => exact Value.string?_strip_of_not_isReset (isReset_class hdocs hclass hget)

/-- A required field that no document has is not there. -/
theorem lacks_required (hc : ∀ e ∈ classes, Dict.Ordered e.2.properties)
    (hdocs : ∀ doc ∈ docs, doc.value.isReset = false) (hload : ofDocuments classes docs = .ok loaded)
    {i : Instance} (hi : i ∈ loaded.instances)
    (hturns : ¬ Instance.TurnsIntoReset classes (recordOf docs i.id)) {name : String}
    (hname : classNameOf docs i.id = some name) {c : ClassDefinition} (hget : Dict.get? classes name = some c)
    {field : String} (hfield : field ∈ c.requiredFields) (hnone : valuesOf docs i.id field = []) :
    Dict.get? i.properties field = none ∧ (field ≠ "id" → Dict.get? i.toFields field = none) := by
  obtain ⟨provenance, hread⟩ := isRead_of_mem_instances hload hi
  have hclass : Instance.classOf classes (recordOf docs i.id) = some c := by
    rw [Instance.classOf, classNameOf_eq hdocs, hname, Option.bind_some, hget]
  have hrecord : Dict.get? (recordOf docs i.id) field = none := by
    rw [(recordOf_spec hdocs i.id).2, hnone]
    rfl
  refine Instance.lacks_of_ofFields hread ?_
  rw [get?_finalFields hc provenance hturns, Instance.underlaid_eq_none hclass hfield hrecord]
  rfl

/-- An instance of an unknown class holds what its documents come to. -/
theorem holds_of_unknown (hc : ∀ e ∈ classes, Dict.Ordered e.2.properties)
    (hdocs : ∀ doc ∈ docs, doc.value.isReset = false) (hload : ofDocuments classes docs = .ok loaded)
    {i : Instance} (hi : i ∈ loaded.instances)
    (hunknown : Instance.classOf classes (recordOf docs i.id) = none) {field : String} (hid : field ≠ "id")
    (hclass : field ≠ "class") : i.Holds field ((Value.layers (valuesOf docs i.id field)).map Value.strip) := by
  obtain ⟨hreset, hget⟩ := recordOf_spec hdocs i.id
  have hturns := Instance.not_turnsIntoReset_of_classOf_eq_none hunknown hreset
  have hholds := holds_of_not_turnsIntoReset hc hload hi hturns hid hclass
  rwa [Instance.underlaid_of_classOf_eq_none hunknown, hget] at hholds

/-- Required fields are not filled from defaults, unless a default makes the whole record a directive, as none
does if stripping takes all directives out of the documents. Loading remarks once on each required field that
no document of an instance has and once on each unknown class, which gives no defaults, and on nothing else. -/
theorem required_stay_missing {classDocs docs : List Document} {resolved : ResolvedClasses}
    {loaded : LoadedInstances} (hdocs : ∀ doc ∈ docs, doc.value.isReset = false)
    (hclass : ∀ doc ∈ docs, ∀ v, doc.value.get? "class" = some v → v.isReset = false)
    (hresolve : resolveClasses classDocs = .ok resolved)
    (hload : ofDocuments resolved.classes docs = .ok loaded) :
    (∀ issue ∈ loaded.warnings, ∃ i ∈ loaded.instances, issue.instanceId = some i.id) ∧
    ((∀ doc ∈ classDocs, doc.value.Strippable ∧ doc.value.isReset = false) →
      (∀ doc ∈ docs, doc.value.Strippable) →
      ∀ id, ¬ Instance.TurnsIntoReset resolved.classes (recordOf docs id)) ∧
    ∀ i ∈ loaded.instances,
      loaded.warnings.filter (fun issue => issue.instanceId = some i.id) =
        remarks resolved.classes docs i.id ∧
      (∀ name c, classNameOf docs i.id = some name → Dict.get? resolved.classes name = some c →
        ∀ field ∈ c.requiredFields,
          loaded.warnings.filter (Issue.isMissing i.id field) =
            (if valuesOf docs i.id field = [] then [Instance.missingRequired i.id field c.name] else []) ∧
          (valuesOf docs i.id field = [] →
            ¬ Instance.TurnsIntoReset resolved.classes (recordOf docs i.id) →
            Dict.get? i.properties field = none ∧ (field ≠ "id" → Dict.get? i.toFields field = none))) ∧
      (∀ name, classNameOf docs i.id = some name → Dict.get? resolved.classes name = none →
        loaded.warnings.filter (fun issue => issue.instanceId = some i.id) =
          [Instance.unknownClass i.id name (lastPath docs i.id)] ∧
        i.classRef = some name ∧
        ∀ field, field ≠ "id" → field ≠ "class" →
          i.Holds field ((Value.layers (valuesOf docs i.id field)).map Value.strip)) ∧
      (¬ Instance.TurnsIntoReset resolved.classes (recordOf docs i.id) →
        i.classRef = classNameOf docs i.id) ∧
      (Instance.TurnsIntoReset resolved.classes (recordOf docs i.id) →
        ∀ field, field ≠ "id" → field ≠ "class" →
          i.Holds field ((Instance.underlaid resolved.classes (recordOf docs i.id) Value.resetValueKey).bind
            fun v => v.strip.get? field)) := by
  have htidy := ClassDefinition.isTidy_of_resolveClasses hresolve
  have hc : ∀ e ∈ resolved.classes, Dict.Ordered e.2.properties := fun e he => (htidy e he).ordered
  refine ⟨fun issue hissue => ?_, fun hclassDocs hstrippable id => ?_,
    fun i hi => ⟨filter_warnings hdocs hload hi, ?known, ?unknown, ?own, ?turned⟩⟩
  · rw [(warnings_eq hdocs hload).1] at hissue
    obtain ⟨id, hid, hremark⟩ := List.mem_flatMap.mp hissue
    obtain ⟨i, hi, rfl⟩ := List.mem_map.mp hid
    exact ⟨i, hi, instanceId_of_mem_remarks hremark⟩
  · have hplain := ClassDefinition.isPlain_of_resolveClasses hclassDocs hresolve
    exact Instance.not_turnsIntoReset (fun e he => (hplain e he).toHasPlainDefaults)
      (isStrippable_recordOf (fun doc hdoc => ⟨hstrippable doc hdoc, hdocs doc hdoc⟩) id)
  case known =>
    intro name c hname hget field hfield
    have hrequired := (htidy _ (Dict.mem_of_get? hget)).required
    exact ⟨filter_isMissing hdocs hload hi hname hget hrequired hfield, fun hnone hturns =>
      lacks_required hc hdocs hload hi hturns hname hget hfield hnone⟩
  case unknown =>
    intro name hname hget
    have hunknown : Instance.classOf resolved.classes (recordOf docs i.id) = none := by
      rw [Instance.classOf, classNameOf_eq hdocs, hname, Option.bind_some, hget]
    have hturns := Instance.not_turnsIntoReset_of_classOf_eq_none hunknown (recordOf_spec hdocs i.id).1
    refine ⟨?_, (classRef_eq hc hdocs hclass hload hi hturns).trans hname, fun field hid hfield =>
      holds_of_unknown hc hdocs hload hi hunknown hid hfield⟩
    rw [filter_warnings hdocs hload hi, remarks, hname]
    simp only [hget]
  case own => exact classRef_eq hc hdocs hclass hload hi
  case turned => exact fun hturns field hid hfield => holds_of_turnsIntoReset hc hload hi hturns hid hfield

/-- A class that requires a `title` and has a default for it. -/
def untitled : Document :=
  ⟨⟨0, ⟨⟨"a.json"⟩, []⟩⟩, .map [("class", .string "a"), ("schema", .map [("required", .strings ["title"])]),
    ("title", .string "x")]⟩

/-- An instance of that class without a `title`, and one of a class that there is not. -/
def ofEither : List Document :=
  [⟨⟨0, ⟨⟨"i.json"⟩, []⟩⟩, .map [("class", .string "a"), ("id", .string "i")]⟩,
    ⟨⟨0, ⟨⟨"j.json"⟩, []⟩⟩, .map [("class", .string "b"), ("id", .string "j")]⟩]

/-- The first of them has no `title`, and each of them its remark. -/
theorem required_stay_missing_title :
    ∃ resolved loaded, resolveClasses [untitled] = .ok resolved ∧
      ofDocuments resolved.classes ofEither = .ok loaded ∧
      (∃ i ∈ loaded.instances, i.id = "i" ∧ Dict.get? i.properties "title" = none) ∧
      loaded.warnings.filter (Issue.isMissing "i" "title") = [Instance.missingRequired "i" "title" "a"] ∧
      loaded.warnings.filter (fun issue => issue.instanceId = some "j") =
        [Instance.unknownClass "j" "b" (some ⟨⟨"j.json"⟩, []⟩)] := by
  have hresolve : resolveClasses [untitled] =
      .ok ⟨[("a", ⟨"a", [], some (.map [("required", .strings ["title"])]), [("title", .string "x")],
        some ⟨0, ⟨⟨"a.json"⟩, []⟩⟩⟩)], []⟩ :=
    (resolveClasses_singleton rfl rfl).trans rfl
  have hload : ofDocuments
      [("a", ⟨"a", [], some (.map [("required", .strings ["title"])]), [("title", .string "x")],
        some ⟨0, ⟨⟨"a.json"⟩, []⟩⟩⟩)] ofEither =
      .ok ⟨[.emptyGlobal, ⟨"i", some "a", [], []⟩, ⟨"j", some "b", [], []⟩],
        [("i", [⟨0, ⟨⟨"i.json"⟩, []⟩⟩]), ("j", [⟨0, ⟨⟨"j.json"⟩, []⟩⟩])],
        [Instance.missingRequired "i" "title" "a", Instance.unknownClass "j" "b" (some ⟨⟨"j.json"⟩, []⟩)]⟩ := rfl
  have hclass : ∀ doc ∈ ofEither, ∀ v, doc.value.get? "class" = some v → v.isReset = false := by
    intro doc hdoc v hv
    rcases List.mem_pair.mp hdoc with rfl | rfl <;> cases hv <;> rfl
  obtain ⟨-, hnever, hinstances⟩ := required_stay_missing (by decide) hclass hresolve hload
  obtain ⟨-, hknown, -, -, -⟩ := hinstances ⟨"i", some "a", [], []⟩ (by decide)
  obtain ⟨-, -, hunknown, -, -⟩ := hinstances ⟨"j", some "b", [], []⟩ (by decide)
  obtain ⟨hremark, hlacks⟩ := hknown "a" _ rfl rfl "title" (by decide)
  have hturns := hnever (ClassDefinition.strippable_of_isSource (by decide))
    fun doc hdoc => (ClassDefinition.strippable_of_isSource (by decide) doc hdoc).1
  exact ⟨_, _, hresolve, hload, ⟨_, by decide, rfl, (hlacks rfl (hturns "i")).1⟩, hremark,
    (hunknown "b" rfl rfl).1⟩

/-- A class that requires `f` and has two defaults, which merging makes a directive: `$reset`, itself given as
one, and `value`, which holds `f`. -/
def turning : Document :=
  ⟨⟨0, ⟨⟨"doc.json"⟩, []⟩⟩, .map [("$reset", .map [("$reset", .bool true), ("value", .bool true)]),
    ("class", .string "c"), ("schema", .map [("required", .strings ["f"])]),
    ("value", .map [("class", .string "c"), ("f", .number (.int 1))])]⟩

/-- The instance is read from what the directive stands for, and so has the field that no document has and that
loading remarks on as missing. -/
theorem required_filled_by_directive :
    turning.value.isReset = false ∧ (Value.map [("class", .string "c"), ("id", .string "i")]).isReset = false ∧
    ∃ resolved loaded, resolveClasses [turning] = .ok resolved ∧
      ofDocuments resolved.classes
        [⟨⟨0, ⟨⟨"doc.json"⟩, []⟩⟩, .map [("class", .string "c"), ("id", .string "i")]⟩] = .ok loaded ∧
      (∃ c, Dict.get? resolved.classes "c" = some c ∧ "f" ∈ c.requiredFields) ∧
      loaded.warnings = [Instance.missingRequired "i" "f" "c"] ∧
      (⟨"i", some "c", [("f", .number (.int 1))], []⟩ : Instance) ∈ loaded.instances := by
  have hresolve : resolveClasses [turning] =
      .ok ⟨[("c", ⟨"c", [], some (.map [("required", .strings ["f"])]),
        [("$reset", .bool true), ("value", .map [("class", .string "c"), ("f", .number (.int 1))])],
        some ⟨0, ⟨⟨"doc.json"⟩, []⟩⟩⟩)], []⟩ :=
    (resolveClasses_singleton rfl rfl).trans rfl
  exact ⟨rfl, rfl, _, _, hresolve, rfl, ⟨_, rfl, by decide⟩, rfl, by decide⟩

end LoadedInstances

end DocModel
