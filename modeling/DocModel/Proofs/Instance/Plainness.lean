import DocModel.Proofs.Instance.Loading

/-!
# Directives in what is loaded

No directive reaches the loaded classes and instances if stripping gets at all of them, that is, if all
documents are strippable. Nothing else looks for directives: one that stripping leaves in a value stays there
up to the end.

* `isStrippable_recordOf`: records of strippable documents are strippable.
* `isPlain_of_mem_instances`: so their instances are free of directives.
* `directives_stripped`: classes and instances together, and that a single value already needs the condition.
* `directive_in_list_survives`: a directive in a list is loaded as it is.
-/

namespace DocModel

namespace FoldedInstances

theorem isStrippable_fieldsOf {v : Value} (h : v.Strippable) (hr : v.isReset = false) :
    (fieldsOf v).IsStrippable := by
  cases v with
  | map fields => exact ⟨hr, h⟩
  | _ => exact .nil

theorem isStrippable_recordOf {docs : List Document}
    (hdocs : ∀ doc ∈ docs, doc.value.Strippable ∧ doc.value.isReset = false) (id : String) :
    (recordOf docs id).IsStrippable := by
  refine List.foldlRecOn _ Fields.layer Fields.IsStrippable.nil fun below hbelow fields hfields => ?_
  obtain ⟨doc, hdoc, rfl⟩ := List.mem_map.mp hfields
  obtain ⟨hvalue, hreset⟩ := hdocs doc (List.mem_filter.mp hdoc).1
  exact hbelow.layer (isStrippable_fieldsOf hvalue hreset)

end FoldedInstances

namespace LoadedInstances

theorem isPlain_of_isRead {classes : Classes} (hc : ∀ e ∈ classes, e.2.HasPlainDefaults)
    {provenance : Dict (List Provenance)} {record : String × Fields} (hr : record.2.IsStrippable) {i : Instance}
    (h : IsRead classes provenance record i) : (Value.map i.properties).isPlain = true := by
  have hdefaults := Instance.isStrippable_withDefaults hc
    (((Dict.get? provenance record.1).bind List.getLast?).map Provenance.path) record.1 hr
  obtain ⟨hreset, hentries⟩ := Value.isPlain_map_iff.mp (Instance.isPlain_settled hdefaults)
  rw [(Instance.ofFields_eq_ok h).2.2.2]
  refine Value.isPlain_map_iff.mpr ⟨?_, fun e he => ?_⟩
  · exact Fields.isReset_erase (Fields.isReset_erase (Fields.isReset_erase hreset "id") "class") "build"
  · exact hentries e (List.mem_of_mem_filter (List.mem_of_mem_filter (List.mem_of_mem_filter he)))

theorem isPlain_of_mem_instances {classes : Classes} (hc : ∀ e ∈ classes, e.2.HasPlainDefaults)
    {docs : List Document} (hdocs : ∀ doc ∈ docs, doc.value.Strippable ∧ doc.value.isReset = false)
    {loaded : LoadedInstances} (hload : ofDocuments classes docs = .ok loaded) :
    ∀ i ∈ loaded.instances, (Value.map i.properties).isPlain = true := by
  intro i hi
  obtain ⟨provenance, hread⟩ := isRead_of_mem_instances hload hi
  exact isPlain_of_isRead hc (FoldedInstances.isStrippable_recordOf hdocs i.id) hread

/-- A value in a document of its own is loaded as what stripping makes of it. -/
theorem ofDocuments_singleton (p : Provenance) (v : Value) :
    ofDocuments [] [⟨p, .map [("id", .string "i"), ("tags", v)]⟩] =
      .ok ⟨[.emptyGlobal, ⟨"i", none, [("tags", v.strip)], []⟩], [("i", [p])], []⟩ := rfl

theorem isPlain_tags_iff {v : Value} : (Value.map [("tags", v.strip)]).isPlain = true ↔ v.Strippable := by
  have hreset : Fields.isReset [("tags", v.strip)] = false := rfl
  simp [Value.isPlain_map_iff, hreset, Value.isPlain_strip_iff]

/-- No directive is left in the classes and instances of strippable documents. Stripping takes the directives
out of no other values, and a value that is not strippable brings one into the instance of a document that
holds it. -/
theorem directives_stripped {classDocs docs : List Document} {resolved : ResolvedClasses}
    {loaded : LoadedInstances}
    (hclassDocs : ∀ doc ∈ classDocs, doc.value.Strippable ∧ doc.value.isReset = false)
    (hdocs : ∀ doc ∈ docs, doc.value.Strippable ∧ doc.value.isReset = false)
    (hresolve : resolveClasses classDocs = .ok resolved)
    (hload : ofDocuments resolved.classes docs = .ok loaded) :
    (∀ e ∈ resolved.classes, (Value.map e.2.properties).isPlain = true ∧
      ∀ schema, e.2.schema = some schema → schema.isPlain = true) ∧
    (∀ i ∈ loaded.instances, (Value.map i.properties).isPlain = true) ∧
    (∀ v : Value, v.strip.isPlain = true ↔ v.Strippable) ∧
    ∀ (p : Provenance) (v : Value), ∃ single,
      ofDocuments [] [⟨p, .map [("id", .string "i"), ("tags", v)]⟩] = .ok single ∧
        ((∀ i ∈ single.instances, (Value.map i.properties).isPlain = true) ↔ v.Strippable) := by
  have hclasses := ClassDefinition.isPlain_of_resolveClasses hclassDocs hresolve
  refine ⟨fun e he => ⟨(hclasses e he).isPlain, (hclasses e he).schema⟩, ?_, fun v => Value.isPlain_strip_iff,
    fun p v => ⟨_, ofDocuments_singleton p v, ?_⟩⟩
  · exact isPlain_of_mem_instances (fun e he => (hclasses e he).toHasPlainDefaults) hdocs hload
  · have hglobal : (Value.map Instance.emptyGlobal.properties).isPlain = true := rfl
    simp [hglobal, isPlain_tags_iff]

/-- Directives in a class and in an instance: each is gone, and the list of the instance is the one loaded. -/
theorem directives_stripped_reset :
    ∃ resolved loaded,
      resolveClasses
        [⟨⟨0, ⟨⟨"a.json"⟩, []⟩⟩, .map [("class", .string "a"), ("tags", .resetTo [.string "x"])]⟩] = .ok resolved ∧
      ofDocuments resolved.classes [⟨⟨0, ⟨⟨"i.json"⟩, []⟩⟩,
        .map [("class", .string "a"), ("id", .string "i"), ("tags", .resetTo [.string "y"])]⟩] = .ok loaded ∧
      (⟨"i", some "a", [("tags", .strings ["y"])], []⟩ : Instance) ∈ loaded.instances ∧
      (∀ e ∈ resolved.classes, (Value.map e.2.properties).isPlain = true) ∧
      ∀ i ∈ loaded.instances, (Value.map i.properties).isPlain = true := by
  have hfold : ClassDefinition.foldDocuments
      [⟨⟨0, ⟨⟨"a.json"⟩, []⟩⟩, .map [("class", .string "a"), ("tags", .resetTo [.string "x"])]⟩] =
      .ok [("a", ⟨"a", [], none, [("tags", .resetTo [.string "x"])], some ⟨0, ⟨⟨"a.json"⟩, []⟩⟩⟩)] := by
    rw [ClassDefinition.foldDocuments, Document.sorted, List.mergeSort_singleton]
    rfl
  have hresolve : resolveClasses
      [⟨⟨0, ⟨⟨"a.json"⟩, []⟩⟩, .map [("class", .string "a"), ("tags", .resetTo [.string "x"])]⟩] =
      .ok ⟨[("a", ⟨"a", [], none, [("tags", .strings ["x"])], some ⟨0, ⟨⟨"a.json"⟩, []⟩⟩⟩)], []⟩ := by
    rw [resolveClasses, hfold]
    exact Resolver.resolveAll_singleton "a" rfl
  have hload : ofDocuments
      [("a", ⟨"a", [], none, [("tags", .strings ["x"])], some ⟨0, ⟨⟨"a.json"⟩, []⟩⟩⟩)]
      [⟨⟨0, ⟨⟨"i.json"⟩, []⟩⟩,
        .map [("class", .string "a"), ("id", .string "i"), ("tags", .resetTo [.string "y"])]⟩] =
      .ok ⟨[.emptyGlobal, ⟨"i", some "a", [("tags", .strings ["y"])], []⟩],
        [("i", [⟨0, ⟨⟨"i.json"⟩, []⟩⟩])], []⟩ := rfl
  obtain ⟨hclasses, hinstances, -, -⟩ := directives_stripped
    (ClassDefinition.strippable_of_isSource (by decide)) (ClassDefinition.strippable_of_isSource (by decide))
    hresolve hload
  exact ⟨_, _, hresolve, hload, by decide, fun e he => (hclasses e he).1, hinstances⟩

/-- Stripping does not look into a list, so a directive in it is loaded as it is. -/
theorem directive_in_list_survives :
    ∃ resolved loaded, resolveClasses [] = .ok resolved ∧
      ofDocuments resolved.classes [⟨⟨0, ⟨⟨"doc.json"⟩, []⟩⟩,
        .map [("id", .string "i"), ("tags", .list [.resetTo [.string "x"]])]⟩] = .ok loaded ∧
      (⟨"i", none, [("tags", .list [.resetTo [.string "x"]])], []⟩ : Instance) ∈ loaded.instances ∧
      (Value.map [("tags", .list [.resetTo [.string "x"]])]).isPlain = false := by
  have hresolve : resolveClasses [] = .ok ⟨[], []⟩ := by
    rw [resolveClasses, ClassDefinition.foldDocuments, Document.sorted, List.mergeSort_nil]
    rfl
  exact ⟨_, _, hresolve, rfl, by decide, by decide⟩

end LoadedInstances

end DocModel
