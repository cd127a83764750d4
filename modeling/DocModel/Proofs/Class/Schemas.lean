import DocModel.Proofs.Class.Ancestors
import DocModel.Proofs.Class.Defaults
import DocModel.Proofs.Class.ParentFields
import DocModel.Proofs.Schema.MergedNames

/-!
# The schemas of resolved classes

The schema of a resolved class is merged from those of its parents and what its documents come to, and then rid
of repeats under `required`. Nothing takes repeats out of the other lists of names that merging appends.

* `schemaIn_resolved`: what a resolved schema is merged from.
* `schemaIn_induction`: what goes from the inherited schemas to that of the class holds of all of them.
* `namesOnce_schemaIn`, `listsOnlyRequired_schemaIn`: when all resolved schemas have each name once in a list.
* `namesOnce_dedupRequired_merge`: when the last step to one leaves it so.
* `names_once_in_resolved_schemas`: all of it, for class documents that resolve.
* `resolved_schema_repeats_type`: a type that a class has in common with its parent comes twice.
-/

namespace DocModel

namespace ClassDefinition

/-- The schema of a class that is known and has one. -/
def schemaIn (classes : Classes) (name : String) : Option Value := (Dict.get? classes name).bind schema

/-- The schemas that a class inherits, those of its resolved parents in their order. -/
def inherited (resolved : Classes) (c : ClassDefinition) : List Value := c.parents.filterMap (schemaIn resolved)

/-- What the schema of a class is merged from, what it inherits below its own. -/
def schemaParts (resolved : Classes) (c : ClassDefinition) : List Value :=
  c.inherited resolved ++ c.schema.toList

/-! ## Layers -/

/-- On a schema that holds no directive another is merged. -/
theorem layeredSchema_eq_mergeAll {base : Option Value} (hb : ∀ schema, base = some schema → schema.isPlain = true)
    (overlay : Option Value) : layeredSchema base overlay = Value.mergeAll base overlay.toList := by
  cases base <;> cases overlay
  · rfl
  · rfl
  · exact congrArg some (Value.strip_eq_self (hb _ rfl))
  · rfl

theorem schema_foldl_layered {parents : List ClassDefinition} (hp : ∀ c ∈ parents, c.IsPlain) {base : ClassDefinition}
    (hb : base.IsPlain) :
    (parents.foldl layered base).schema = Value.mergeAll base.schema (parents.filterMap schema) := by
  induction parents generalizing base with
  | nil => rfl
  | cons c rest ih =>
    obtain ⟨hc, hrest⟩ := List.forall_mem_cons.mp hp
    rw [List.foldl_cons, ih hrest (isPlain_layered hb hc.isStrippable)]
    show Value.mergeAll (layeredSchema base.schema c.schema) _ = _
    rw [layeredSchema_eq_mergeAll hb.schema, List.filterMap_cons]
    cases c.schema <;> rfl

/-- The schema of a flat form is merged from those of the parents and that of the class, and then rid of repeats
under `required`. -/
theorem schema_flatOn (name : String) {parents : List ClassDefinition} (hp : ∀ c ∈ parents, c.IsPlain)
    (c : ClassDefinition) :
    (Classes.flatOn name parents c).schema =
      (Value.mergeAll none (parents.filterMap schema ++ c.schema.toList)).map Value.dedupRequired := by
  have hempty : IsPlain { name } := ⟨⟨rfl, Dict.Ordered.nil⟩, by simp⟩
  have hbelow := isPlain_foldl_layered hp hempty
  show (layeredSchema (parents.foldl layered { name }).schema c.schema).map Value.dedupRequired = _
  rw [layeredSchema_eq_mergeAll hbelow.schema, schema_foldl_layered hp hempty]
  exact congrArg (Option.map Value.dedupRequired) (List.foldl_append ..).symm

/-! ## Resolved classes -/

variable {docs : List Document} {own : Classes} {resolved : ResolvedClasses} {name : String} {draft : SchemaDraft}

/-- What resolves has no cycle and comes to flat forms. -/
theorem flat_of_resolveClasses (hfold : foldDocuments docs = .ok own) (h : resolveClasses docs = .ok resolved) :
    (∀ name, ¬ Classes.LeadsToCycle own name) ∧ ∀ name, Dict.get? resolved.classes name = own.flat name := by
  have hown := (ordered_foldDocuments hfold).nodup
  obtain ⟨own', hfold', hall⟩ := Except.bind_eq_ok_iff.mp h
  cases hfold.symm.trans hfold'
  refine ⟨fun name ⟨a, _, ha⟩ => ?_, (Resolver.resolveAll_flat hown (.empty own) hall).2.1⟩
  obtain ⟨e, he⟩ := (Resolver.exists_resolveAll_eq_error_iff hown []).mpr ⟨a, ha⟩
  cases hall.symm.trans he

/-- Classes that have a schema when they are resolved are folded ones. -/
theorem exists_of_schemaIn (hfold : foldDocuments docs = .ok own) (h : resolveClasses docs = .ok resolved)
    {schema : Value} (hschema : schemaIn resolved.classes name = some schema) :
    ∃ c, Dict.get? own name = some c := by
  obtain ⟨f, hf, -⟩ := Option.bind_eq_some_iff.mp hschema
  rw [(flat_of_resolveClasses hfold h).2] at hf
  exact Option.isSome_iff_exists.mp (Classes.contains_of_flat_eq_some hf)

/-- Every resolved schema is one that repeats under `required` were taken out of. -/
theorem exists_dedupRequired_of_schemaIn (hfold : foldDocuments docs = .ok own)
    (h : resolveClasses docs = .ok resolved) {schema : Value} (hschema : schemaIn resolved.classes name = some schema) :
    ∃ merged : Value, schema = merged.dedupRequired := by
  obtain ⟨f, hf, hschema⟩ := Option.bind_eq_some_iff.mp hschema
  obtain ⟨hnot, hflat⟩ := flat_of_resolveClasses hfold h
  rw [hflat, Classes.flat_eq (ordered_foldDocuments hfold).nodup (hnot name), Option.map_eq_some_iff] at hf
  obtain ⟨c, -, rfl⟩ := hf
  obtain ⟨merged, -, rfl⟩ := Option.map_eq_some_iff.mp hschema
  exact ⟨merged, rfl⟩

/-! ## Parts of schemas -/

theorem isWellFormed_of_mem_valuesOf (hdocs : ∀ doc ∈ docs, doc.value.isSource = true) {field : String} :
    ∀ v ∈ valuesOf docs name field, v.isWellFormed = true := by
  intro v hv
  obtain ⟨fields, hfields, hget⟩ := List.mem_filterMap.mp hv
  exact (isSource_of_mem_fragmentsOf hdocs name fields hfields).get? hget

theorem strippable_of_mem_valuesOf (hdocs : ∀ doc ∈ docs, doc.value.isSource = true) {field : String} :
    ∀ v ∈ valuesOf docs name field, v.Strippable :=
  fun v hv => Value.strippable_of_isWellFormed (isWellFormed_of_mem_valuesOf hdocs v hv)

/-- The schema that the documents give a class comes to theirs merged once directives are stripped. -/
theorem schema_of_foldDocuments (hdocs : ∀ doc ∈ docs, doc.value.isSource = true)
    (hfold : foldDocuments docs = .ok own) {c : ClassDefinition} (hc : Dict.get? own name = some c) :
    (∀ v, c.schema = some v → v.Strippable) ∧
      c.schema.map Value.strip = Value.mergeAll none (valuesOf docs name "schema") := by
  have hvalues : ∀ v ∈ valuesOf docs name "schema", v.isWellFormed = true := isWellFormed_of_mem_valuesOf hdocs
  have hschema : c.schema = Value.layers (valuesOf docs name "schema") := by
    obtain ⟨last, rfl⟩ := get?_foldDocuments hfold hc
    exact get?_layered_fragments hdocs name "schema"
  rw [hschema]
  exact ⟨fun v hv => Value.strippable_of_isWellFormed (Value.isWellFormed_layers hvalues hv),
    Value.map_strip_layers hvalues⟩

section Sources

variable (hdocs : ∀ doc ∈ docs, doc.value.isSource = true) (hfold : foldDocuments docs = .ok own)
  (h : resolveClasses docs = .ok resolved)

include hdocs hfold h

/-- The schema of a resolved class is merged from its parts, and then rid of repeats under `required`. -/
theorem schemaIn_resolved {c : ClassDefinition} (hc : Dict.get? own name = some c) :
    schemaIn resolved.classes name =
      (Value.mergeAll none (c.schemaParts resolved.classes)).map Value.dedupRequired := by
  obtain ⟨hnot, hflat⟩ := flat_of_resolveClasses hfold h
  have hget := Classes.flat_eq (ordered_foldDocuments hfold).nodup (hnot name)
  rw [← hflat, hc, Option.map_some, List.filterMap_congr fun parent _ => (hflat parent).symm] at hget
  rw [schemaIn, hget, Option.bind_some, schema_flatOn name (fun p hp => ?_), List.filterMap_filterMap]
  · rfl
  · obtain ⟨parent, -, hget⟩ := List.mem_filterMap.mp hp
    exact isPlain_of_resolveClasses (strippable_of_isSource hdocs) h _ (Dict.mem_of_get? hget)

/-- A class that inherits no schema has what its documents come to. -/
theorem schemaIn_of_inherited_eq_nil {c : ClassDefinition} (hc : Dict.get? own name = some c)
    (hnone : c.inherited resolved.classes = []) :
    schemaIn resolved.classes name =
      (Value.mergeAll none (valuesOf docs name "schema")).map Value.dedupRequired := by
  rw [schemaIn_resolved hdocs hfold h hc, schemaParts, hnone, ← (schema_of_foldDocuments hdocs hfold hc).2]
  cases c.schema <;> rfl

/-- The parts are strippable, and what holds of the inherited ones and of the merged schemas in the documents of
the class holds of all once they are stripped. -/
theorem strip_schemaParts {P : Value → Prop} {c : ClassDefinition} (hc : Dict.get? own name = some c)
    (hinherited : ∀ v ∈ c.inherited resolved.classes, P v)
    (hown : ∀ m, Value.mergeAll none (valuesOf docs name "schema") = some m → P m) :
    ∀ v ∈ c.schemaParts resolved.classes, v.Strippable ∧ P v.strip := by
  intro v hv
  rcases List.mem_append.mp hv with hv | hv
  · obtain ⟨parent, -, hschema⟩ := List.mem_filterMap.mp hv
    obtain ⟨f, hf, hschema⟩ := Option.bind_eq_some_iff.mp hschema
    have hplain := isPlain_of_resolveClasses (strippable_of_isSource hdocs) h _ (Dict.mem_of_get? hf)
    rw [Value.strip_eq_self (hplain.schema v hschema)]
    exact ⟨hplain.isStrippable.schema v hschema, hinherited v hv⟩
  · obtain ⟨hstrippable, hmerged⟩ := schema_of_foldDocuments hdocs hfold hc
    have hschema : c.schema = some v := Option.mem_toList.mp hv
    refine ⟨hstrippable v hschema, hown v.strip ?_⟩
    rw [← hmerged, hschema, Option.map_some]

/-- Which schema is the last to be merged for a class: the last part, or the last of its documents if it inherits
none. -/
theorem schemaIn_of_last {c : ClassDefinition} (hc : Dict.get? own name = some c) {before : List Value} {last : Value}
    (hlast : c.schemaParts resolved.classes = before ++ [last] ∨
      c.inherited resolved.classes = [] ∧ valuesOf docs name "schema" = before ++ [last]) :
    last.Strippable ∧ schemaIn resolved.classes name =
      (Value.mergeAll none (before ++ [last])).map Value.dedupRequired := by
  have hmem : last ∈ before ++ [last] := List.mem_concat_self
  rcases hlast with hparts | ⟨hnone, hvalues⟩
  · rw [← hparts] at hmem ⊢
    have hstrippable := strip_schemaParts (P := fun _ => True) hdocs hfold h hc (fun _ _ => trivial)
      (fun _ _ => trivial) last hmem
    exact ⟨hstrippable.1, schemaIn_resolved hdocs hfold h hc⟩
  · rw [← hvalues] at hmem ⊢
    exact ⟨strippable_of_mem_valuesOf hdocs last hmem, schemaIn_of_inherited_eq_nil hdocs hfold h hc hnone⟩

/-- What holds of the schema of a class if it holds of the schemas that the class inherits holds of the schemas
of all resolved classes. -/
theorem schemaIn_induction {P : Value → Prop}
    (step : ∀ name c, Dict.get? own name = some c → (∀ v ∈ c.inherited resolved.classes, P v) →
      ∀ m, Value.mergeAll none (c.schemaParts resolved.classes) = some m → P m.dedupRequired)
    {schema : Value} (hschema : schemaIn resolved.classes name = some schema) : P schema := by
  obtain ⟨c, hc⟩ := exists_of_schemaIn hfold h hschema
  -- The induction goes up the parents, which come to an end because what resolves has no cycle.
  refine Classes.induction_of_not_leadsToCycle
    (P := fun name => ∀ schema, schemaIn resolved.classes name = some schema → P schema)
    (ordered_foldDocuments hfold).nodup (fun name hname _ ih schema hschema => ?_) (Option.isSome_of_eq_some hc)
    ((flat_of_resolveClasses hfold h).1 name) schema hschema
  obtain ⟨c, hc⟩ := Option.isSome_iff_exists.mp hname
  rw [schemaIn_resolved hdocs hfold h hc, Option.map_eq_some_iff] at hschema
  obtain ⟨m, hm, rfl⟩ := hschema
  refine step name c hc (fun v hv => ?_) m hm
  obtain ⟨parent, hp, hv⟩ := List.mem_filterMap.mp hv
  obtain ⟨d, hd⟩ := exists_of_schemaIn hfold h hv
  exact ih parent ⟨c, hc, hp, Option.isSome_of_eq_some hd⟩ v hv

/-! ## Names -/

/-- Where documents and parents have no lists of names but those under `required`, the parts have none. -/
theorem listsOnlyRequired_schemaParts
    (honly : ∀ v ∈ valuesOf docs name "schema", v.strip.ListsOnlyRequired draft) {c : ClassDefinition}
    (hc : Dict.get? own name = some c) (hinherited : ∀ v ∈ c.inherited resolved.classes, v.ListsOnlyRequired draft) :
    ∀ v ∈ c.schemaParts resolved.classes, v.Strippable ∧ v.strip.ListsOnlyRequired draft :=
  strip_schemaParts hdocs hfold h hc hinherited fun _ => .mergeAll fun v hv =>
    ⟨strippable_of_mem_valuesOf hdocs v hv, honly v hv⟩

theorem listsOnlyRequired_schemaIn
    (honly : ∀ name, ∀ v ∈ valuesOf docs name "schema", v.strip.ListsOnlyRequired draft) {schema : Value}
    (hschema : schemaIn resolved.classes name = some schema) : schema.ListsOnlyRequired draft := by
  refine schemaIn_induction hdocs hfold h (fun name c hc hinherited m hm => ?_) hschema
  have hparts := listsOnlyRequired_schemaParts hdocs hfold h (honly name) hc hinherited
  exact (Value.ListsOnlyRequired.mergeAll hparts hm).dedupRequired

/-- So no two parts have lists of names under other keywords that meet. -/
theorem allApart_schemaParts (honly : ∀ name, ∀ v ∈ valuesOf docs name "schema", v.strip.ListsOnlyRequired draft)
    {c : ClassDefinition} (hc : Dict.get? own name = some c) :
    Value.AllApart draft (c.schemaParts resolved.classes) := by
  have hinherited : ∀ v ∈ c.inherited resolved.classes, v.ListsOnlyRequired draft := fun v hv => by
    obtain ⟨parent, -, hv⟩ := List.mem_filterMap.mp hv
    exact listsOnlyRequired_schemaIn hdocs hfold h honly hv
  have hparts := listsOnlyRequired_schemaParts hdocs hfold h (honly name) hc hinherited
  exact .of_listsOnlyRequired fun v hv => (hparts v hv).2

/-- Where the schemas in documents have each name once in their lists, and no two that are merged for a class have
one in common in lists that meet, the resolved schemas have each name once. -/
theorem namesOnce_schemaIn (honce : ∀ name, ∀ v ∈ valuesOf docs name "schema", v.strip.NamesOnce draft)
    (hdocsApart : ∀ name, Value.AllApart draft (valuesOf docs name "schema"))
    (hpartsApart : ∀ name c, Dict.get? own name = some c → Value.AllApart draft (c.schemaParts resolved.classes))
    {schema : Value} (hschema : schemaIn resolved.classes name = some schema) : schema.NamesOnce draft := by
  refine schemaIn_induction hdocs hfold h (fun name c hc hinherited m hm => ?_) hschema
  have hvalues : ∀ v ∈ valuesOf docs name "schema", v.Strippable ∧ v.strip.IsRepairable draft := fun v hv =>
    ⟨strippable_of_mem_valuesOf hdocs v hv, (honce name v hv).isRepairable⟩
  -- The folded schema still has its directives; once they are stripped it is what merging the documents' schemas
  -- one by one gives, so that is where repeats are counted.
  have hown : ∀ m, Value.mergeAll none (valuesOf docs name "schema") = some m → m.IsRepairable draft :=
    fun m hm => (Value.isRepairable_mergeAll hvalues (hdocsApart name) hm).1
  have hparts := strip_schemaParts hdocs hfold h hc (fun v hv => (hinherited v hv).isRepairable) hown
  exact Value.isRepairable_iff.mp (Value.isRepairable_mergeAll hparts (hpartsApart name c hc) hm).1

end Sources

/-- What is merged last into a schema leaves each name once in its lists if it is apart from what is below, and
makes a schema that does not compile if it is not. -/
theorem namesOnce_dedupRequired_merge {below last : Value} (hlast : last.Strippable) (hb : below.IsRepairable draft)
    (hs : last.strip.IsRepairable draft) :
    ((below.merge last).dedupRequired.NamesOnce draft ↔ below.NamesApart draft last) ∧
      (SchemaDraft.of? (below.merge last).dedupRequired = some draft → ¬ below.NamesApart draft last →
        ∀ engine : SchemaEngine, engine.RefusesRepeats →
          ∃ reason, engine (below.merge last).dedupRequired = .error reason) := by
  have hiff : (below.merge last).dedupRequired.NamesOnce draft ↔ below.NamesApart draft last := by
    rw [← Value.isRepairable_iff]
    exact Value.isRepairable_merge_iff hb hlast hs
  exact ⟨hiff, fun hdraft hmeet engine hengine => hengine _ draft hdraft (mt hiff.mp hmeet)⟩

/-- However classes inherit, no resolved schema has a name twice under `required`. If the schemas in documents
that are sources have each name once in their lists, so have all resolved ones in two cases: if the documents
have such lists only under `required`, or if no two schemas that are merged for one class, be they of its
documents or of its parents and its own, have a name in common in lists that meet under other keywords. The
last of these that is merged decides: if it has a name in common with what is below it, the resolved schema has
that twice, and no engine that refuses repeats compiles it. -/
theorem names_once_in_resolved_schemas (draft : SchemaDraft) (hfold : foldDocuments docs = .ok own)
    (h : resolveClasses docs = .ok resolved) :
    (∀ name schema, schemaIn resolved.classes name = some schema →
      ∀ items, NameList draft .schema schema "required" items → items.Nodup) ∧
    ((∀ doc ∈ docs, doc.value.isSource = true) →
      ((∀ name, ∀ v ∈ valuesOf docs name "schema", v.strip.NamesOnce draft) →
        ((∀ name, ∀ v ∈ valuesOf docs name "schema", v.strip.ListsOnlyRequired draft) ∨
          (∀ name, Value.AllApart draft (valuesOf docs name "schema")) ∧
          ∀ name c, Dict.get? own name = some c → Value.AllApart draft (c.schemaParts resolved.classes)) →
        ∀ name schema, schemaIn resolved.classes name = some schema → schema.NamesOnce draft) ∧
      (∀ name c before below last, Dict.get? own name = some c →
        (c.schemaParts resolved.classes = before ++ [last] ∨
          c.inherited resolved.classes = [] ∧ valuesOf docs name "schema" = before ++ [last]) →
        Value.mergeAll none before = some below → below.IsRepairable draft → last.strip.IsRepairable draft →
        ∃ schema, schemaIn resolved.classes name = some schema ∧
          (schema.NamesOnce draft ↔ below.NamesApart draft last) ∧
          (SchemaDraft.of? schema = some draft → ¬ below.NamesApart draft last →
            ∀ engine : SchemaEngine, engine.RefusesRepeats → ∃ reason, engine schema = .error reason))) := by
  refine ⟨fun name schema hschema items hlist => ?_, fun hdocs => ⟨fun honce hcases name schema hschema => ?_, ?_⟩⟩
  · obtain ⟨merged, rfl⟩ := exists_dedupRequired_of_schemaIn hfold h hschema
    exact Value.nodup_required_dedupRequired hlist
  · rcases hcases with honly | ⟨hdocsApart, hpartsApart⟩
    · exact namesOnce_schemaIn hdocs hfold h honce (fun name => .of_listsOnlyRequired (honly name))
        (fun _ _ => allApart_schemaParts hdocs hfold h honly) hschema
    · exact namesOnce_schemaIn hdocs hfold h honce hdocsApart hpartsApart hschema
  · intro name c before below last hc hlast hbelow hb hs
    obtain ⟨hstrippable, hschema⟩ := schemaIn_of_last hdocs hfold h hc hlast
    rw [Value.mergeAll_concat, hbelow] at hschema
    exact ⟨_, hschema, namesOnce_dedupRequired_merge hstrippable hb hs⟩

/-! ## Two lists of types -/

/-- A schema that is a list of types. -/
def typesOnly (types : List String) : Value := .map [("type", .strings types)]

/-- A class `c` whose schema has these types, under a class `p` that may be an object or nothing. -/
def typed (types : List String) : List Document :=
  [⟨⟨0, ⟨⟨"c.json"⟩, []⟩⟩, .map [("class", .string "c"), ("parent", .string "p"), ("schema", typesOnly types)]⟩,
    ⟨⟨0, ⟨⟨"p.json"⟩, []⟩⟩, .map [("class", .string "p"), ("schema", typesOnly ["object", "null"])]⟩]

def foldedTyped (types : List String) : Classes :=
  [("c", ⟨"c", ["p"], some (typesOnly types), [], some ⟨0, ⟨⟨"c.json"⟩, []⟩⟩⟩),
    ("p", ⟨"p", [], some (typesOnly ["object", "null"]), [], some ⟨0, ⟨⟨"p.json"⟩, []⟩⟩⟩)]

theorem sorted_typed (types : List String) : Document.sorted (typed types) = typed types := by
  have hbefore : Provenance.before ⟨0, ⟨⟨"p.json"⟩, []⟩⟩ ⟨0, ⟨⟨"c.json"⟩, []⟩⟩ = false := by decide
  exact List.mergeSort_of_pairwise (List.pairwise_pair.mpr (congrArg (!·) hbefore))

theorem fragment_typed (types : List String) :
    fragment ⟨⟨"c.json"⟩, []⟩ (.map [("class", .string "c"), ("parent", .string "p"), ("schema", typesOnly types)]) =
      .ok ("c", [("class", .string "c"), ("parent", .string "p"), ("schema", typesOnly types)]) := rfl

theorem foldDocuments_typed (types : List String) : foldDocuments (typed types) = .ok (foldedTyped types) := by
  rw [foldDocuments, sorted_typed, typed, List.foldlM_cons, foldStep, fragment_typed]
  rfl

/-- They resolve, each to its flat form. -/
theorem exists_resolveClasses_typed (types : List String) :
    ∃ resolved, resolveClasses (typed types) = .ok resolved ∧
      ∀ name, Dict.get? resolved.classes name = (foldedTyped types).flat name := by
  have hnot : ¬ ∃ a, Relation.TransGen (Classes.Parent (foldedTyped types)) a a := by
    refine Classes.not_exists_transGen_of_rank (fun name => if name = "c" then 1 else 0) ?_
    rintro a b ⟨c, hc, hb, -⟩
    rcases List.mem_pair.mp (Dict.mem_of_get? hc) with hc | hc <;> cases hc
    · rw [List.mem_singleton.mp hb]
      decide
    · cases hb
  have hown := (ordered_foldDocuments (foldDocuments_typed types)).nodup
  rcases Resolver.resolveAll_spec hown (Resolver.isSound_after hown []) with ⟨resolved, hall, -⟩ | ⟨_, -, -, hcycle⟩
  · have hresolve : resolveClasses (typed types) = .ok resolved :=
      Except.bind_eq_ok_iff.mpr ⟨_, foldDocuments_typed types, hall⟩
    exact ⟨resolved, hresolve, (flat_of_resolveClasses (foldDocuments_typed types) hresolve).2⟩
  · exact absurd hcycle hnot

/-- The documents hold one schema for each of the two classes. -/
theorem valuesOf_typed (types : List String) (name : String) :
    valuesOf (typed types) name "schema" =
      if "c" = name then [typesOnly types] else if "p" = name then [typesOnly ["object", "null"]] else [] := by
  have hfirst : fragmentFor name ⟨⟨0, ⟨⟨"c.json"⟩, []⟩⟩, .map [("class", .string "c"), ("parent", .string "p"),
      ("schema", typesOnly types)]⟩ =
      if "c" = name then some [("class", .string "c"), ("parent", .string "p"), ("schema", typesOnly types)]
      else none := by
    rw [fragmentFor, fragment_typed]
  have hsecond : fragmentFor name
      ⟨⟨0, ⟨⟨"p.json"⟩, []⟩⟩, .map [("class", .string "p"), ("schema", typesOnly ["object", "null"])]⟩ =
      if "p" = name then some [("class", .string "p"), ("schema", typesOnly ["object", "null"])] else none := rfl
  rw [valuesOf, fragmentsOf, sorted_typed, typed, List.filterMap_cons, List.filterMap_cons, hfirst, hsecond]
  by_cases hc : "c" = name
  · subst hc
    rfl
  by_cases hp : "p" = name
  · subst hp
    rfl
  · rw [if_neg hc, if_neg hc, if_neg hp, if_neg hp]
    rfl

theorem eq_of_mem_valuesOf_typed {types : List String} {v : Value} (h : v ∈ valuesOf (typed types) name "schema") :
    v = typesOnly types ∨ v = typesOnly ["object", "null"] := by
  rw [valuesOf_typed] at h
  split at h
  · exact .inl (List.mem_singleton.mp h)
  split at h
  · exact .inr (List.mem_singleton.mp h)
  · cases h

theorem nameList_typesOnly_iff {types : List String} {key : String} {items : List Value} :
    NameList draft .schema (typesOnly types) key items ↔ key = "type" ∧ items = types.map .string := by
  constructor
  · intro h
    cases h with
    | here _ hget =>
      obtain ⟨rfl, heq⟩ := Prod.mk.inj (List.mem_singleton.mp (Dict.mem_of_get? hget))
      exact ⟨rfl, Value.list.inj heq⟩
    | entry hget h =>
      obtain ⟨rfl, rfl⟩ := Prod.mk.inj (List.mem_singleton.mp (Dict.mem_of_get? hget))
      cases h with
      | item _ h => exact absurd h not_nameList_other
  · rintro ⟨rfl, rfl⟩
    exact .here (by cases draft <;> rfl) rfl

theorem namesOnce_typesOnly_iff {types : List String} : (typesOnly types).NamesOnce draft ↔ types.Nodup := by
  rw [← List.nodup_map_iff (f := Value.string) fun _ _ => Value.string.inj]
  constructor
  · intro h
    exact (h "type" _ (nameList_typesOnly_iff.mpr ⟨rfl, rfl⟩)).nodup
  · intro h key items hlist
    obtain ⟨-, rfl⟩ := nameList_typesOnly_iff.mp hlist
    exact ⟨fun v hv => (List.mem_map.mp hv).imp fun _ hs => hs.2.symm, h⟩

theorem isPlain_typesOnly (types : List String) : (typesOnly types).isPlain = true := by
  refine Value.isPlain_map_iff.mpr ⟨rfl, fun e he => ?_⟩
  rw [List.mem_singleton.mp he]
  refine Value.isPlain_list_iff.mpr fun v hv => ?_
  obtain ⟨_, -, rfl⟩ := List.mem_map.mp hv
  rfl

theorem compile_typesOnly {types : List String} {names : List TypeName}
    (h : Schema.ofValue? .latest (typesOnly types) = some (.all [.types names])) :
    ∃ check, SchemaEngine.standard (typesOnly types) = .ok check :=
  ⟨_, SchemaEngine.standard_eq_ok_iff.mpr (Schema.compile_eq_some rfl h rfl rfl)⟩

theorem namesApart_typesOnly {below above : List String} (h : List.Disjoint below above) :
    (typesOnly below).strip.NamesApart draft (typesOnly above) := by
  rw [Value.strip_eq_self (isPlain_typesOnly below)]
  intro key left right hmeet _
  have habove := Value.strippable_of_isWellFormed (Value.isWellFormed_of_isPlain (isPlain_typesOnly above))
  have hright := (hmeet.nameList habove).1
  rw [Value.strip_eq_self (isPlain_typesOnly above)] at hright
  obtain ⟨-, rfl⟩ := nameList_typesOnly_iff.mp hmeet.nameList_below
  obtain ⟨-, rfl⟩ := nameList_typesOnly_iff.mp hright
  exact h.map fun _ _ => Value.string.inj

/-- Where the two classes have no type in common, the list that both come to has each once. -/
theorem names_once_in_resolved_schemas_of_apart :
    ∃ resolved, foldDocuments (typed ["string"]) = .ok (foldedTyped ["string"]) ∧
      resolveClasses (typed ["string"]) = .ok resolved ∧
      schemaIn resolved.classes "c" = some (typesOnly ["object", "null", "string"]) ∧
      (typesOnly ["object", "null", "string"]).NamesOnce .latest := by
  obtain ⟨resolved, hresolve, hflat⟩ := exists_resolveClasses_typed ["string"]
  have hschema : ∀ name, schemaIn resolved.classes name = ((foldedTyped ["string"]).flat name).bind schema :=
    fun name => by rw [schemaIn, hflat]
  obtain ⟨-, hrest⟩ := names_once_in_resolved_schemas .latest (foldDocuments_typed ["string"]) hresolve
  obtain ⟨honce, -⟩ := hrest (by decide)
  refine ⟨resolved, foldDocuments_typed _, hresolve, hschema "c", honce ?_ (.inr ⟨?_, ?_⟩) _ _ (hschema "c")⟩
  · intro name v hv
    rcases eq_of_mem_valuesOf_typed hv with rfl | rfl
    · exact namesOnce_typesOnly_iff.mpr (by decide)
    · exact namesOnce_typesOnly_iff.mpr (by decide)
  · intro name
    rw [valuesOf_typed]
    split
    · exact List.pairwise_singleton ..
    split
    · exact List.pairwise_singleton ..
    · exact List.Pairwise.nil
  · intro name c hc
    rcases List.mem_pair.mp (Dict.mem_of_get? hc) with hc | hc <;> cases hc
    · have hparts : schemaParts resolved.classes ⟨"c", ["p"], some (typesOnly ["string"]), [],
          some ⟨0, ⟨⟨"c.json"⟩, []⟩⟩⟩ = [typesOnly ["object", "null"], typesOnly ["string"]] := by
        rw [schemaParts, inherited, List.filterMap_cons, hschema]
        rfl
      rw [hparts]
      exact List.pairwise_pair.mpr (namesApart_typesOnly (List.disjoint_singleton.mpr (by decide)))
    · exact List.pairwise_singleton ..

/-- Where they have one in common, that is there twice, and the class has a schema that no engine compiles that
refuses repeats, as the standard one does, which compiles the schemas of both documents. -/
theorem resolved_schema_repeats_type :
    ∃ resolved, resolveClasses (typed ["object"]) = .ok resolved ∧
      (∀ name, ∀ v ∈ valuesOf (typed ["object"]) name "schema",
        v.NamesOnce .latest ∧ ∃ check, SchemaEngine.standard v = .ok check) ∧
      schemaIn resolved.classes "c" = some (typesOnly ["object", "null", "object"]) ∧
      ¬ (typesOnly ["object", "null", "object"]).NamesOnce .latest ∧ SchemaEngine.standard.RefusesRepeats ∧
      ∀ engine : SchemaEngine, engine.RefusesRepeats →
        ∃ reason, engine (typesOnly ["object", "null", "object"]) = .error reason := by
  obtain ⟨resolved, hresolve, hflat⟩ := exists_resolveClasses_typed ["object"]
  have hrepeats : ¬ (typesOnly ["object", "null", "object"]).NamesOnce .latest := fun h =>
    absurd (namesOnce_typesOnly_iff.mp h) (by decide)
  refine ⟨resolved, hresolve, fun name v hv => ?_, ?_, hrepeats, SchemaEngine.standard_refusesRepeats,
    fun engine hengine => hengine _ .latest rfl hrepeats⟩
  · rcases eq_of_mem_valuesOf_typed hv with rfl | rfl
    · exact ⟨namesOnce_typesOnly_iff.mpr (by decide), compile_typesOnly rfl⟩
    · exact ⟨namesOnce_typesOnly_iff.mpr (by decide), compile_typesOnly rfl⟩
  · rw [schemaIn, hflat]
    rfl

end ClassDefinition

end DocModel
