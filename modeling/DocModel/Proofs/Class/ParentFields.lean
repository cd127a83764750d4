import DocModel.Proofs.Class.Fragments
import DocModel.Proofs.Merging.Sources

/-!
# The fields that name parents

The parents of a folded class are read off its layered documents while directives are still in them. A
directive names no class, so a field whose layers come to one counts as missing, whatever list it stands for;
the other fields count as what merging the documents makes of them.

* `get?_merged`: the merged documents hold the stripped layers of what the documents hold.
* `namesIn_shown`: which of these names are read.
* `parents_of_foldDocuments`: the parents of every folded class.
* `parents_miss_reset`: so parents that a later document resets to are not found.
-/

namespace DocModel

namespace ClassDefinition

/-- What the documents say about a class, merged one after the other. -/
def merged (docs : List Document) (name : String) : Value :=
  (fragmentsOf docs name).foldl (fun v fields => v.merge (.map fields)) (.map [])

/-- What the documents say in one field, in the order of their provenance; some may not have it. -/
def valuesOf (docs : List Document) (name field : String) : List Value :=
  (fragmentsOf docs name).filterMap (Dict.get? · field)

/-- A field of the merged documents, unless its layers come to a directive. -/
def shown (docs : List Document) (name field : String) : Option Value :=
  if Value.endsInReset (valuesOf docs name field) then none else (merged docs name).get? field

variable {docs : List Document}

theorem isSource_of_fragment {path : SourcePath} {v : Value} (hv : v.isSource = true) {name : String}
    {fields : Fields} (h : fragment path v = .ok (name, fields)) : fields.IsSource := by
  obtain ⟨body, rfl, hfields⟩ := fragment_eq_ok h
  have hbody := Fields.isSource_iff.mp hv
  rcases hfields with rfl | rfl
  · exact hbody
  · exact ⟨rfl, by simpa using (hbody.erase "class").map⟩

theorem isSource_of_mem_fragmentsOf (hdocs : ∀ doc ∈ docs, doc.value.isSource = true) (name : String) :
    ∀ fields ∈ fragmentsOf docs name, fields.IsSource := by
  intro fields hfields
  obtain ⟨doc, hdoc, hfragment⟩ := mem_fragmentsOf_iff.mp hfields
  exact isSource_of_fragment (hdocs doc hdoc) hfragment

/-- What documents that are no directives say is none. -/
theorem isReset_of_mem_fragmentsOf (hdocs : ∀ doc ∈ docs, doc.value.isReset = false) (name : String) :
    ∀ fields ∈ fragmentsOf docs name, fields.isReset = false := by
  intro fields hfields
  obtain ⟨doc, hdoc, hfragment⟩ := mem_fragmentsOf_iff.mp hfields
  obtain ⟨body, hbody, rfl | rfl⟩ := fragment_eq_ok hfragment
  · have hreset := hdocs doc hdoc
    rw [hbody] at hreset
    exact hreset
  · rfl

/-! ## Layered and merged -/

theorem get?_layered_of_isReset (hdocs : ∀ doc ∈ docs, doc.value.isReset = false) (name field : String) :
    Dict.get? ((fragmentsOf docs name).foldl Fields.layer []) field = Value.layers (valuesOf docs name field) :=
  (Fields.foldl_layer_spec (isReset_of_mem_fragmentsOf hdocs name) rfl).2 field

theorem get?_layered_fragments (hdocs : ∀ doc ∈ docs, doc.value.isSource = true) (name field : String) :
    Dict.get? ((fragmentsOf docs name).foldl Fields.layer []) field = Value.layers (valuesOf docs name field) :=
  get?_layered_of_isReset (fun doc hdoc => (Value.strippable_of_isSource (hdocs doc hdoc)).2) name field

/-- The merged documents hold in each field the stripped layers of what the documents hold there. -/
theorem get?_merged (hdocs : ∀ doc ∈ docs, doc.value.isSource = true) (name field : String) :
    (merged docs name).get? field = (Value.layers (valuesOf docs name field)).map Value.strip := by
  have hfragments := isSource_of_mem_fragmentsOf hdocs name
  have hlayered := Fields.IsSource.foldl_layer hfragments .nil
  have hmerged : merged docs name = (Value.map ((fragmentsOf docs name).foldl Fields.layer [])).strip :=
    Fields.foldl_merge_eq_strip hfragments .nil
  rw [hmerged, Value.strip_of_not_isReset hlayered.isReset, Value.get?, Value.get?_stripEntries,
    get?_layered_fragments hdocs]

/-! ## Names -/

/-- Stripping shows the names of a directive and of nothing else. -/
theorem namesIn_strip {v : Value} (h : v.isReset = false) : namesIn (some v.strip) = namesIn (some v) := by
  cases v with
  | map entries =>
    rw [Value.strip_of_not_isReset h]
    rfl
  | _ => rfl

theorem namesIn_of_isReset {v : Value} (h : v.isReset = true) : namesIn (some v) = [] := by
  cases v with
  | map entries => rfl
  | _ => cases h

/-- The names read off the layers are those of the merged field, or none if that was a directive. -/
theorem namesIn_shown (hdocs : ∀ doc ∈ docs, doc.value.isSource = true) (name field : String) :
    namesIn (Value.layers (valuesOf docs name field)) = namesIn (shown docs name field) := by
  rw [shown, get?_merged hdocs, ← Value.isReset_layers]
  cases Value.layers (valuesOf docs name field) with
  | none => rfl
  | some v =>
    cases hr : v.isReset with
    | true =>
      rw [Option.any_some, hr, if_pos rfl]
      exact namesIn_of_isReset hr
    | false =>
      rw [Option.any_some, hr, Option.map_some]
      exact (namesIn_strip hr).symm

theorem normalizeParents_congr {parent parent' parents parents' : Option Value}
    (h : namesIn parent = namesIn parent') (hs : namesIn parents = namesIn parents') :
    normalizeParents parent parents = normalizeParents parent' parents' := by
  rw [normalizeParents, normalizeParents, h, hs]

/-- Folding defines the classes that documents say something about. The parents of each are those that its
merged documents name, except in a field in which the last value that is no list is a directive. -/
theorem parents_of_foldDocuments (hdocs : ∀ doc ∈ docs, doc.value.isSource = true) {classes : Classes}
    (h : foldDocuments docs = .ok classes) (name : String) :
    (Dict.contains classes name = true ↔ fragmentsOf docs name ≠ []) ∧
    ∀ c, Dict.get? classes name = some c →
      c.parents = normalizeParents (shown docs name "parent") (shown docs name "parents") ∧
      (Value.endsInReset (valuesOf docs name "parent") = false →
        Value.endsInReset (valuesOf docs name "parents") = false →
        c.parents =
          normalizeParents ((merged docs name).get? "parent") ((merged docs name).get? "parents")) := by
  refine ⟨contains_foldDocuments_iff h, fun c hc => ?_⟩
  have hshown : c.parents = normalizeParents (shown docs name "parent") (shown docs name "parents") := by
    obtain ⟨last, rfl⟩ := get?_foldDocuments h hc
    rw [ofFields, get?_layered_fragments hdocs, get?_layered_fragments hdocs]
    exact normalizeParents_congr (namesIn_shown hdocs name "parent") (namesIn_shown hdocs name "parents")
  refine ⟨hshown, fun hparent hparents => ?_⟩
  rw [hshown, shown, shown, hparent, hparents]
  rfl

/-- Two documents of a class: one names the parents `p` and `a`, a later one has `v` for `parents`. -/
def amended (v : Value) : List Document :=
  [⟨⟨0, ⟨⟨"a.json"⟩, []⟩⟩, .map [("class", .string "c"), ("parent", .string "p"), ("parents", .strings ["a"])]⟩,
    ⟨⟨0, ⟨⟨"b.json"⟩, []⟩⟩, .map [("class", .string "c"), ("parents", v)]⟩]

theorem sorted_amended (v : Value) : Document.sorted (amended v) = amended v := by
  have hbefore : Provenance.before ⟨0, ⟨⟨"b.json"⟩, []⟩⟩ ⟨0, ⟨⟨"a.json"⟩, []⟩⟩ = false := by decide
  exact List.mergeSort_of_pairwise (List.pairwise_pair.mpr (congrArg (!·) hbefore))

/-- A list of parents is added to those before it. -/
theorem parents_of_foldDocuments_append :
    ∃ classes c, foldDocuments (amended (.strings ["b"])) = .ok classes ∧ Dict.get? classes "c" = some c ∧
      c.parents = ["p", "a", "b"] ∧ Dict.contains classes "d" = false := by
  have hfold : foldDocuments (amended (.strings ["b"])) =
      .ok [("c", ⟨"c", ["p", "a", "b"], none, [], some ⟨0, ⟨⟨"b.json"⟩, []⟩⟩⟩)] := by
    rw [foldDocuments, sorted_amended]
    rfl
  have hshown : normalizeParents (shown (amended (.strings ["b"])) "c" "parent")
      (shown (amended (.strings ["b"])) "c" "parents") = ["p", "a", "b"] := by
    rw [shown, shown, merged, valuesOf, valuesOf, fragmentsOf, sorted_amended]
    rfl
  have hsource : ∀ doc ∈ amended (.strings ["b"]), doc.value.isSource = true := by decide
  have hnone : fragmentsOf (amended (.strings ["b"])) "d" = [] := by
    rw [fragmentsOf, sorted_amended]
    rfl
  have hc := (parents_of_foldDocuments hsource hfold "c").2 _ rfl
  have hd := (parents_of_foldDocuments hsource hfold "d").1
  refine ⟨_, _, hfold, rfl, hc.1.trans hshown, ?_⟩
  rw [hnone] at hd
  simpa using hd

/-- A later document that resets the parents leaves none of the list that it resets them to. -/
theorem parents_miss_reset :
    (∀ doc ∈ amended (.resetTo [.string "b"]), doc.value.isSource = true) ∧
    ∃ classes c, foldDocuments (amended (.resetTo [.string "b"])) = .ok classes ∧
      Dict.get? classes "c" = some c ∧ c.parents = ["p"] ∧
      normalizeParents ((merged (amended (.resetTo [.string "b"])) "c").get? "parent")
        ((merged (amended (.resetTo [.string "b"])) "c").get? "parents") = ["p", "b"] := by
  have hfold : foldDocuments (amended (.resetTo [.string "b"])) =
      .ok [("c", ⟨"c", ["p"], none, [], some ⟨0, ⟨⟨"b.json"⟩, []⟩⟩⟩)] := by
    rw [foldDocuments, sorted_amended]
    rfl
  refine ⟨by decide, _, _, hfold, rfl, rfl, ?_⟩
  rw [merged, fragmentsOf, sorted_amended]
  rfl

end ClassDefinition

end DocModel
