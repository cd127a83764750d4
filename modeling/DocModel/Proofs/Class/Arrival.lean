import DocModel.Proofs.Class.ParentFields
import DocModel.Proofs.Document.Order

/-!
# Class documents in any order of arrival

Class documents are folded in the order of where they came from. So if no two came from the same place, the
order in which they arrive matters neither to the definitions nor to the error, and of two values of a field
the one from the later root, or from the later path, wins.

* `foldDocuments_eq_error_iff`: folding stops at the first document that is bad.
* `valueFor_eq_some_iff`: which documents have a field of a class that is no schema.
* `get?_properties_foldDocuments`: the properties of a class hold the layers of what its documents have.
* `fold_ignores_arrival`: all of it.
-/

namespace DocModel

namespace ClassDefinition

/-- The error that a document stops a fold with. -/
def fault : Document → Option BuildError := Document.refusal? fun doc => fragment doc.provenance.path doc.value

theorem foldStep_failsBy : Except.FailsBy foldStep fault := by
  refine Document.failsBy_refusal? (fun folded doc said hsaid => ?_) (fun folded doc fault hbad => ?_)
  · exact ⟨_, foldStep_eq_ok_iff.mpr ⟨said.1, said.2, hsaid, rfl⟩⟩
  · rw [foldStep, hbad]

variable {docs docs' : List Document} {classes : Classes}

theorem foldDocuments_eq_error_iff {e : BuildError} :
    foldDocuments docs = .error e ↔ (Document.sorted docs).findSome? fault = some e := by
  rw [← foldStep_failsBy.foldlM_eq_error_iff (s := []), foldDocuments]
  exact Except.map_eq_error_iff

theorem exists_fragment_of_foldDocuments (h : foldDocuments docs = .ok classes) :
    ∀ doc ∈ docs, ∃ said, fragment doc.provenance.path doc.value = .ok said := by
  obtain ⟨folded, hfolded, -⟩ := foldDocuments_eq_ok h
  intro doc hdoc
  exact Document.refusal?_eq_none_iff.mp
    (foldStep_failsBy.exists_foldlM_eq_ok_iff.mp ⟨folded, hfolded⟩ doc (Document.mem_sorted.mpr hdoc))

/-! ## Fields -/

/-- The document is no schema file, is about the class and has this value in the field. -/
def Mentions (doc : Document) (name field : String) (v : Value) : Prop :=
  sidecarName? doc.provenance.path = none ∧ doc.value.get? "class" = some (.string name) ∧
    doc.value.get? field = some v

/-- What a document has in a field, if it is about the class. -/
def valueFor (name field : String) (doc : Document) : Option Value :=
  (fragmentFor name doc).bind (Dict.get? · field)

theorem valuesOf_eq_filterMap (docs : List Document) (name field : String) :
    valuesOf docs name field = (Document.sorted docs).filterMap (valueFor name field) := by
  rw [valuesOf, fragmentsOf, List.filterMap_filterMap]
  rfl

/-- A schema file has no field but the schema. -/
theorem valueFor_eq_some_iff {doc : Document} {said : String × Fields}
    (h : fragment doc.provenance.path doc.value = .ok said) {name field : String} (hfield : field ≠ "schema")
    {v : Value} : valueFor name field doc = some v ↔ Mentions doc name field v := by
  rw [valueFor, Option.bind_eq_some_iff, Mentions]
  simp only [fragmentFor_eq_some_iff]
  cases hsidecar : sidecarName? doc.provenance.path with
  | some stem =>
    obtain ⟨body, hbody, -⟩ := fragment_eq_ok h
    simp [hbody, fragment, hsidecar, Dict.get?, Ne.symm hfield]
  | none =>
    obtain ⟨other, body⟩ := said
    obtain ⟨hbody, hother, hne⟩ := (fragment_eq_ok_iff hsidecar).mp h
    simp only [fragment_eq_ok_iff hsidecar, hbody, Value.map.injEq, Value.get?, true_and]
    constructor
    · rintro ⟨_, ⟨rfl, hname, -⟩, hv⟩
      exact ⟨hname, hv⟩
    · rintro ⟨hname, hv⟩
      rw [hother] at hname
      cases hname
      exact ⟨body, ⟨rfl, hother, hne⟩, hv⟩

theorem get?_properties_foldDocuments (hdocs : ∀ doc ∈ docs, doc.value.isReset = false)
    (h : foldDocuments docs = .ok classes) {name : String} {c : ClassDefinition}
    (hc : Dict.get? classes name = some c) (field : String) :
    Dict.get? c.properties field =
      if field ∈ ["schema", "class", "parent", "parents"] then none
      else Value.layers (valuesOf docs name field) := by
  obtain ⟨last, rfl⟩ := get?_foldDocuments h hc
  rw [ofFields, Dict.get?_foldl_erase, get?_layered_of_isReset hdocs]

/-- Folding documents of different places gives the same in whatever order they arrive. It stops at the first
bad document in the order of places. If it succeeds and no document is a directive, a class has the properties
that its documents mention, schema files aside, and what the last of these mentions counts if it is neither
list nor map. -/
theorem fold_ignores_arrival (happart : Document.Apart docs) :
    (∀ docs', docs'.Perm docs → foldDocuments docs' = foldDocuments docs) ∧
    (∀ e, foldDocuments docs = .error e ↔ ∃ doc ∈ docs, fault doc = some e ∧
      ∀ other ∈ docs, (fault other).isSome = true → other = doc ∨ doc.Before other) ∧
    ∀ classes, foldDocuments docs = .ok classes → (∀ doc ∈ docs, doc.value.isReset = false) →
      ∀ name c, Dict.get? classes name = some c →
        ∀ field, (Dict.contains c.properties field = true ↔
            field ∉ ["schema", "class", "parent", "parents"] ∧ ∃ doc ∈ docs, ∃ v, Mentions doc name field v) ∧
          (field ∉ ["schema", "class", "parent", "parents"] → ∀ doc ∈ docs, ∀ v, Mentions doc name field v →
            (∀ other ∈ docs, ∀ w, Mentions other name field w → other = doc ∨ other.Before doc) →
            v.list? = none → v.map? = none → Dict.get? c.properties field = some v) := by
  refine ⟨fun docs' hperm => ?_, fun e => ?_, fun classes h hdocs name c hc field => ?_⟩
  · rw [foldDocuments, foldDocuments, Document.sorted_eq_of_perm happart hperm]
  · rw [foldDocuments_eq_error_iff, Document.findSome?_sorted_eq_some_iff happart]
  have hget := get?_properties_foldDocuments hdocs h hc field
  by_cases hreserved : field ∈ ["schema", "class", "parent", "parents"]
  · rw [if_pos hreserved] at hget
    exact ⟨by simp [Dict.contains, hget, hreserved], fun hnot => absurd hreserved hnot⟩
  rw [if_neg hreserved, valuesOf_eq_filterMap] at hget
  have hfield : field ≠ "schema" := fun heq => hreserved (heq ▸ List.mem_cons_self)
  have hmentions : ∀ doc ∈ docs, ∀ v, valueFor name field doc = some v ↔ Mentions doc name field v := by
    intro doc hdoc v
    obtain ⟨said, hsaid⟩ := exists_fragment_of_foldDocuments h doc hdoc
    exact valueFor_eq_some_iff hsaid hfield
  refine ⟨?_, fun _ doc hdoc v hv hlast hlist hmap => ?_⟩
  · rw [Dict.contains, hget, Value.isSome_layers, Bool.not_eq_true', List.isEmpty_eq_false_iff_exists_mem]
    simp only [List.mem_filterMap, Document.mem_sorted, hreserved, not_false_eq_true, true_and]
    constructor
    · rintro ⟨v, doc, hdoc, hv⟩
      exact ⟨doc, hdoc, v, (hmentions doc hdoc v).mp hv⟩
    · rintro ⟨doc, hdoc, v, hv⟩
      exact ⟨v, doc, hdoc, (hmentions doc hdoc v).mpr hv⟩
  · have hlast : ((Document.sorted docs).filterMap (valueFor name field)).getLast? = some v := by
      refine (Document.getLast?_filterMap_sorted_eq_some_iff happart).mpr
        ⟨doc, hdoc, (hmentions doc hdoc v).mpr hv, fun other hother hsome => ?_⟩
      obtain ⟨w, hw⟩ := Option.isSome_iff_exists.mp hsome
      exact hlast other hother w ((hmentions other hother w).mp hw)
    rw [hget, Value.layers_eq_of_getLast? hlast hlist hmap]

/-- Documents of one class in two roots, the one of the second root first. -/
def overridden : List Document :=
  [⟨⟨1, ⟨⟨"site/c.json"⟩, []⟩⟩, .map [("class", .string "c"), ("x", .string "site")]⟩,
    ⟨⟨0, ⟨⟨"base/c.json"⟩, []⟩⟩, .map [("class", .string "c"), ("x", .string "base"), ("y", .string "base")]⟩]

/-- The second root counts where it has a field, and the first one elsewhere. -/
theorem fold_ignores_arrival_overridden :
    Document.Apart overridden ∧ foldDocuments overridden.reverse = foldDocuments overridden ∧
    ∃ classes c, foldDocuments overridden = .ok classes ∧ Dict.get? classes "c" = some c ∧
      Dict.get? c.properties "x" = some (.string "site") ∧
      Dict.get? c.properties "y" = some (.string "base") := by
  have happart : Document.Apart overridden := by decide
  have hbefore : Provenance.before ⟨1, ⟨⟨"site/c.json"⟩, []⟩⟩ ⟨0, ⟨⟨"base/c.json"⟩, []⟩⟩ = false := by decide
  have hsorted : Document.sorted overridden.reverse = overridden.reverse :=
    List.mergeSort_of_pairwise (List.pairwise_pair.mpr (congrArg (!·) hbefore))
  have hplain : ∀ doc ∈ overridden, doc.value.isReset = false := by decide
  obtain ⟨hperm, -, hfields⟩ := fold_ignores_arrival happart
  have hsame := hperm _ (List.reverse_perm overridden)
  have hfold : foldDocuments overridden = .ok [("c", ⟨"c", [], none,
      [("x", .string "site"), ("y", .string "base")], some ⟨1, ⟨⟨"site/c.json"⟩, []⟩⟩⟩)] := by
    rw [← hsame, foldDocuments, hsorted]
    rfl
  refine ⟨happart, hsame, _, _, hfold, rfl, ?_, ?_⟩
  · refine (hfields _ hfold hplain "c" _ rfl "x").2 (by decide) _ List.mem_cons_self _
      ⟨by decide, rfl, rfl⟩ ?_ rfl rfl
    intro other hother w _
    rcases List.mem_pair.mp hother with rfl | rfl
    · exact .inl rfl
    · exact .inr (by decide)
  · refine (hfields _ hfold hplain "c" _ rfl "y").2 (by decide) _ (List.mem_cons_of_mem _ List.mem_cons_self) _
      ⟨by decide, rfl, rfl⟩ ?_ rfl rfl
    intro other hother w hw
    rcases List.mem_pair.mp hother with rfl | rfl
    · cases hw.2.2
    · exact .inl rfl

end ClassDefinition

end DocModel
