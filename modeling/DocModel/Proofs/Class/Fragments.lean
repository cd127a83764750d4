import DocModel.Class.Fold
import DocModel.Proofs.Dict.Overlay
import DocModel.Proofs.Except

/-!
# What the documents say about a class

Folding class documents keeps them apart by the class that they are about, so that a folded definition holds
the layers of what the documents say about this class and depends on no other.

* `layers_of_foldlM`: what a fold over documents does to one class.
* `get?_foldDocuments`: the definition that the documents give a class.
* `forall_mem_foldDocuments`: what all documents say, layers keep, is so of every folded definition.
-/

namespace DocModel

namespace ClassDefinition

/-- A fragment is the document, or as the schema what a schema file holds. -/
theorem fragment_eq_ok {path : SourcePath} {v : Value} {name : String} {fields : Fields}
    (h : fragment path v = .ok (name, fields)) :
    ∃ body, v = .map body ∧ (fields = body ∨ fields = [("schema", .map (Dict.erase body "class"))]) := by
  cases v with
  | map body =>
    refine ⟨body, rfl, ?_⟩
    rw [fragment] at h
    split at h
    · cases h
      exact .inr rfl
    split at h
    · split at h
      · cases h
      · cases h
        exact .inl rfl
    · cases h
  | _ => simp [fragment] at h

/-- A document that is no schema file is all said about the class that it names. -/
theorem fragment_eq_ok_iff {path : SourcePath} (h : sidecarName? path = none) {v : Value} {name : String}
    {fields : Fields} : fragment path v = .ok (name, fields) ↔
      v = .map fields ∧ Dict.get? fields "class" = some (.string name) ∧ name ≠ "" := by
  cases v with
  | map body =>
    simp only [fragment, h, Value.map.injEq]
    split
    · next other hother =>
      split
      · next hempty =>
        subst hempty
        constructor
        · rintro ⟨⟩
        · rintro ⟨rfl, hname, hne⟩
          rw [hother] at hname
          cases hname
          exact absurd rfl hne
      · next hne =>
        constructor
        · rintro ⟨⟩
          exact ⟨rfl, hother, hne⟩
        · rintro ⟨rfl, hname, -⟩
          rw [hother] at hname
          cases hname
          rfl
    · next hother =>
      constructor
      · rintro ⟨⟩
      · rintro ⟨rfl, hname, -⟩
        exact absurd hname (hother name)
  | _ => simp [fragment]

/-- What a document says about a class, if it is about this one. -/
def fragmentFor (name : String) (doc : Document) : Option Fields :=
  match fragment doc.provenance.path doc.value with
  | .ok (other, fields) => if other = name then some fields else none
  | .error _ => none

theorem fragmentFor_eq_some_iff {name : String} {doc : Document} {fields : Fields} :
    fragmentFor name doc = some fields ↔ fragment doc.provenance.path doc.value = .ok (name, fields) := by
  rw [fragmentFor]
  cases fragment doc.provenance.path doc.value with
  | error fault => simp
  | ok body => simp [Prod.ext_iff]

/-- What the documents say about a class, in the order of their provenance. -/
def fragmentsOf (docs : List Document) (name : String) : List Fields :=
  (Document.sorted docs).filterMap (fragmentFor name)

theorem mem_fragmentsOf_iff {docs : List Document} {name : String} {fields : Fields} :
    fields ∈ fragmentsOf docs name ↔
      ∃ doc ∈ docs, fragment doc.provenance.path doc.value = .ok (name, fields) := by
  simp only [fragmentsOf, List.mem_filterMap, fragmentFor_eq_some_iff, Document.sorted, List.mem_mergeSort]

/-- Fragments as layers on what may be there. -/
def layersOn (below : Option Fields) (fragments : List Fields) : Option Fields :=
  fragments.foldl (fun below fields => some (Fields.layer (below.getD []) fields)) below

theorem layersOn_some (below : Fields) (fragments : List Fields) :
    layersOn (some below) fragments = some (fragments.foldl Fields.layer below) := by
  induction fragments generalizing below with
  | nil => rfl
  | cons fields rest ih => exact ih (Fields.layer below fields)

theorem layersOn_none_eq_some {fragments : List Fields} {fields : Fields}
    (h : layersOn none fragments = some fields) :
    fragments ≠ [] ∧ fields = fragments.foldl Fields.layer [] := by
  cases fragments with
  | nil => cases h
  | cons first rest =>
    refine ⟨List.cons_ne_nil _ _, ?_⟩
    have hsome := (layersOn_some (Fields.layer [] first) rest).symm.trans h
    exact (Option.some.inj hsome).symm

/-! ## Folding -/

theorem foldStep_eq_ok_iff {folded folded' : Dict Folded} {doc : Document} :
    foldStep folded doc = .ok folded' ↔
      ∃ name fields, fragment doc.provenance.path doc.value = .ok (name, fields) ∧
        folded' = Dict.insert folded name
          ⟨Fields.layer (((Dict.get? folded name).map Folded.fields).getD []) fields, doc.provenance⟩ := by
  rw [foldStep]
  cases fragment doc.provenance.path doc.value with
  | error fault => simp
  | ok body =>
    obtain ⟨name, fields⟩ := body
    constructor
    · intro h
      refine ⟨name, fields, rfl, ?_⟩
      cases hget : Dict.get? folded name <;> simpa [hget, eq_comm] using h
    · rintro ⟨_, _, heq, rfl⟩
      cases heq
      cases hget : Dict.get? folded name <;> simp [hget]

/-- A fold layers what the documents say about a class on what is known of it, and nothing else. -/
theorem layers_of_foldlM {docs : List Document} {folded folded' : Dict Folded}
    (h : docs.foldlM foldStep folded = .ok folded') (name : String) :
    (Dict.get? folded' name).map Folded.fields =
      layersOn ((Dict.get? folded name).map Folded.fields) (docs.filterMap (fragmentFor name)) := by
  induction docs generalizing folded with
  | nil => cases h; rfl
  | cons doc docs ih =>
    obtain ⟨next, hstep, hfold⟩ := Except.foldlM_cons_eq_ok_iff.mp h
    obtain ⟨other, fields, hfragment, rfl⟩ := foldStep_eq_ok_iff.mp hstep
    have hfor : fragmentFor name doc = if other = name then some fields else none := by
      rw [fragmentFor, hfragment]
    rw [ih hfold, Dict.get?_insert, List.filterMap_cons, hfor]
    -- Only a document about this class adds a layer; one about another leaves its entry alone.
    by_cases ho : name = other
    · subst ho
      rw [if_pos rfl, if_pos rfl]
      rfl
    · rw [if_neg ho, if_neg (Ne.symm ho)]

theorem foldDocuments_eq_ok {docs : List Document} {classes : Classes} (h : foldDocuments docs = .ok classes) :
    ∃ folded, (Document.sorted docs).foldlM foldStep [] = .ok folded ∧
      classes = Dict.mapEntries (fun name known => ofFields name known.fields known.last) folded := by
  obtain ⟨folded, hfolded, hclasses⟩ := Except.bind_eq_ok_iff.mp h
  cases hclasses
  exact ⟨folded, hfolded, rfl⟩

/-- The definition that documents give a class is that of the layers of what they say about it. -/
theorem get?_foldDocuments {docs : List Document} {classes : Classes} (h : foldDocuments docs = .ok classes)
    {name : String} {c : ClassDefinition} (hc : Dict.get? classes name = some c) :
    ∃ last, c = ofFields name ((fragmentsOf docs name).foldl Fields.layer []) last := by
  obtain ⟨folded, hfolded, rfl⟩ := foldDocuments_eq_ok h
  rw [Dict.get?_mapEntries] at hc
  obtain ⟨known, hknown, rfl⟩ := Option.map_eq_some_iff.mp hc
  have hlayers := layers_of_foldlM hfolded name
  rw [hknown] at hlayers
  obtain ⟨-, hfields⟩ := layersOn_none_eq_some hlayers.symm
  exact ⟨known.last, by rw [hfields]; rfl⟩

/-- Folded definitions are in the order of their names. -/
theorem ordered_foldDocuments {docs : List Document} {classes : Classes} (h : foldDocuments docs = .ok classes) :
    Dict.Ordered classes := by
  obtain ⟨folded, hfolded, rfl⟩ := foldDocuments_eq_ok h
  rw [Dict.Ordered, Dict.keys_mapEntries]
  refine Except.foldlM_keeps (P := Dict.Ordered) (fun doc _ folded next hordered hstep => ?_) .nil hfolded
  obtain ⟨name, fields, -, rfl⟩ := foldStep_eq_ok_iff.mp hstep
  exact hordered.insert _ _

/-- Documents define the classes that they say something about. -/
theorem contains_foldDocuments_iff {docs : List Document} {classes : Classes}
    (h : foldDocuments docs = .ok classes) {name : String} :
    Dict.contains classes name = true ↔ fragmentsOf docs name ≠ [] := by
  obtain ⟨folded, hfolded, rfl⟩ := foldDocuments_eq_ok h
  have hlayers : (Dict.get? folded name).map Folded.fields = layersOn none (fragmentsOf docs name) :=
    layers_of_foldlM hfolded name
  rw [Dict.contains, Dict.get?_mapEntries, Option.isSome_map, ← Option.isSome_map (f := Folded.fields), hlayers]
  cases hfragments : fragmentsOf docs name with
  | nil => simp [layersOn]
  | cons first rest =>
    have hsome := layersOn_some (Fields.layer [] first) rest
    simp only [ne_eq, List.cons_ne_nil, not_false_eq_true, iff_true]
    show (layersOn (some (Fields.layer [] first)) rest).isSome = true
    rw [hsome]
    rfl

/-- What layers keep and all documents have, the fields of all folded definitions have. -/
theorem forall_mem_foldDocuments {P : Fields → Prop} (hnil : P [])
    (hlayer : ∀ below fields, P below → P fields → P (below.layer fields)) {docs : List Document}
    (hdocs : ∀ doc ∈ docs, ∀ name fields,
      fragment doc.provenance.path doc.value = .ok (name, fields) → P fields)
    {classes : Classes} (h : foldDocuments docs = .ok classes) :
    ∀ e ∈ classes, ∃ fields last, P fields ∧ e.2 = ofFields e.1 fields last := by
  obtain ⟨folded, hfolded, rfl⟩ := foldDocuments_eq_ok h
  have hall : ∀ e ∈ folded, P e.2.fields := by
    refine Except.foldlM_keeps (P := fun folded : Dict Folded => ∀ e ∈ folded, P e.2.fields) ?_ (by simp) hfolded
    intro doc hdoc folded next hf hstep
    obtain ⟨name, fields, hfragment, rfl⟩ := foldStep_eq_ok_iff.mp hstep
    have hfields := hdocs doc (List.mem_mergeSort.mp hdoc) name fields hfragment
    refine Dict.forall_mem_insert (P := fun known : Folded => P known.fields) hf (hlayer _ _ ?_ hfields)
    cases hget : Dict.get? folded name with
    | none => exact hnil
    | some known => exact hf _ (Dict.mem_of_get? hget)
  intro e he
  obtain ⟨known, hknown, rfl⟩ := List.mem_map.mp he
  exact ⟨known.2.fields, known.2.last, hall known hknown, rfl⟩

end ClassDefinition

end DocModel
