import DocModel.Proofs.Snapshot.Content

/-!
# Instances and their documents

An instance that was read from a document is written as a document that is read as the same instance. Reading
fails for a class or a list of directives of the wrong shape, and for nothing else.

* `BuildDirective.ofEntries_eq_ok_iff`: which lists are directives, and which directives they are.
* `Instance.ofFields_eq_ok_iff`: which documents are instances, and which instances they are.
* `Instance.ofFields_toFields`: an instance without a property in the place of a part is read back.
* `Instance.document_round_trip`: all of it.
-/

namespace DocModel

namespace BuildDirective

/-! ## Directives -/

/-- An entry of a `build` list: a template, or a map of templates with a filename each. -/
def IsEntry (v : Value) : Prop :=
  (∃ template, v = .string template) ∨
    ∃ pairs, v = .map pairs ∧ ∀ pair ∈ pairs, ∃ filename, pair.2 = .string filename

/-- The directives of an entry; a map stands for one for each of its templates, in their order. -/
def directivesIn : Value → List BuildDirective
  | .string template => [⟨template, none⟩]
  | .map pairs => pairs.filterMap fun pair => pair.2.string?.map fun filename => ⟨pair.1, some filename⟩
  | _ => []

theorem ofPairs_eq_ok_iff {pairs : List (String × Value)} {directives : List BuildDirective} :
    ofPairs pairs = .ok directives ↔
      (∀ pair ∈ pairs, ∃ filename, pair.2 = .string filename) ∧ directives = directivesIn (.map pairs) := by
  induction pairs generalizing directives with
  | nil => simp [ofPairs, directivesIn, eq_comm]
  | cons pair rest ih =>
    obtain ⟨template, v⟩ := pair
    rw [List.forall_mem_cons]
    cases v with
    | string filename =>
      rw [ofPairs, Except.bind_eq_ok_iff]
      constructor
      · rintro ⟨more, hmore, heq⟩
        obtain ⟨hrest, rfl⟩ := ih.mp hmore
        exact ⟨⟨⟨filename, rfl⟩, hrest⟩, (Except.ok.inj heq).symm⟩
      · rintro ⟨⟨-, hrest⟩, rfl⟩
        exact ⟨_, ih.mpr ⟨hrest, rfl⟩, rfl⟩
    | _ => exact ⟨nofun, fun ⟨⟨⟨_, hstring⟩, _⟩, _⟩ => nomatch hstring⟩

theorem ofEntry_eq_ok_iff {v : Value} {directives : List BuildDirective} :
    ofEntry v = .ok directives ↔ IsEntry v ∧ directives = directivesIn v := by
  cases v with
  | string template => simp [ofEntry, IsEntry, directivesIn, eq_comm]
  | map pairs => simp [ofEntry, IsEntry, ofPairs_eq_ok_iff]
  | _ => simp [ofEntry, IsEntry]

/-- A list of entries stands for the directives of the entries, one after the other. -/
theorem ofEntries_eq_ok_iff {entries : List Value} {directives : List BuildDirective} :
    ofEntries entries = .ok directives ↔
      (∀ v ∈ entries, IsEntry v) ∧ directives = entries.flatMap directivesIn := by
  induction entries generalizing directives with
  | nil => simp [ofEntries, eq_comm]
  | cons v rest ih =>
    rw [ofEntries, Except.bind_eq_ok_iff, List.forall_mem_cons, List.flatMap_cons]
    constructor
    · rintro ⟨first, hfirst, hothers⟩
      obtain ⟨more, hmore, heq⟩ := Except.bind_eq_ok_iff.mp hothers
      obtain ⟨hv, rfl⟩ := ofEntry_eq_ok_iff.mp hfirst
      obtain ⟨hrest, rfl⟩ := ih.mp hmore
      exact ⟨⟨hv, hrest⟩, (Except.ok.inj heq).symm⟩
    · rintro ⟨⟨hv, hrest⟩, rfl⟩
      exact ⟨_, ofEntry_eq_ok_iff.mpr ⟨hv, rfl⟩, Except.bind_eq_ok_iff.mpr ⟨_, ih.mpr ⟨hrest, rfl⟩, rfl⟩⟩

theorem isEntry_toValue (d : BuildDirective) : IsEntry d.toValue := by
  obtain ⟨template, filename⟩ := d
  cases filename with
  | none => exact .inl ⟨template, rfl⟩
  | some filename => exact .inr ⟨_, rfl, List.forall_mem_singleton.mpr ⟨filename, rfl⟩⟩

theorem directivesIn_toValue (d : BuildDirective) : directivesIn d.toValue = [d] := by
  obtain ⟨template, filename⟩ := d
  cases filename <;> rfl

/-- Directives are read back from their entries, in their order. -/
theorem ofValue_map_toValue (directives : List BuildDirective) :
    ofValue (.list (directives.map toValue)) = .ok directives := by
  refine ofEntries_eq_ok_iff.mpr ⟨List.forall_mem_map.mpr fun d _ => isEntry_toValue d, ?_⟩
  rw [List.flatMap_map]
  simp only [directivesIn_toValue, List.flatMap_singleton']

end BuildDirective

namespace Instance

/-! ## Documents -/

/-- What a document can have for its class: nothing, null or a name. -/
def FitsClass (v : Option Value) : Prop := v = none ∨ v = some .null ∨ ∃ name, v = some (.string name)

/-- What a document can have for its directives: nothing, null or a list of entries. -/
def FitsBuild (v : Option Value) : Prop :=
  v = none ∨ v = some .null ∨ ∃ entries, v = some (.list entries) ∧ ∀ entry ∈ entries, BuildDirective.IsEntry entry

theorem classRefOf_eq_ok_iff {id : String} {v : Option Value} {classRef : Option String} :
    classRefOf id v = .ok classRef ↔ FitsClass v ∧ classRef = v.bind Value.string? := by
  rw [classRefOf.eq_def]
  split <;> simp_all [FitsClass, Value.string?, eq_comm]

/-- The directives of a document. -/
def directivesOf (v : Option Value) : List BuildDirective :=
  ((v.bind Value.list?).getD []).flatMap BuildDirective.directivesIn

theorem ofValue_eq_ok_iff {v : Value} {directives : List BuildDirective} :
    BuildDirective.ofValue v = .ok directives ↔
      (∃ entries, v = .list entries ∧ ∀ entry ∈ entries, BuildDirective.IsEntry entry) ∧
        directives = directivesOf (some v) := by
  cases v with
  | list entries => simp [BuildDirective.ofValue, BuildDirective.ofEntries_eq_ok_iff, directivesOf, Value.list?]
  | _ => simp [BuildDirective.ofValue]

theorem buildOf_eq_ok_iff {id : String} {v : Option Value} {directives : List BuildDirective} :
    buildOf id v = .ok directives ↔ FitsBuild v ∧ directives = directivesOf v := by
  rw [buildOf.eq_def]
  split
  · simp [FitsBuild, directivesOf, eq_comm]
  · simp [FitsBuild, directivesOf, Value.list?, eq_comm]
  · next v hnull =>
    have hvalue := @ofValue_eq_ok_iff v directives
    have hfits : FitsBuild (some v) ↔
        ∃ entries, v = .list entries ∧ ∀ entry ∈ entries, BuildDirective.IsEntry entry := by
      simp only [FitsBuild, reduceCtorEq, Option.some.injEq, false_or]
      exact or_iff_right hnull
    rw [hfits, ← hvalue]
    cases BuildDirective.ofValue v <;> simp

/-- A document is an instance if its class and its directives have their shapes. -/
theorem ofFields_eq_ok_iff {id : String} {fields : Fields} {i : Instance} :
    ofFields id fields = .ok i ↔
      FitsClass (Dict.get? fields "class") ∧ FitsBuild (Dict.get? fields "build") ∧
        i = { id
              classRef := (Dict.get? fields "class").bind Value.string?
              properties := partNames.foldl Dict.erase fields
              build := directivesOf (Dict.get? fields "build") } := by
  constructor
  · intro h
    obtain ⟨hid, hclass, hbuild, hproperties⟩ := ofFields_eq_ok h
    obtain ⟨hfitsClass, hclassRef⟩ := classRefOf_eq_ok_iff.mp hclass
    obtain ⟨hfitsBuild, hdirectives⟩ := buildOf_eq_ok_iff.mp hbuild
    obtain ⟨_, classRef, properties, build⟩ := i
    obtain rfl : classRef = _ := hclassRef
    obtain rfl : properties = _ := hproperties
    obtain rfl : build = _ := hdirectives
    exact ⟨hfitsClass, hfitsBuild, hid ▸ rfl⟩
  · rintro ⟨hclass, hbuild, rfl⟩
    exact Except.bind_eq_ok_iff.mpr ⟨_, classRefOf_eq_ok_iff.mpr ⟨hclass, rfl⟩,
      Except.bind_eq_ok_iff.mpr ⟨_, buildOf_eq_ok_iff.mpr ⟨hbuild, rfl⟩, rfl⟩⟩

/-- The parts of an instance are all that its document has beside the properties. -/
theorem erase_parts_toFields (i : Instance) :
    partNames.foldl Dict.erase i.toFields = partNames.foldl Dict.erase i.properties := by
  have hid : "id" ∈ partNames := by decide
  have hclass : "class" ∈ partNames := by decide
  have hbuild : "build" ∈ partNames := by decide
  rw [toFields]
  cases i.classRef <;> split <;>
    simp only [Dict.foldl_erase_insert hid, Dict.foldl_erase_insert hclass, Dict.foldl_erase_insert hbuild]

/-- An instance is read back from its document if no property stands in the place of a part. -/
theorem ofFields_toFields {i : Instance} (h : i.IsFree)
    (hproperties : partNames.foldl Dict.erase i.properties = i.properties) :
    ofFields i.id i.toFields = .ok i := by
  have hclass : Dict.get? i.toFields "class" = i.classRef.map .string := by
    simp [get?_toFields h]
  have hbuild : Dict.get? i.toFields "build" =
      if i.build.isEmpty then none else some (.list (i.build.map BuildDirective.toValue)) := by
    simp [get?_toFields h]
  refine Except.bind_eq_ok_iff.mpr ⟨i.classRef, ?_, Except.bind_eq_ok_iff.mpr ⟨i.build, ?_, ?_⟩⟩
  · rw [hclass]
    cases i.classRef <;> rfl
  · rw [hbuild]
    -- An empty list has been left out.
    cases hdirectives : i.build with
    | nil => rfl
    | cons d rest =>
      rw [← hdirectives]
      simp only [List.isEmpty_iff, hdirectives, reduceCtorEq, if_false]
      rw [buildOf, BuildDirective.ofValue_map_toValue]
      exact nofun
  · rw [← partNames, erase_parts_toFields, hproperties]
    rfl

/-- An instance that was read from a document is written as a map with its id, from which the same instance is
read again; beside its class and its directives this is the map that it was read from. Directives are read back
from a list of their documents. Reading fails exactly if the class is there and neither null nor a name, or the
directives are there and neither null nor a list of templates and of maps of filenames by template. -/
theorem document_round_trip (id : String) (fields : Fields) :
    (∀ i, ofFields id fields = .ok i → ∃ doc, i.toValue = .map doc ∧
      Dict.get? doc "id" = some (.string id) ∧ ofFields id doc = .ok i ∧
      ∀ key, key ∉ partNames → Dict.get? doc key = Dict.get? fields key) ∧
    (∀ directives : List BuildDirective,
      BuildDirective.ofValue (.list (directives.map BuildDirective.toValue)) = .ok directives) ∧
    ((∃ e, ofFields id fields = .error e) ↔
      ¬ FitsClass (Dict.get? fields "class") ∨ ¬ FitsBuild (Dict.get? fields "build")) := by
  refine ⟨fun i h => ?_, BuildDirective.ofValue_map_toValue, ?_⟩
  · have hfree := isFree_of_ofFields h
    obtain ⟨rfl, -, -, hproperties⟩ := ofFields_eq_ok h
    refine ⟨i.toFields, rfl, by simp [get?_toFields hfree], ofFields_toFields hfree ?_, fun key hkey => ?_⟩
    · rw [hproperties]
      exact Dict.foldl_erase_foldl_erase partNames fields
    · obtain ⟨hid, hclass, hbuild⟩ : key ≠ "id" ∧ key ≠ "class" ∧ key ≠ "build" := by
        simpa [partNames] using hkey
      rw [get?_toFields hfree, if_neg hid, if_neg hclass, if_neg hbuild, hproperties, Dict.get?_foldl_erase]
      exact if_neg hkey
  · rw [← not_and_or]
    cases h : ofFields id fields with
    | ok i =>
      obtain ⟨hclass, hbuild, -⟩ := ofFields_eq_ok_iff.mp h
      refine ⟨fun hfails => ?_, fun hnot => absurd ⟨hclass, hbuild⟩ hnot⟩
      obtain ⟨_, he⟩ := hfails
      cases he
    | error e =>
      refine ⟨fun _ hfits => ?_, fun _ => ⟨e, rfl⟩⟩
      obtain ⟨i, hi⟩ : ∃ i, ofFields id fields = .ok i := ⟨_, ofFields_eq_ok_iff.mpr ⟨hfits.1, hfits.2, rfl⟩⟩
      rw [h] at hi
      cases hi

/-- A map of several filenames comes back as one map for each of them, and an empty list is left out. -/
example :
    ofFields "a" [("build", .list [.map [("p", .string "x"), ("q", .string "y")]]), ("class", .null)] =
        .ok ⟨"a", none, [], [⟨"p", some "x"⟩, ⟨"q", some "y"⟩]⟩ ∧
      toFields ⟨"a", none, [], [⟨"p", some "x"⟩, ⟨"q", some "y"⟩]⟩ =
        [("build", .list [.map [("p", .string "x")], .map [("q", .string "y")]]), ("id", .string "a")] := ⟨rfl, rfl⟩

end Instance

end DocModel
