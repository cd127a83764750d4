import DocModel.Proofs.Class.Ancestors
import DocModel.Proofs.Class.Provenance
import DocModel.Proofs.Class.Requirements
import DocModel.Proofs.Instance.Loading
import DocModel.Proofs.Value.Text

/-!
# The hashed text tells the model

The text that the content hash is the digest of shows the whole model. A class document has the parts of the
definition under names that its properties do not use, so each part is found in it again, and so it is for
instances; and values without doubles are known from their text.

* `ClassDefinition.eq_of_toFields`, `Instance.eq_of_toFields`: documents tell definitions and instances.
* `ClassDefinition.isFree_of_resolveClasses`, `Instance.isFree_of_ofFields`: which names properties do not use.
* `Snapshot.contentText_tells_model`: all of it.
-/

namespace DocModel

/-- What is listed is known from the list, also where an empty list is left out. -/
theorem Value.nonempty_list_inj {α : Type} {f : α → Value} (hf : Function.Injective f) {xs ys : List α}
    (h : (if xs.isEmpty then none else some (Value.list (xs.map f))) =
      if ys.isEmpty then none else some (Value.list (ys.map f))) : xs = ys := by
  cases xs with
  | nil =>
    cases ys with
    | nil => rfl
    | cons y ys => cases h
  | cons x xs =>
    cases ys with
    | nil => cases h
    | cons y ys => exact List.map_injective_iff.mpr hf (Value.list.inj (Option.some.inj h))

theorem Value.isIntegral_strings (items : List String) : (Value.strings items).isIntegral = true := by
  refine Value.isIntegral_list_iff.mpr fun v hv => ?_
  obtain ⟨s, -, rfl⟩ := List.mem_map.mp hv
  rfl

/-! ## Classes -/

namespace ClassDefinition

/-- The names that a document has the parts of a definition under. -/
def partNames : List String := ["class", "parents", "schema"]

/-- Properties that are named otherwise than the parts. -/
def IsFree (c : ClassDefinition) : Prop := ∀ name ∈ partNames, Dict.get? c.properties name = none

instance (c : ClassDefinition) : Decidable c.IsFree := inferInstanceAs (Decidable (∀ name ∈ partNames, _))

/-- A definition that is read back from its document and whose document is read back from its text: its
properties are in order and named otherwise than its parts, and no number in it is a double. -/
structure IsHashable (c : ClassDefinition) : Prop where
  ordered : Dict.Ordered c.properties
  free : c.IsFree
  schema : ∀ v, c.schema = some v → v.isIntegral = true
  properties : (Value.map c.properties).isIntegral = true

variable {c c' : ClassDefinition}

/-- What a document has under the name of a part. -/
def part (c : ClassDefinition) (name : String) : Option Value :=
  if name = "class" then some (.string c.name)
  else if name = "parents" then (if c.parents.isEmpty then none else some (.strings c.parents))
  else if name = "schema" then c.schema
  else none

/-- The entries that a document begins with. -/
def partEntries (c : ClassDefinition) : Fields :=
  partNames.filterMap fun name => (c.part name).map ((name, ·))

theorem toFields_eq_ofList (c : ClassDefinition) : c.toFields = Dict.ofList (c.partEntries ++ c.properties) := by
  rw [toFields, partEntries]
  cases hparents : c.parents.isEmpty <;> cases hschema : c.schema <;> simp [partNames, part, hparents, hschema]

theorem get?_partEntries (c : ClassDefinition) (key : String) :
    Dict.get? c.partEntries key = if key ∈ partNames then c.part key else none :=
  Dict.get?_filterMap c.part partNames key

theorem get?_toFields (h : c.IsHashable) (key : String) :
    Dict.get? c.toFields key = (Dict.get? c.partEntries key).or (Dict.get? c.properties key) := by
  have hparts : (Dict.keys c.partEntries).Sublist partNames := Dict.keys_filterMap_sublist c.part partNames
  have hdisjoint : ∀ a ∈ Dict.keys c.partEntries, ∀ b ∈ Dict.keys c.properties, a ≠ b := by
    rintro a ha _ hb rfl
    have hnone := h.free a (hparts.subset ha)
    rw [Dict.get?_eq_none_iff, ← Bool.not_eq_true, Dict.contains_eq_true_iff] at hnone
    exact hnone hb
  have hnodup : (Dict.keys (c.partEntries ++ c.properties)).Nodup := by
    rw [Dict.keys, List.map_append]
    exact List.nodup_append.mpr ⟨hparts.nodup (by decide), h.ordered.nodup, hdisjoint⟩
  rw [toFields_eq_ofList, Dict.get?_ofList hnodup, Dict.get?_append]

theorem get?_toFields_of_mem (h : c.IsHashable) {key : String} (hkey : key ∈ partNames) :
    Dict.get? c.toFields key = c.part key := by
  rw [get?_toFields h, get?_partEntries, if_pos hkey, h.free key hkey, Option.or_none]

theorem get?_properties (h : c.IsHashable) (key : String) :
    Dict.get? c.properties key = if key ∈ partNames then none else Dict.get? c.toFields key := by
  split
  · next hkey => exact h.free key hkey
  · next hkey => rw [get?_toFields h, get?_partEntries, if_neg hkey, Option.none_or]

/-- A definition is known from its document, but for where it came from. -/
theorem eq_of_toFields (h : c.IsHashable) (h' : c'.IsHashable) (heq : c.toFields = c'.toFields) :
    c.withoutProvenance = c'.withoutProvenance := by
  have hpart : ∀ key ∈ partNames, c.part key = c'.part key := by
    intro key hkey
    rw [← get?_toFields_of_mem h hkey, heq, get?_toFields_of_mem h' hkey]
  have hname : c.name = c'.name := by simpa [part] using hpart "class" (by decide)
  have hparents : c.parents = c'.parents :=
    Value.nonempty_list_inj (fun _ _ => Value.string.inj) (hpart "parents" (by decide))
  have hschema : c.schema = c'.schema := hpart "schema" (by decide)
  have hproperties : c.properties = c'.properties := by
    refine h.ordered.ext h'.ordered fun key => ?_
    rw [get?_properties h, get?_properties h', heq]
  rw [withoutProvenance, withoutProvenance, hname, hparents, hschema, hproperties]

theorem isIntegral_of_part (h : c.IsHashable) {name : String} {v : Value} (hv : c.part name = some v) :
    v.isIntegral = true := by
  rw [part] at hv
  split at hv
  · cases hv; rfl
  split at hv
  · split at hv
    · cases hv
    · cases hv; exact Value.isIntegral_strings c.parents
  split at hv
  · exact h.schema v hv
  · cases hv

theorem isIntegral_toValue (h : c.IsHashable) : c.toValue.isIntegral = true := by
  refine Value.isIntegral_map_iff.mpr ?_
  rw [toFields_eq_ofList]
  refine Dict.forall_mem_ofList (P := fun v : Value => v.isIntegral = true) fun e he => ?_
  rcases List.mem_append.mp he with hpart | hproperty
  · obtain ⟨name, -, hname⟩ := List.mem_filterMap.mp hpart
    obtain ⟨v, hv, rfl⟩ := Option.map_eq_some_iff.mp hname
    exact isIntegral_of_part h hv
  · exact Value.isIntegral_map_iff.mp h.properties e hproperty

/-! ### Names that properties do not use -/

theorem isFree_of_foldDocuments {docs : List Document} {own : Classes} (h : foldDocuments docs = .ok own) :
    ∀ e ∈ own, e.2.IsFree := by
  intro e he
  obtain ⟨folded, -, rfl⟩ := foldDocuments_eq_ok h
  obtain ⟨known, -, rfl⟩ := List.mem_map.mp he
  intro name hname
  show Dict.get? (["schema", "class", "parent", "parents"].foldl Dict.erase known.2.fields) name = none
  rw [Dict.get?_foldl_erase, if_pos]
  revert name
  decide

theorem isFree_of_resolveClasses {docs : List Document} {resolved : ResolvedClasses}
    (h : resolveClasses docs = .ok resolved) : ∀ e ∈ resolved.classes, e.2.IsFree := by
  obtain ⟨own, hown, hall⟩ := Except.bind_eq_ok_iff.mp h
  refine Resolver.forall_mem_resolveAll (O := IsFree) (Q := IsFree) ?_ (isFree_of_foldDocuments hown) hall
  intro r name c hresolved hc key hkey
  rw [Dict.get?_eq_none_iff, ← Bool.not_eq_true]
  intro hcontains
  -- A property of a flattened class is one of its own or of a parent.
  have hflat := (Classes.cumulative_contains key).flatOn name (c.parents.filterMap (Dict.get? r.resolved)) c
  rcases hflat.mp hcontains with hcontains | ⟨p, hp, hcontains⟩
  · rw [Dict.contains, hc key hkey] at hcontains
    cases hcontains
  · obtain ⟨parent, -, hparent⟩ := List.mem_filterMap.mp hp
    rw [Dict.contains, hresolved _ (Dict.mem_of_get? hparent) key hkey] at hcontains
    cases hcontains

end ClassDefinition

/-! ## Instances -/

/-- A bare directive is a text and a named one a map, so neither is taken for the other. -/
theorem BuildDirective.toValue_injective : Function.Injective BuildDirective.toValue := by
  rintro ⟨template, filename⟩ ⟨template', filename'⟩ h
  cases filename <;> cases filename' <;> simp_all [BuildDirective.toValue]

namespace Instance

/-- The names that a document has the parts of an instance under. -/
def partNames : List String := ["id", "class", "build"]

/-- Properties that are named otherwise than the parts. -/
def IsFree (i : Instance) : Prop := ∀ name ∈ partNames, Dict.get? i.properties name = none

instance (i : Instance) : Decidable i.IsFree := inferInstanceAs (Decidable (∀ name ∈ partNames, _))

/-- An instance that is read back from its document and whose document is read back from its text. -/
structure IsHashable (i : Instance) : Prop where
  ordered : Dict.Ordered i.properties
  free : i.IsFree
  properties : (Value.map i.properties).isIntegral = true

variable {i i' : Instance}

theorem get?_toFields (h : i.IsFree) (key : String) : Dict.get? i.toFields key =
    if key = "id" then some (.string i.id)
    else if key = "class" then i.classRef.map .string
    else if key = "build" then
      (if i.build.isEmpty then none else some (.list (i.build.map BuildDirective.toValue)))
    else Dict.get? i.properties key := by
  have hclass := h "class" (by decide)
  have hbuild := h "build" (by decide)
  rw [toFields]
  by_cases hkey : key = "build"
  · subst hkey
    cases i.classRef <;> cases i.build <;> simp [Dict.get?_insert, hbuild]
  by_cases hkey' : key = "class"
  · subst hkey'
    cases i.classRef <;> cases i.build <;> simp [Dict.get?_insert, hclass]
  · cases i.classRef <;> cases i.build <;> simp [Dict.get?_insert, hkey, hkey']

/-- An instance is known from its document. -/
theorem eq_of_toFields (h : i.IsHashable) (h' : i'.IsHashable) (heq : i.toFields = i'.toFields) : i = i' := by
  have hget : ∀ key, Dict.get? i.toFields key = Dict.get? i'.toFields key := fun key => by rw [heq]
  simp only [get?_toFields h.free, get?_toFields h'.free] at hget
  have hid : i.id = i'.id := by simpa using hget "id"
  have hclass : i.classRef = i'.classRef :=
    Option.map_injective (fun _ _ => Value.string.inj) (by simpa using hget "class")
  have hbuild : i.build = i'.build :=
    Value.nonempty_list_inj BuildDirective.toValue_injective (by simpa using hget "build")
  have hproperties : i.properties = i'.properties := by
    refine h.ordered.ext h'.ordered fun key => ?_
    by_cases hkey : key ∈ partNames
    · rw [h.free key hkey, h'.free key hkey]
    · simp only [partNames, List.mem_cons, List.not_mem_nil, or_false, not_or] at hkey
      simpa [hkey.1, hkey.2.1, hkey.2.2] using hget key
  obtain ⟨id, classRef, properties, build⟩ := i
  obtain rfl : id = i'.id := hid
  obtain rfl : classRef = i'.classRef := hclass
  obtain rfl : properties = i'.properties := hproperties
  obtain rfl : build = i'.build := hbuild
  rfl

theorem isIntegral_toValue (h : i.IsHashable) : i.toValue.isIntegral = true := by
  have hbuild : (Value.list (i.build.map BuildDirective.toValue)).isIntegral = true := by
    refine Value.isIntegral_list_iff.mpr fun v hv => ?_
    obtain ⟨⟨template, filename⟩, -, rfl⟩ := List.mem_map.mp hv
    cases filename <;> rfl
  have hinsert : ∀ {fields : Fields} {key : String} {v : Value}, (∀ e ∈ fields, e.2.isIntegral = true) →
      v.isIntegral = true → ∀ e ∈ Dict.insert fields key v, e.2.isIntegral = true := by
    intro fields key v
    exact Dict.forall_mem_insert (P := fun v : Value => v.isIntegral = true)
  have hid : ∀ e ∈ Dict.insert i.properties "id" (.string i.id), e.2.isIntegral = true :=
    hinsert (Value.isIntegral_map_iff.mp h.properties) rfl
  refine Value.isIntegral_map_iff.mpr ?_
  rw [toFields]
  cases i.classRef with
  | none => split; exacts [hid, hinsert hid hbuild]
  | some name => split; exacts [hinsert hid rfl, hinsert (hinsert hid rfl) hbuild]

/-! ### Names that properties do not use -/

theorem isFree_of_ofFields {id : String} {fields : Fields} (h : ofFields id fields = .ok i) : i.IsFree := by
  obtain ⟨-, -, -, hproperties⟩ := ofFields_eq_ok h
  intro name hname
  rw [hproperties, Dict.get?_foldl_erase]
  exact if_pos hname

end Instance

/-! ## Snapshots -/

namespace Snapshot

/-- Where a map tells what matters of its arguments, mapped lists do. -/
theorem map_congr_of_map_eq {α β γ : Type} {f : α → β} {g : α → γ} {P : α → Prop}
    (hfg : ∀ a b, P a → P b → f a = f b → g a = g b) {xs ys : List α} (hxs : ∀ a ∈ xs, P a)
    (hys : ∀ b ∈ ys, P b) (h : xs.map f = ys.map f) : xs.map g = ys.map g := by
  induction xs generalizing ys with
  | nil =>
    rw [List.map_nil, eq_comm, List.map_eq_nil_iff] at h
    rw [h]
  | cons x xs ih =>
    cases ys with
    | nil => cases h
    | cons y ys =>
      obtain ⟨hx, hxs⟩ := List.forall_mem_cons.mp hxs
      obtain ⟨hy, hys⟩ := List.forall_mem_cons.mp hys
      obtain ⟨hhead, htail⟩ := List.cons.inj h
      exact congrArg₂ List.cons (hfg x y hx hy hhead) (ih hxs hys htail)

variable {classes classes' : List ClassDefinition} {instances instances' : List Instance}

theorem isIntegral_contentValue (hclasses : ∀ c ∈ classes, c.IsHashable)
    (hinstances : ∀ i ∈ instances, i.IsHashable) : (contentValue classes instances).isIntegral = true := by
  have hclassList : (Value.list (classes.map ClassDefinition.toValue)).isIntegral = true :=
    Value.isIntegral_list_iff.mpr
      (List.forall_mem_map.mpr fun c hc => ClassDefinition.isIntegral_toValue (hclasses c hc))
  have hinstanceList : (Value.list (instances.map Instance.toValue)).isIntegral = true :=
    Value.isIntegral_list_iff.mpr
      (List.forall_mem_map.mpr fun i hi => Instance.isIntegral_toValue (hinstances i hi))
  exact Value.isIntegral_map_iff.mpr
    (List.forall_mem_cons.mpr ⟨hclassList, List.forall_mem_singleton.mpr hinstanceList⟩)

theorem eq_of_contentText (hclasses : ∀ c ∈ classes, c.IsHashable) (hclasses' : ∀ c ∈ classes', c.IsHashable)
    (hinstances : ∀ i ∈ instances, i.IsHashable) (hinstances' : ∀ i ∈ instances', i.IsHashable)
    (h : contentText classes instances = contentText classes' instances') :
    classes.map ClassDefinition.withoutProvenance = classes'.map ClassDefinition.withoutProvenance ∧
      instances = instances' := by
  have hvalue := Value.compact_inj (isIntegral_contentValue hclasses hinstances)
    (isIntegral_contentValue hclasses' hinstances') h
  simp only [contentValue, Value.map.injEq, List.cons.injEq, Prod.mk.injEq, Value.list.injEq, true_and,
    and_true] at hvalue
  constructor
  · exact map_congr_of_map_eq (fun c c' hc hc' heq => ClassDefinition.eq_of_toFields hc hc' (Value.map.inj heq))
      hclasses hclasses' hvalue.1
  · have hsame := map_congr_of_map_eq (g := id)
      (fun i i' hi hi' heq => Instance.eq_of_toFields hi hi' (Value.map.inj heq)) hinstances hinstances' hvalue.2
    simpa using hsame

/-- Folded classes and instances that are read from documents do not use the names of their parts. Where they
do not, maps are in order and numbers are integers, two models have one hashed text if and only if they have
the same instances and, but for where these came from, the same classes. -/
theorem contentText_tells_model :
    (∀ docs own, ClassDefinition.foldDocuments docs = .ok own → ∀ e ∈ own, e.2.IsFree) ∧
    (∀ id fields i, Instance.ofFields id fields = .ok i → i.IsFree) ∧
    ∀ (classes classes' : List ClassDefinition) (instances instances' : List Instance),
      (∀ c ∈ classes, c.IsHashable) → (∀ c ∈ classes', c.IsHashable) →
      (∀ i ∈ instances, i.IsHashable) → (∀ i ∈ instances', i.IsHashable) →
      (contentText classes instances = contentText classes' instances' ↔
        classes.map ClassDefinition.withoutProvenance = classes'.map ClassDefinition.withoutProvenance ∧
          instances = instances') := by
  refine ⟨fun docs own => ClassDefinition.isFree_of_foldDocuments, fun id fields i => Instance.isFree_of_ofFields,
    fun classes classes' instances instances' hclasses hclasses' hinstances hinstances' => ⟨?_, ?_⟩⟩
  · exact eq_of_contentText hclasses hclasses' hinstances hinstances'
  · rintro ⟨hsame, rfl⟩
    have hvalues : classes.map ClassDefinition.toValue = classes'.map ClassDefinition.toValue := by
      have hvalues := congrArg (List.map ClassDefinition.toValue) hsame
      rwa [List.map_map, List.map_map] at hvalues
    rw [contentText, contentText, contentValue, contentValue, hvalues]

/-- A class that may have a schema. -/
def described (schema : Option Value) : ClassDefinition :=
  { name := "c", parents := ["p"], schema, properties := [("x", .number (.int 1))] }

/-- An instance that asks for one output, by a name or not. -/
def asking (filename : Option String) : Instance :=
  { id := "i", classRef := some "c", properties := [("y", .null)], build := [⟨"t", filename⟩] }

/-- A null schema shows, and so does the name of an output, even if it is that of the template. -/
theorem contentText_tells_model_asking :
    contentText [described none] [asking none] ≠ contentText [described (some .null)] [asking none] ∧
      contentText [described none] [asking none] ≠ contentText [described none] [asking (some "t")] := by
  have hclass : ∀ schema, (∀ v, schema = some v → v.isIntegral = true) →
      ∀ c ∈ [described schema], c.IsHashable := by
    intro schema hschema
    have hfree : ∀ name ∈ ClassDefinition.partNames, Dict.get? (described none).properties name = none := by
      decide
    exact List.forall_mem_singleton.mpr ⟨List.pairwise_singleton _ _, hfree, hschema, rfl⟩
  have hinstance : ∀ filename, ∀ i ∈ [asking filename], i.IsHashable := by
    intro filename
    have hfree : ∀ name ∈ Instance.partNames, Dict.get? (asking none).properties name = none := by decide
    exact List.forall_mem_singleton.mpr ⟨List.pairwise_singleton _ _, hfree, rfl⟩
  have hnone := hclass none nofun
  have hnull := hclass (some .null) (by rintro _ ⟨⟩; rfl)
  obtain ⟨-, -, htells⟩ := contentText_tells_model
  constructor
  · intro h
    have hsame := (htells _ _ _ _ hnone hnull (hinstance none) (hinstance none)).mp h
    exact absurd hsame.1 (by decide)
  · intro h
    have hsame := (htells _ _ _ _ hnone hnone (hinstance none) (hinstance (some "t"))).mp h
    exact absurd hsame.2 (by decide)

end Snapshot

end DocModel
