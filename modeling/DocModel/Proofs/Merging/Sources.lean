import DocModel.Proofs.Merging.Sequence

/-!
# Documents as layers

A *source* is what a document should hold: a well-formed map that is no directive at the top. Sources stay
sources when they lose a field or are layered on each other (`IsSource.erase`, `IsSource.layer`). So do the
fields of strippable maps (`IsStrippable.erase`, `IsStrippable.layer`), which sources are
(`IsSource.isStrippable`). A layer of maps that are no directives holds in each field the layers of what they
hold there (`get?_layer`).
-/

namespace DocModel

/-- A well-formed map that is no directive. -/
def Value.isSource (v : Value) : Bool := v.plainMap?.isSome && v.isWellFormed

namespace Fields

/-- The fields of a source. -/
structure IsSource (fields : Fields) : Prop where
  isReset : fields.isReset = false
  isWellFormed : ∀ e ∈ fields, e.2.isWellFormed = true

variable {fields below : Fields}

theorem isSource_iff : (Value.map fields).isSource = true ↔ fields.IsSource := by
  rw [Value.isSource, Bool.and_eq_true, Value.isWellFormed_map_iff, Value.plainMap?]
  constructor
  · rintro ⟨hr, -, he⟩
    exact ⟨by simpa using hr, he⟩
  · rintro ⟨hr, he⟩
    exact ⟨by simp [hr], by simp [hr], he⟩

theorem IsSource.nil : IsSource [] := ⟨rfl, by simp⟩

theorem IsSource.map (h : fields.IsSource) : (Value.map fields).isWellFormed = true :=
  Value.isWellFormed_map_iff.mpr ⟨by simp [h.isReset], h.isWellFormed⟩

theorem IsSource.get? (h : fields.IsSource) {key : String} {v : Value}
    (hv : Dict.get? fields key = some v) : v.isWellFormed = true :=
  h.isWellFormed _ (Dict.mem_of_get? hv)

theorem isReset_erase (h : fields.isReset = false) (key : String) :
    Fields.isReset (Dict.erase fields key) = false := by
  simp only [Fields.isReset, decide_eq_false_iff_not, Dict.get?_erase] at h ⊢
  split
  · simp
  · exact h

theorem isReset_layer (hb : below.isReset = false) (h : fields.isReset = false) :
    (below.layer fields).isReset = false := by
  simpa [layer, hb, h] using Value.isReset_layerFields hb h

theorem IsSource.erase (h : fields.IsSource) (key : String) : IsSource (Dict.erase fields key) :=
  ⟨isReset_erase h.isReset key, fun e he => h.isWellFormed e (List.mem_of_mem_filter he)⟩

theorem IsSource.layer (hb : below.IsSource) (h : fields.IsSource) : IsSource (below.layer fields) := by
  have hw := Value.isWellFormed_layer hb.map h.map
  rw [Value.layer_map] at hw
  exact ⟨isReset_layer hb.isReset h.isReset, (Value.isWellFormed_map_iff.mp hw).2⟩

/-- Each field of a layer of maps that are no directives holds the layer of what they hold there. -/
theorem get?_layer (hb : below.isReset = false) (h : fields.isReset = false) (key : String) :
    Dict.get? (below.layer fields) key =
      match Dict.get? fields key with
      | some v => some (Value.layerOver (Dict.get? below key) v)
      | none => Dict.get? below key := by
  have hfields : below.layer fields = Value.layerFields below fields := by
    rw [layer, hb, h]
    rfl
  rw [hfields, Value.layerFields_eq_overlay, Dict.get?_overlay]
  cases Dict.get? fields key <;> rfl

/-- Such maps layered one after the other come to no directive, and each field holds the layers of what they
hold there. -/
theorem foldl_layer_spec {fragments : List Fields} (h : ∀ fields ∈ fragments, fields.isReset = false)
    (hb : below.isReset = false) :
    (fragments.foldl layer below).isReset = false ∧
      ∀ key, Dict.get? (fragments.foldl layer below) key =
        (fragments.filterMap (Dict.get? · key)).foldl (fun v w => some (Value.layerOver v w))
          (Dict.get? below key) := by
  induction fragments generalizing below with
  | nil => exact ⟨hb, fun key => rfl⟩
  | cons fields rest ih =>
    obtain ⟨hfields, hrest⟩ := List.forall_mem_cons.mp h
    obtain ⟨hreset, hget⟩ := ih hrest (isReset_layer hb hfields)
    refine ⟨hreset, fun key => ?_⟩
    rw [List.foldl_cons, hget, get?_layer hb hfields, List.filterMap_cons]
    cases Dict.get? fields key <;> rfl

theorem IsSource.foldl_layer {fragments : List Fields} (h : ∀ fields ∈ fragments, fields.IsSource)
    (hb : below.IsSource) : (fragments.foldl Fields.layer below).IsSource :=
  List.foldlRecOn fragments Fields.layer hb fun _ hbelow fields hfields => hbelow.layer (h fields hfields)

/-- Sources merged one after the other come to their layers, stripped. -/
theorem foldl_merge_eq_strip {fragments : List Fields} (h : ∀ fields ∈ fragments, fields.IsSource)
    (hb : below.IsSource) :
    fragments.foldl (fun v fields => v.merge (.map fields)) (Value.map below).strip =
      (Value.map (fragments.foldl layer below)).strip := by
  induction fragments generalizing below with
  | nil => rfl
  | cons fields rest ih =>
    obtain ⟨hfields, hrest⟩ := List.forall_mem_cons.mp h
    rw [List.foldl_cons, List.foldl_cons, ← Value.strip_layer hb.map hfields.map, Value.layer_map,
      ih hrest (hb.layer hfields)]

/-! ## Strippable fields -/

/-- The fields of a strippable map that is no directive. -/
structure IsStrippable (fields : Fields) : Prop where
  isReset : fields.isReset = false
  map : (Value.map fields).Strippable

theorem IsStrippable.nil : IsStrippable [] := ⟨rfl, .map (by simp [Dict.get?]) (by simp)⟩

theorem IsSource.isStrippable (h : fields.IsSource) : fields.IsStrippable :=
  ⟨h.isReset, Value.strippable_of_isWellFormed h.map⟩

theorem IsStrippable.of_isPlain (h : (Value.map fields).isPlain = true) : fields.IsStrippable :=
  ⟨(Value.isPlain_map_iff.mp h).1, Value.strippable_of_isWellFormed (Value.isWellFormed_of_isPlain h)⟩

theorem IsStrippable.get? (h : fields.IsStrippable) {key : String} {v : Value}
    (hv : Dict.get? fields key = some v) : v.Strippable :=
  h.map.get? h.isReset hv

theorem IsStrippable.erase (h : fields.IsStrippable) (key : String) :
    IsStrippable (Dict.erase fields key) := by
  obtain ⟨hreset, hentries⟩ := (Value.strippable_map_iff h.isReset).mp h.map
  refine ⟨isReset_erase h.isReset key, .map (fun v hv => ?_) fun e he => hentries e (List.mem_of_mem_filter he)⟩
  rw [Dict.get?_erase] at hv
  split at hv
  · cases hv
  · exact hreset v hv

theorem IsStrippable.layer (hb : below.IsStrippable) (h : fields.IsStrippable) :
    IsStrippable (below.layer fields) := by
  have hs := hb.map.layer h.map
  rw [Value.layer_map] at hs
  exact ⟨isReset_layer hb.isReset h.isReset, hs⟩

/-- A new entry is no harm if it is strippable and does not stand for `true` where that makes a directive. -/
theorem IsStrippable.insert (h : fields.IsStrippable) {key : String} {v : Value} (hv : v.Strippable)
    (hreset : key = Value.resetKey → ¬ v.StandsForTrue) : IsStrippable (Dict.insert fields key v) := by
  obtain ⟨hfields, hentries⟩ := (Value.strippable_map_iff h.isReset).mp h.map
  have hinsert : ∀ w, Dict.get? (Dict.insert fields key v) Value.resetKey = some w → ¬ w.StandsForTrue := by
    intro w hw
    rw [Dict.get?_insert] at hw
    split at hw
    · next hkey => cases hw; exact hreset hkey.symm
    · exact hfields w hw
  exact ⟨Value.isReset_eq_false_of_not_standsForTrue hinsert,
    .map hinsert (Dict.forall_mem_insert (P := Value.Strippable) hentries hv)⟩

end Fields

theorem Value.strippable_of_isSource {v : Value} (h : v.isSource = true) :
    v.Strippable ∧ v.isReset = false := by
  obtain ⟨hplain, hw⟩ := (Bool.and_eq_true _ _).mp h
  obtain ⟨fields, hfields⟩ := Option.isSome_iff_exists.mp hplain
  obtain ⟨rfl, hr⟩ := Value.plainMap?_eq_some_iff.mp hfields
  exact ⟨Value.strippable_of_isWellFormed hw, hr⟩

end DocModel
