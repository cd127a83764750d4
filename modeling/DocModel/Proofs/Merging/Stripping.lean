import DocModel.Proofs.Merging.Directives

/-!
# What stripping leaves of directives

Stripping does not look into lists, and puts in the place of a directive what it stands for, whatever that
is. So a directive in a list stays where it is, and where an entry `$reset` stands for `true` its map becomes
a directive. A value is *strippable* if neither is so anywhere in it.

* `isPlain_strip_iff`: stripping takes all directives out of the strippable values, and of no others.
* `Strippable.isPlain_merge`: merging a strippable value over a plain one makes a plain value.
* `Strippable.layer`: layers of strippable values are strippable.
-/

namespace DocModel

namespace Value

/-- The value is `true`, or a directive that stands for such a value. -/
inductive StandsForTrue : Value → Prop
  | bool : StandsForTrue (bool true)
  | directive {entries : Fields} {v : Value} (hr : entries.isReset = true)
    (hv : Dict.get? entries resetValueKey = some v) (h : StandsForTrue v) : StandsForTrue (map entries)

/-- No list holds a directive and no entry `$reset` stands for `true`, except that of a directive, of which
only what it stands for counts. -/
inductive Strippable : Value → Prop
  | scalar {v : Value} (hl : v.list? = none) (hm : v.map? = none) : Strippable v
  | list {items : List Value} (h : ∀ v ∈ items, v.isPlain = true) : Strippable (list items)
  | directive {entries : Fields} (hr : entries.isReset = true)
    (h : ∀ v, Dict.get? entries resetValueKey = some v → Strippable v) : Strippable (map entries)
  | map {entries : Fields} (hreset : ∀ v, Dict.get? entries resetKey = some v → ¬ StandsForTrue v)
    (h : ∀ e ∈ entries, Strippable e.2) : Strippable (map entries)

/-! ## Stripping -/

theorem strip_eq_true_iff_standsForTrue {v : Value} : v.strip = bool true ↔ v.StandsForTrue := by
  constructor
  · intro h
    induction v using induction with
    | scalar v hl hm => cases v <;> simp_all [strip, list?, map?, StandsForTrue.bool]
    | list items => simp [strip] at h
    | map entries ih =>
      cases hr : entries.isReset with
      | false => simp [strip_of_not_isReset hr] at h
      | true =>
        rw [strip_map_of_isReset hr] at h
        cases hv : Dict.get? entries resetValueKey with
        | none => simp [hv] at h
        | some v => exact .directive hr hv (ih _ (Dict.mem_of_get? hv) (by simpa [hv] using h))
  · intro h
    induction h with
    | bool => rfl
    | directive hr hv _ ih => rw [strip_map_of_isReset hr, hv]; exact ih

theorem isReset_stripEntries_eq_false_iff {entries : Fields} :
    Fields.isReset (stripEntries entries) = false ↔
      ∀ v, Dict.get? entries resetKey = some v → ¬ v.StandsForTrue := by
  simp [Fields.isReset, get?_stripEntries, strip_eq_true_iff_standsForTrue]

theorem isReset_eq_false_of_not_standsForTrue {entries : Fields}
    (h : ∀ v, Dict.get? entries resetKey = some v → ¬ v.StandsForTrue) : entries.isReset = false := by
  rw [Fields.isReset, decide_eq_false_iff_not]
  exact fun hget => h _ hget .bool

theorem strippable_list_iff {items : List Value} :
    (list items).Strippable ↔ ∀ v ∈ items, v.isPlain = true := by
  constructor
  · intro h
    cases h with
    | scalar hl _ => cases hl
    | list h => exact h
  · exact .list

theorem strippable_directive_iff {entries : Fields} (hr : entries.isReset = true) :
    (map entries).Strippable ↔ ∀ v, Dict.get? entries resetValueKey = some v → v.Strippable := by
  constructor
  · intro h
    cases h with
    | scalar _ hm => cases hm
    | directive _ h => exact h
    | map hreset _ => simp [isReset_eq_false_of_not_standsForTrue hreset] at hr
  · exact .directive hr

theorem strippable_map_iff {entries : Fields} (hr : entries.isReset = false) :
    (map entries).Strippable ↔
      (∀ v, Dict.get? entries resetKey = some v → ¬ v.StandsForTrue) ∧ ∀ e ∈ entries, e.2.Strippable := by
  constructor
  · intro h
    cases h with
    | scalar _ hm => cases hm
    | directive htrue _ => simp [hr] at htrue
    | map hreset h => exact ⟨hreset, h⟩
  · exact fun h => .map h.1 h.2

/-- Stripping takes all directives out of a value exactly if it is strippable. -/
theorem isPlain_strip_iff {v : Value} : v.strip.isPlain = true ↔ v.Strippable := by
  induction v using induction with
  | scalar v hl hm =>
    have hplain : v.strip.isPlain = true := by cases v <;> simp_all [strip, isPlain, list?, map?]
    exact iff_of_true hplain (.scalar hl hm)
  | list items => rw [strip.eq_2 _ (by simp), isPlain_list_iff, strippable_list_iff]
  | map entries ih =>
    cases hr : entries.isReset with
    | true =>
      rw [strip_map_of_isReset hr, strippable_directive_iff hr]
      cases hv : Dict.get? entries resetValueKey with
      | none => simp [isPlain_list_iff]
      | some v => simpa using ih _ (Dict.mem_of_get? hv)
    | false =>
      rw [strip_of_not_isReset hr, strippable_map_iff hr, isPlain_map_iff, isReset_stripEntries_eq_false_iff,
        stripEntries_eq_mapValues, Dict.mapValues, List.forall_mem_map]
      exact and_congr_right fun _ => forall₂_congr ih

theorem strippable_of_isWellFormed {v : Value} (h : v.isWellFormed = true) : v.Strippable :=
  isPlain_strip_iff.mp (isPlain_strip h)

theorem Strippable.get? {entries : Fields} (h : (Value.map entries).Strippable) (hr : entries.isReset = false)
    {key : String} {v : Value} (hv : Dict.get? entries key = some v) : v.Strippable :=
  ((strippable_map_iff hr).mp h).2 _ (Dict.mem_of_get? hv)

/-! ## Merging -/

/-- Only what stands for `true` is `true` once it is merged, over whatever it is. -/
theorem merge_eq_true_iff {base v : Value} : merge base v = bool true ↔ v.StandsForTrue := by
  rw [← strip_eq_true_iff_standsForTrue]
  cases v with
  | list right => cases base <;> simp [merge, strip]
  | map right =>
    cases hb : base.plainMap? with
    | none => rw [merge_of_plainMap?_eq_none hb]
    | some left =>
      obtain ⟨rfl, hl⟩ := plainMap?_eq_some_iff.mp hb
      cases hr : Fields.isReset right with
      | true => rw [merge_of_isReset _ hr]
      | false => simp [merge_map_map hl hr, strip_of_not_isReset hr]
  | _ => simp [merge, strip]

theorem isReset_mergeFields {left right : Fields} (hl : left.isReset = false) (hr : right.isReset = false)
    (hs : (map right).Strippable) : Fields.isReset (mergeFields left right) = false := by
  have hreset := ((strippable_map_iff hr).mp hs).1
  simp only [Fields.isReset, decide_eq_false_iff_not] at hl ⊢
  rw [get?_mergeFields]
  cases hv : Dict.get? right resetKey with
  | none => exact hl
  | some v =>
    cases Dict.get? left resetKey <;>
      simp [merge_eq_true_iff, strip_eq_true_iff_standsForTrue, hreset v hv]

theorem Strippable.isPlain_merge {base v : Value} (hb : base.isPlain = true) (hv : v.Strippable) :
    (merge base v).isPlain = true := by
  induction v using induction generalizing base with
  | scalar v hl hm => cases v <;> simp_all [merge, isPlain, list?, map?]
  | list right =>
    have hr := strippable_list_iff.mp hv
    cases base with
    | list left =>
      -- What is appended is stripped item by item, which here leaves it alone: a list holds no directive.
      rw [merge, map_strip_eq_self hr]
      refine isPlain_list_iff.mpr fun v hv => ?_
      exact (List.mem_append.mp hv).elim (isPlain_list_iff.mp hb v) (hr v)
    | _ => exact isPlain_list_iff.mpr hr
  | map right ih =>
    cases hp : base.plainMap? with
    | none => rw [merge_of_plainMap?_eq_none hp]; exact isPlain_strip_iff.mpr hv
    | some left =>
      obtain ⟨rfl, hl⟩ := plainMap?_eq_some_iff.mp hp
      cases hr : right.isReset with
      | true => rw [merge_of_isReset _ hr]; exact isPlain_strip_iff.mpr hv
      | false =>
        have hentries := ((strippable_map_iff hr).mp hv).2
        rw [merge_map_map hl hr]
        refine isPlain_map_iff.mpr ⟨isReset_mergeFields hl hr hv, ?_⟩
        rw [mergeFields_eq_overlay]
        refine Dict.forall_mem_overlay (P := fun v : Value => v.isPlain = true) (isPlain_map_iff.mp hb).2 ?_
        intro e he
        cases hx : Dict.get? left e.1 with
        | none => exact isPlain_strip_iff.mpr (hentries e he)
        | some x => exact ih e he (isPlain_of_get? hb hx) (hentries e he)

/-! ## Layering -/

theorem standsForTrue_layer_iff {base v : Value} : (layer base v).StandsForTrue ↔ v.StandsForTrue := by
  cases v with
  | list right =>
    have hlist : ¬ (list right).StandsForTrue := fun h => by cases h
    refine iff_of_false ?_ hlist
    cases base with
    | list left => exact fun h => by cases h
    | map left =>
      rw [layer]
      split
      · rw [← strip_eq_true_iff_standsForTrue, resetTo, strip_map_of_isReset rfl]
        exact fun h => by cases h
      · exact hlist
    | _ => exact hlist
  | map right =>
    cases hb : base.plainMap? with
    | none => rw [layer_of_plainMap?_eq_none hb]
    | some left =>
      obtain ⟨rfl, hl⟩ := plainMap?_eq_some_iff.mp hb
      cases hr : Fields.isReset right with
      | true => rw [layer_of_isReset _ hr]
      | false =>
        rw [layer_map_map hl hr, ← strip_eq_true_iff_standsForTrue, ← strip_eq_true_iff_standsForTrue,
          strip_of_not_isReset hr, strip_of_not_isReset (isReset_layerFields hl hr)]
        simp
  | _ => rw [layer] <;> simp

theorem strippable_resetTo {items : List Value} (h : ∀ v ∈ items, v.isPlain = true) :
    (resetTo items).Strippable := by
  refine .directive rfl fun v hv => ?_
  cases hv
  exact .list h

theorem Strippable.resetItems_plain {entries : Fields} (hr : entries.isReset = true)
    (h : (Value.map entries).Strippable) : ∀ v ∈ resetItems entries, v.isPlain = true := by
  rw [resetItems]
  cases hv : Dict.get? entries resetValueKey with
  | none => simp
  | some v =>
    have hs := (strippable_directive_iff hr).mp h v hv
    cases v with
    | list items => simpa [list?] using strippable_list_iff.mp hs
    | _ => simp [list?]

theorem Strippable.layer {base v : Value} (hb : base.Strippable) (hv : v.Strippable) :
    (Value.layer base v).Strippable := by
  induction v using induction generalizing base with
  | scalar v hl hm => cases v <;> simp_all [Value.layer, list?, map?]
  | list right =>
    have hr := strippable_list_iff.mp hv
    cases base with
    | list left =>
      refine .list fun v hv => ?_
      exact (List.mem_append.mp hv).elim (strippable_list_iff.mp hb v) (hr v)
    | map left =>
      rw [Value.layer]
      split
      · next hl =>
        refine strippable_resetTo fun v hv => ?_
        exact (List.mem_append.mp hv).elim (hb.resetItems_plain hl v) (hr v)
      · exact hv
    | _ => exact hv
  | map right ih =>
    cases hp : base.plainMap? with
    | none => rw [layer_of_plainMap?_eq_none hp]; exact hv
    | some left =>
      obtain ⟨rfl, hl⟩ := plainMap?_eq_some_iff.mp hp
      cases hr : right.isReset with
      | true => rw [layer_of_isReset _ hr]; exact hv
      | false =>
        obtain ⟨hreset, hentries⟩ := (strippable_map_iff hr).mp hv
        obtain ⟨hbreset, hbentries⟩ := (strippable_map_iff hl).mp hb
        rw [layer_map_map hl hr]
        refine .map ?_ ?_
        · -- An entry `$reset` of the layer stands for `true` only if the upper one did, or the lower one alone.
          intro w hw
          rw [get?_layerFields] at hw
          split at hw
          · exact hbreset w hw
          · next hv _ => cases hw; exact fun h => hreset _ hv (standsForTrue_layer_iff.mp h)
          · next hv _ => cases hw; exact hreset _ hv
        · rw [layerFields_eq_overlay]
          refine Dict.forall_mem_overlay (P := Strippable) hbentries ?_
          intro e he
          cases hx : Dict.get? left e.1 with
          | none => exact hentries e he
          | some x => exact ih e he (hbentries _ (Dict.mem_of_get? hx)) (hentries e he)

end Value

end DocModel
