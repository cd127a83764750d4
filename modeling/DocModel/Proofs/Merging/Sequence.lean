import DocModel.Proofs.Merging.Layering

/-!
# Layers folded first and merged later

The values of one field in a list of documents, in their order. `layers` folds them as layers, `mergeAll`
merges them one by one over what is there already.

* `map_strip_layers`: over nothing both come to the same.
* `mergeDefault_layers`: over a plain default they do if each value is compatible with the layers below it.
* `map_strip_underlay_layers`: both at once, for a default that there may be.
* `isReset_layers`, `string?_layers`: when the layers come to a directive, and when to a text.
* `layers_eq_of_getLast?`: the last value counts if it is neither list nor map.
-/

namespace DocModel

namespace Value

/-- The values as layers, the first one below; nothing if there are none. -/
def layers (vs : List Value) : Option Value :=
  vs.foldl (fun below v => some (layerOver below v)) none

/-- The values merged one after the other over what may be there. -/
def mergeAll (base : Option Value) (vs : List Value) : Option Value :=
  vs.foldl (fun below v => some (mergeOver below v)) base

/-- Each value is compatible with the layers of those before it. -/
def CompatibleLayers (vs : List Value) : Prop :=
  ∀ before v after, vs = before ++ v :: after → ∀ x, layers before = some x → Compatible x v

theorem layers_concat (vs : List Value) (v : Value) :
    layers (vs ++ [v]) = some (layerOver (layers vs) v) := by
  rw [layers, List.foldl_append]
  rfl

theorem mergeAll_concat (base : Option Value) (vs : List Value) (v : Value) :
    mergeAll base (vs ++ [v]) = some (mergeOver (mergeAll base vs) v) := by
  rw [mergeAll, List.foldl_append]
  rfl

theorem isSome_layers (vs : List Value) : (layers vs).isSome = !vs.isEmpty := by
  induction vs using List.reverseRecOn with
  | nil => rfl
  | append_singleton vs v => rw [layers_concat]; simp

/-- The last of the values that is no list is a directive, so that the lists after it add to that. -/
def endsInReset (vs : List Value) : Bool :=
  (vs.filter fun v => v.list?.isNone).getLast?.any isReset

theorem endsInReset_concat (vs : List Value) (v : Value) :
    endsInReset (vs ++ [v]) = if v.list?.isSome then endsInReset vs else v.isReset := by
  rw [endsInReset, endsInReset, List.filter_append]
  cases hl : v.list? <;> simp [hl]

theorem endsInReset_eq_false {vs : List Value} (h : ∀ v ∈ vs, v.isReset = false) : endsInReset vs = false := by
  rw [endsInReset, Option.any_eq_false_iff_get]
  exact fun hs => h _ (List.mem_of_mem_filter (List.mem_of_getLast? (Option.some_get hs).symm))

/-- A list leaves a directive one, anything else takes its place. -/
theorem isReset_layerOver (below : Option Value) (v : Value) :
    (layerOver below v).isReset = if v.list?.isSome then below.any isReset else v.isReset := by
  cases v with
  | list right =>
    cases below with
    | none => rfl
    | some existing =>
      cases existing with
      | map left =>
        show (layer (map left) (list right)).isReset = Fields.isReset left
        rw [layer]
        split
        · next hl => exact hl.symm
        · next hl => exact ((Bool.not_eq_true _).mp hl).symm
      | _ => rfl
  | map right =>
    cases below with
    | none => rfl
    | some existing =>
      cases hp : existing.plainMap? with
      | none => rw [layerOver, layer_of_plainMap?_eq_none hp]; rfl
      | some left =>
        obtain ⟨rfl, hl⟩ := plainMap?_eq_some_iff.mp hp
        cases hr : Fields.isReset right with
        | true => rw [layerOver, layer_of_isReset _ hr]; rfl
        | false =>
          rw [layerOver, layer_map_map hl hr]
          exact (isReset_layerFields hl hr).trans hr.symm
  | _ => cases below <;> rfl

theorem isReset_layers (vs : List Value) : (layers vs).any isReset = endsInReset vs := by
  induction vs using List.reverseRecOn with
  | nil => rfl
  | append_singleton vs v ih => rw [layers_concat, Option.any_some, isReset_layerOver, endsInReset_concat, ih]

theorem string?_layerOver (below : Option Value) (v : Value) : (layerOver below v).string? = v.string? := by
  cases below with
  | none => rfl
  | some existing => cases existing <;> cases v <;> simp only [layerOver, layer] <;> (try split) <;> rfl

/-- Layers come to a text if and only if the last of them is that text. -/
theorem string?_layers (vs : List Value) : (layers vs).bind string? = vs.getLast?.bind string? := by
  induction vs using List.reverseRecOn with
  | nil => rfl
  | append_singleton vs v => rw [layers_concat, Option.bind_some, string?_layerOver, List.getLast?_concat]; rfl

/-- What is neither list nor map takes the place of what is below it. -/
theorem layerOver_of_scalar {v : Value} (hlist : v.list? = none) (hmap : v.map? = none) (below : Option Value) :
    layerOver below v = v := by
  cases v with
  | list items => cases hlist
  | map entries => cases hmap
  | _ => cases below <;> rfl

theorem layers_eq_of_getLast? {vs : List Value} {v : Value} (h : vs.getLast? = some v) (hlist : v.list? = none)
    (hmap : v.map? = none) : layers vs = some v := by
  obtain ⟨before, rfl⟩ := List.getLast?_eq_some_iff.mp h
  rw [layers_concat, layerOver_of_scalar hlist hmap]

theorem compatibleLayers_nil : CompatibleLayers [] := by
  intro before v after h
  simp at h

theorem compatibleLayers_concat_iff (vs : List Value) {v : Value} :
    CompatibleLayers (vs ++ [v]) ↔ CompatibleLayers vs ∧ ∀ x, layers vs = some x → Compatible x v := by
  constructor
  · intro h
    refine ⟨fun before w after hvs => h before w (after ++ [v]) ?_, h vs v [] rfl⟩
    rw [hvs, List.append_assoc, List.cons_append]
  · rintro ⟨hvs, hv⟩ before w after heq
    rcases List.eq_nil_or_concat after with rfl | ⟨rest, last, rfl⟩
    · obtain ⟨rfl, hw⟩ := List.append_inj' heq rfl
      cases hw
      exact hv
    · rw [List.concat_eq_append, ← List.cons_append, ← List.append_assoc] at heq
      exact hvs before w rest (List.append_inj' heq rfl).1

theorem isWellFormed_layers {vs : List Value} (h : ∀ v ∈ vs, v.isWellFormed = true) {x : Value}
    (hx : layers vs = some x) : x.isWellFormed = true := by
  induction vs using List.reverseRecOn generalizing x with
  | nil => cases hx
  | append_singleton vs v ih =>
    have hv : v.isWellFormed = true := h v (by simp)
    rw [layers_concat, Option.some.injEq] at hx
    subst hx
    cases hy : layers vs with
    | none => exact hv
    | some y => exact isWellFormed_layer (ih (fun w hw => h w (List.mem_append_left _ hw)) hy) hv

/-- Over nothing, values folded as layers come to the values merged one by one. -/
theorem map_strip_layers {vs : List Value} (h : ∀ v ∈ vs, v.isWellFormed = true) :
    (layers vs).map strip = mergeAll none vs := by
  induction vs using List.reverseRecOn with
  | nil => rfl
  | append_singleton vs v ih =>
    have hv : v.isWellFormed = true := h v (by simp)
    have hvs : ∀ w ∈ vs, w.isWellFormed = true := fun w hw => h w (List.mem_append_left _ hw)
    rw [layers_concat, mergeAll_concat, ← ih hvs, Option.map_some]
    cases hy : layers vs with
    | none => rfl
    | some y => exact congrArg some (strip_layer (isWellFormed_layers hvs hy) hv)

/-- Over a default, values folded as compatible layers come to the values merged one by one. -/
theorem mergeDefault_layers {d : Value} (hd : d.isPlain = true) {vs : List Value}
    (h : ∀ v ∈ vs, v.isWellFormed = true) (hc : CompatibleLayers vs) :
    some (mergeDefault d (layers vs)) = mergeAll (some d) vs := by
  induction vs using List.reverseRecOn with
  | nil => exact congrArg some (strip_eq_self hd)
  | append_singleton vs v ih =>
    have hv : v.isWellFormed = true := h v (by simp)
    have hvs : ∀ w ∈ vs, w.isWellFormed = true := fun w hw => h w (List.mem_append_left _ hw)
    obtain ⟨hcvs, hcv⟩ := (compatibleLayers_concat_iff vs).mp hc
    rw [layers_concat, mergeAll_concat, ← ih hvs hcvs]
    cases hy : layers vs with
    | none => exact congrArg (fun x => some (merge x v)) (strip_eq_self hd).symm
    | some y =>
      have hlaw := merge_layer_of_compatible (hcv y hy) (isWellFormed_layers hvs hy) hv d
      exact congrArg some hlaw

theorem isPlain_mergeAll {d : Value} (hd : d.isPlain = true) {vs : List Value}
    (h : ∀ v ∈ vs, v.isWellFormed = true) {x : Value} (hx : mergeAll (some d) vs = some x) :
    x.isPlain = true := by
  induction vs using List.reverseRecOn generalizing x with
  | nil => cases hx; exact hd
  | append_singleton vs v ih =>
    have hv : v.isWellFormed = true := h v (by simp)
    rw [mergeAll_concat, Option.some.injEq] at hx
    subst hx
    cases hy : mergeAll (some d) vs with
    | none => exact isPlain_strip hv
    | some y =>
      have hy := ih (fun w hw => h w (List.mem_append_left _ hw)) hy
      exact (strippable_of_isWellFormed hv).isPlain_merge hy

/-- A default, if there is one, under a value that may be missing. -/
def underlay : Option Value → Option Value → Option Value
  | some d, v => some (mergeDefault d v)
  | none, v => v

/-- Values folded as compatible layers, put over a default if there is one and stripped last, come to the
values merged one by one. -/
theorem map_strip_underlay_layers {default : Option Value}
    (hd : ∀ d, default = some d → d.isPlain = true) {vs : List Value}
    (h : ∀ v ∈ vs, v.isWellFormed = true) (hc : CompatibleLayers vs) :
    (underlay default (layers vs)).map strip = mergeAll default vs := by
  cases default with
  | none => exact map_strip_layers h
  | some d =>
    have hplain := hd d rfl
    have hmerge := mergeDefault_layers hplain h hc
    rw [underlay, hmerge]
    cases hx : mergeAll (some d) vs with
    | none => rfl
    | some x => exact congrArg some (strip_eq_self (isPlain_mergeAll hplain h hx))

end Value

end DocModel
