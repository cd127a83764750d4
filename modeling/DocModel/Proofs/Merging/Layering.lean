import DocModel.Proofs.Merging.Stripping
import Mathlib.Data.Fintype.EquivFin

/-!
# Layers that merge like their parts

Layers are folded first and applied later, as when the documents of an instance are folded and then merged
over the defaults of its class.

* `strip_layer`: over nothing, a folded layer always comes to what merging its parts comes to.
* `merge_layer_of_compatible`: over a base it does so if the parts are `Compatible`.
* `exists_merge_layer_ne`: and if they are not, some base tells the two apart.
-/

namespace DocModel

namespace Value

/-- Whether `b` on top of `a` hides from what is below both no more than it hides on its own: a list takes
a list or a directive below it, a map that is no directive takes such a map, at every key of both. -/
inductive Compatible : Value → Value → Prop
  | scalar {a b : Value} (hl : b.list? = none) (hm : b.map? = none) : Compatible a b
  | directive {a b : Value} (h : b.isReset = true) : Compatible a b
  | list {a : Value} {right : List Value} (h : a.list?.isSome = true ∨ a.isReset = true) :
    Compatible a (list right)
  | map {left right : Fields} (hl : left.isReset = false) (hr : right.isReset = false)
    (h : ∀ key x y, Dict.get? left key = some x → Dict.get? right key = some y → Compatible x y) :
    Compatible (map left) (map right)

/-! ## Layers over nothing -/

theorem plainMap?_strip {v : Value} (h : v.isWellFormed = true) :
    v.strip.plainMap? = v.plainMap?.map stripEntries := by
  cases v with
  | map entries =>
    cases hr : Fields.isReset entries with
    | true => rw [strip_of_isReset h hr]; simp [plainMap?, hr]
    | false =>
      have hs := (isReset_stripEntries h).trans hr
      rw [strip_of_not_isReset hr]
      simp [plainMap?, hr, hs]
  | _ => rfl

theorem strip_resetTo {items : List Value} (h : ∀ v ∈ items, v.isPlain = true) :
    strip (resetTo items) = list items :=
  strip_of_isReset (isWellFormed_resetTo h) rfl

theorem layer_list_of_isReset {left : Fields} (hl : left.isReset = true) (right : List Value) :
    layer (map left) (list right) = resetTo (resetItems left ++ right) := by
  simp [layer, hl, resetItems]

theorem stripEntries_layerFields {left right : Fields}
    (h : ∀ key v, Dict.get? right key = some v →
      strip (layerOver (Dict.get? left key) v) = mergeOver ((Dict.get? left key).map strip) v) :
    stripEntries (layerFields left right) = mergeFields (stripEntries left) right := by
  rw [layerFields_eq_overlay, stripEntries_eq_mapValues, Dict.mapValues_overlay h,
    mergeFields_eq_overlay, stripEntries_eq_mapValues]
  rfl

/-- Over nothing, a layer comes to its parts merged. -/
theorem strip_layer {a b : Value} (ha : a.isWellFormed = true) (hb : b.isWellFormed = true) :
    strip (layer a b) = merge (strip a) b := by
  induction b using induction generalizing a with
  | scalar b hl hm => cases b <;> simp_all [layer, strip, merge, list?, map?]
  | list right =>
    have hright := map_strip_eq_self (isWellFormed_list_iff.mp hb)
    cases a with
    | list left => simp [layer, strip, merge, hright]
    | map left =>
      cases hl : Fields.isReset left with
      | true =>
        have hitems : ∀ v ∈ resetItems left ++ right, v.isPlain = true := by
          intro v hv
          exact (List.mem_append.mp hv).elim (resetItems_plain ha v) (isWellFormed_list_iff.mp hb v)
        rw [layer_list_of_isReset hl, strip_resetTo hitems, strip_of_isReset ha hl, merge, hright]
      | false => simp [layer, hl, strip, merge]
    | _ => simp [layer, strip, merge]
  | map right ih =>
    cases hp : a.plainMap? with
    | none =>
      have hs : a.strip.plainMap? = none := by rw [plainMap?_strip ha, hp]; rfl
      rw [layer_of_plainMap?_eq_none hp, merge_of_plainMap?_eq_none hs]
    | some left =>
      obtain ⟨rfl, hl⟩ := plainMap?_eq_some_iff.mp hp
      cases hr : right.isReset with
      | true => rw [layer_of_isReset _ hr, merge_of_isReset _ hr]
      | false =>
        have hs : Fields.isReset (stripEntries left) = false := (isReset_stripEntries ha).trans hl
        rw [layer_map_map hl hr, strip_of_not_isReset (isReset_layerFields hl hr), strip_of_not_isReset hl,
          merge_map_map hs hr, stripEntries_layerFields]
        intro key v hv
        have hw := isWellFormed_of_get? hb hv
        cases hx : Dict.get? left key with
        | none => rfl
        | some x => exact ih (key, v) (Dict.mem_of_get? hv) (isWellFormed_of_get? ha hx) hw

/-! ## Compatible layers -/

theorem mergeFields_layerFields {base left right : Fields}
    (h : ∀ key v, Dict.get? right key = some v →
      mergeOver (Dict.get? base key) (layerOver (Dict.get? left key) v) =
        mergeOver (Dict.get? (mergeFields base left) key) v) :
    mergeFields base (layerFields left right) = mergeFields (mergeFields base left) right := by
  simp only [mergeFields_eq_overlay, layerFields_eq_overlay] at h ⊢
  exact Dict.overlay_overlay h

/-- A layer of compatible parts comes to the parts merged one by one, over every base. -/
theorem merge_layer_of_compatible {a b : Value} (h : Compatible a b) (ha : a.isWellFormed = true)
    (hb : b.isWellFormed = true) (base : Value) : merge base (layer a b) = merge (merge base a) b := by
  induction h generalizing base with
  | @scalar a b hl hm => cases b <;> simp_all [layer, merge, list?, map?]
  | @directive a b hr =>
    cases b with
    | map right => rw [layer_of_isReset _ hr, merge_of_isReset _ hr, merge_of_isReset _ hr]
    | _ => simp [isReset] at hr
  | @list a right hlist =>
    have hright := map_strip_eq_self (isWellFormed_list_iff.mp hb)
    cases a with
    | list left => cases base <;> simp [layer, merge, hright]
    | map left =>
      have hl : Fields.isReset left = true := by simpa [list?, isReset] using hlist
      rw [merge_of_isReset base hl, ← strip_layer ha hb, layer_list_of_isReset hl]
      exact merge_of_isReset base rfl
    | _ => simp [list?, isReset] at hlist
  | @map left right hl hr hc ih =>
    cases hp : base.plainMap? with
    | none =>
      rw [merge_of_plainMap?_eq_none hp left, ← strip_layer ha hb, layer_map_map hl hr,
        merge_of_plainMap?_eq_none hp]
    | some below =>
      obtain ⟨rfl, hbelow⟩ := plainMap?_eq_some_iff.mp hp
      rw [layer_map_map hl hr, merge_map_map hbelow (isReset_layerFields hl hr), merge_map_map hbelow hl,
        merge_map_map (isReset_mergeFields hbelow hl (strippable_of_isWellFormed ha)) hr,
        mergeFields_layerFields]
      intro key v hv
      have hw := isWellFormed_of_get? hb hv
      rw [get?_mergeFields]
      cases hx : Dict.get? left key with
      | none => rfl
      | some x =>
        have hwx := isWellFormed_of_get? ha hx
        cases hy : Dict.get? below key with
        | none => exact strip_layer hwx hw
        | some y => exact ih key x v hx hv hwx hw y

/-! ## Incompatible layers -/

theorem exists_not_mem_keys (entries : Fields) : ∃ key, Dict.get? entries key = none := by
  obtain ⟨key, hkey⟩ := Infinite.exists_notMem_finset (Dict.keys entries).toFinset
  refine ⟨key, Option.not_isSome_iff_eq_none.mp fun hs => hkey ?_⟩
  exact List.mem_toFinset.mpr (Dict.contains_eq_true_iff.mp hs)

theorem plainMap?_merge_eq_none (base : Value) {v : Value} (hv : v.isWellFormed = true)
    (h : v.plainMap? = none) : (merge base v).plainMap? = none := by
  cases v with
  | list items => cases base <;> simp [merge, plainMap?]
  | map entries =>
    rw [merge_of_isReset base (isReset_of_plainMap?_eq_none h), plainMap?_strip hv, h]
    rfl
  | _ => simp [merge, plainMap?]

/-- A base of one entry is no directive unless it says `true`. -/
theorem isReset_singleton {key : String} {v : Value} (h : v ≠ bool true) :
    Fields.isReset [(key, v)] = false := by
  simp only [Fields.isReset, Dict.get?]
  split <;> simp [h]

/-- A list over what is no list and stands for none: a base list would show through the layer. -/
theorem merge_layer_ne_of_list {a : Value} (right : List Value) (hl : a.list?.isSome = false)
    (hr : a.isReset = false) :
    merge (list [null]) (layer a (list right)) ≠ merge (merge (list [null]) a) (list right) := by
  have hlayer : layer a (list right) = list right := by cases a <;> simp_all [layer, list?, isReset]
  have hmerge : merge (merge (list [null]) a) (list right) = list right := by
    cases a with
    | map left => rw [merge_of_plainMap?_eq_none rfl, strip_of_not_isReset hr, merge]; simp
    | _ => simp_all [merge, list?]
  rw [hlayer, hmerge, merge, ne_eq, list.injEq]
  intro h
  have := congrArg List.length h
  simp at this

/-- A map over what is no plain map: an entry of the base would show through the layer. -/
theorem exists_merge_layer_ne_of_map {a : Value} {right : Fields} (ha : a.isWellFormed = true)
    (hp : a.plainMap? = none) (hr : right.isReset = false) :
    ∃ base, base ≠ bool true ∧ merge base (layer a (map right)) ≠ merge (merge base a) (map right) := by
  obtain ⟨key, hkey⟩ := exists_not_mem_keys right
  refine ⟨map [(key, null)], by simp, ?_⟩
  have hbase : Fields.isReset [(key, null)] = false := isReset_singleton (by simp)
  rw [layer_of_plainMap?_eq_none hp, merge_map_map hbase hr,
    merge_of_plainMap?_eq_none (plainMap?_merge_eq_none _ ha hp), strip_of_not_isReset hr, ne_eq,
    map.injEq]
  intro h
  have hget := congrArg (fun d => Dict.get? d key) h
  simp [get?_mergeFields, get?_stripEntries, hkey, Dict.get?] at hget

/-- If the parts are not compatible, some base tells their layer from the parts one by one. -/
theorem exists_merge_layer_ne {a b : Value} (ha : a.isWellFormed = true) (hb : b.isWellFormed = true)
    (h : ¬ Compatible a b) :
    ∃ base, base ≠ bool true ∧ merge base (layer a b) ≠ merge (merge base a) b := by
  induction b using induction generalizing a with
  | scalar b hl hm => exact absurd (.scalar hl hm) h
  | list right =>
    have hn : ¬ (a.list?.isSome = true ∨ a.isReset = true) := fun hc => h (.list hc)
    simp only [not_or, Bool.not_eq_true] at hn
    exact ⟨list [null], by simp, merge_layer_ne_of_list right hn.1 hn.2⟩
  | map right ih =>
    have hr : right.isReset = false := by
      rw [← Bool.not_eq_true]
      exact fun hr => h (.directive hr)
    cases hp : a.plainMap? with
    | none => exact exists_merge_layer_ne_of_map ha hp hr
    | some left =>
      obtain ⟨rfl, hl⟩ := plainMap?_eq_some_iff.mp hp
      have hshared : ∃ key x y, Dict.get? left key = some x ∧ Dict.get? right key = some y ∧
          ¬ Compatible x y := by
        by_contra hn
        refine h (.map hl hr fun key x y hx hy => ?_)
        by_contra hc
        exact hn ⟨key, x, y, hx, hy, hc⟩
      obtain ⟨key, x, y, hx, hy, hc⟩ := hshared
      obtain ⟨below, hbelow, hne⟩ := ih (key, y) (Dict.mem_of_get? hy) (isWellFormed_of_get? ha hx)
        (isWellFormed_of_get? hb hy) hc
      have hbase : Fields.isReset [(key, below)] = false := isReset_singleton hbelow
      refine ⟨map [(key, below)], by simp, ?_⟩
      rw [layer_map_map hl hr, merge_map_map hbase (isReset_layerFields hl hr), merge_map_map hbase hl,
        merge_map_map (isReset_mergeFields hbase hl (strippable_of_isWellFormed ha)) hr, ne_eq, map.injEq]
      intro heq
      have hget := congrArg (fun d => Dict.get? d key) heq
      simp only [get?_mergeFields, get?_layerFields, hx, hy, Dict.get?, if_true, Option.some.injEq] at hget
      exact hne hget

/-! ## Both together -/

/-- Over nothing a layer always comes to its parts merged, and over every base exactly if they are
compatible. -/
theorem layer_faithful {a b : Value} (ha : a.isWellFormed = true) (hb : b.isWellFormed = true) :
    strip (layer a b) = merge (strip a) b ∧
      ((∀ base, merge base (layer a b) = merge (merge base a) b) ↔ Compatible a b) := by
  refine ⟨strip_layer ha hb, fun h => ?_, fun h => merge_layer_of_compatible h ha hb⟩
  by_contra hc
  obtain ⟨base, -, hne⟩ := exists_merge_layer_ne ha hb hc
  exact hne (h base)

/-- A list over a directive: the layer is a directive for both lists. -/
theorem layer_faithful_resetTo :
    isWellFormed (resetTo [null]) = true ∧ isWellFormed (list [null]) = true ∧
      strip (layer (resetTo [null]) (list [null])) = merge (strip (resetTo [null])) (list [null]) ∧
      ((∀ base, merge base (layer (resetTo [null]) (list [null])) =
          merge (merge base (resetTo [null])) (list [null])) ↔
        Compatible (resetTo [null]) (list [null])) :=
  ⟨by decide, by decide, layer_faithful (by decide) (by decide)⟩

end Value

end DocModel
