import DocModel.Merging
import DocModel.Proofs.Dict.Overlay

/-!
# Where directives stand in a value

A value is *plain* if it holds no reset directive at all, and *well-formed* if each of its directives stands
for a list or for nothing and no list holds a directive. Stripping a well-formed value makes it plain
(`isPlain_strip`), leaves a plain one alone (`strip_eq_self`), and layering keeps values well-formed
(`isWellFormed_layer`). A map without a directive at the top does not become a directive by any of this
(`isReset_stripEntries`, `isReset_layerFields`).
-/

namespace DocModel

namespace Value

/-- What holds of a list or map if it holds of all that is in it holds of every value. -/
@[elab_as_elim]
theorem induction {P : Value → Prop} (scalar : ∀ v : Value, v.list? = none → v.map? = none → P v)
    (list : ∀ items : List Value, (∀ v ∈ items, P v) → P (list items))
    (map : ∀ entries : Fields, (∀ e ∈ entries, P e.2) → P (map entries)) (v : Value) : P v := by
  refine @Value.rec P (fun items => ∀ v ∈ items, P v) (fun entries => ∀ e ∈ entries, P e.2)
    (fun e => P e.2) ?_ ?_ ?_ ?_ list map ?_ ?_ ?_ ?_ ?_ v
  · exact scalar null rfl rfl
  · exact fun b => scalar (bool b) rfl rfl
  · exact fun n => scalar (number n) rfl rfl
  · exact fun s => scalar (string s) rfl rfl
  · simp
  · exact fun x xs hx hxs => List.forall_mem_cons.mpr ⟨hx, hxs⟩
  · simp
  · exact fun e rest he hrest => List.forall_mem_cons.mpr ⟨he, hrest⟩
  · exact fun _ _ hv => hv

/-! ## Plain and well-formed values -/

mutual

/-- No directive anywhere. -/
def isPlain : Value → Bool
  | list items => itemsPlain items
  | map entries => !Fields.isReset entries && entriesPlain entries
  | _ => true

def itemsPlain : List Value → Bool
  | [] => true
  | x :: xs => isPlain x && itemsPlain xs

def entriesPlain : List (String × Value) → Bool
  | [] => true
  | (_, v) :: rest => isPlain v && entriesPlain rest

end

/-- What a directive may stand for: a list, or nothing. -/
def isResetContent : Option Value → Bool
  | none => true
  | some (list _) => true
  | some _ => false

mutual

/-- Every directive stands for a list or for nothing, and no list holds a directive. -/
def isWellFormed : Value → Bool
  | list items => itemsPlain items
  | map entries =>
    (!Fields.isReset entries || isResetContent (Dict.get? entries resetValueKey))
      && entriesWellFormed entries
  | _ => true

def entriesWellFormed : List (String × Value) → Bool
  | [] => true
  | (_, v) :: rest => isWellFormed v && entriesWellFormed rest

end

theorem itemsPlain_iff {items : List Value} :
    itemsPlain items = true ↔ ∀ v ∈ items, v.isPlain = true := by
  induction items with
  | nil => simp [itemsPlain]
  | cons x xs ih => simp [itemsPlain, ih]

theorem entriesPlain_iff {entries : Fields} :
    entriesPlain entries = true ↔ ∀ e ∈ entries, e.2.isPlain = true := by
  induction entries with
  | nil => simp [entriesPlain]
  | cons e rest ih => rw [entriesPlain, Bool.and_eq_true, ih, List.forall_mem_cons]

theorem entriesWellFormed_iff {entries : Fields} :
    entriesWellFormed entries = true ↔ ∀ e ∈ entries, e.2.isWellFormed = true := by
  induction entries with
  | nil => simp [entriesWellFormed]
  | cons e rest ih => rw [entriesWellFormed, Bool.and_eq_true, ih, List.forall_mem_cons]

theorem isPlain_list_iff {items : List Value} :
    (list items).isPlain = true ↔ ∀ v ∈ items, v.isPlain = true := by
  rw [isPlain, itemsPlain_iff]

theorem isPlain_map_iff {entries : Fields} :
    (map entries).isPlain = true ↔
      entries.isReset = false ∧ ∀ e ∈ entries, e.2.isPlain = true := by
  rw [isPlain, Bool.and_eq_true, Bool.not_eq_true', entriesPlain_iff]

theorem isWellFormed_list_iff {items : List Value} :
    (list items).isWellFormed = true ↔ ∀ v ∈ items, v.isPlain = true := by
  rw [isWellFormed, itemsPlain_iff]

theorem isWellFormed_map_iff {entries : Fields} :
    (map entries).isWellFormed = true ↔
      (entries.isReset = true → isResetContent (Dict.get? entries resetValueKey) = true) ∧
        ∀ e ∈ entries, e.2.isWellFormed = true := by
  rw [isWellFormed, Bool.and_eq_true, entriesWellFormed_iff, Bool.or_eq_true, Bool.not_eq_true']
  cases entries.isReset <;> simp

theorem isWellFormed_of_isPlain {v : Value} (h : v.isPlain = true) : v.isWellFormed = true := by
  induction v using induction with
  | scalar v hl hm => cases v <;> simp_all [isWellFormed, list?, map?]
  | list items => exact isWellFormed_list_iff.mpr (isPlain_list_iff.mp h)
  | map entries ih =>
    obtain ⟨hr, he⟩ := isPlain_map_iff.mp h
    exact isWellFormed_map_iff.mpr ⟨by simp [hr], fun e hm => ih e hm (he e hm)⟩

theorem isWellFormed_of_get? {entries : Fields} {key : String} {v : Value}
    (h : (map entries).isWellFormed = true) (hv : Dict.get? entries key = some v) :
    v.isWellFormed = true :=
  (isWellFormed_map_iff.mp h).2 _ (Dict.mem_of_get? hv)

theorem isPlain_of_get? {entries : Fields} {key : String} {v : Value}
    (h : (map entries).isPlain = true) (hv : Dict.get? entries key = some v) : v.isPlain = true :=
  (isPlain_map_iff.mp h).2 _ (Dict.mem_of_get? hv)

/-! ## Stripping -/

/-- What stands for a directive: its content, or the empty list. -/
theorem strip_map_of_isReset {entries : Fields} (hr : entries.isReset = true) :
    strip (map entries) = ((Dict.get? entries resetValueKey).map strip).getD (list []) := by
  rw [strip, if_pos hr, get?_stripEntries]

/-- The items that a directive stands for. -/
def resetItems (entries : Fields) : List Value :=
  ((Dict.get? entries resetValueKey).bind list?).getD []

theorem strip_eq_self {v : Value} (h : v.isPlain = true) : v.strip = v := by
  induction v using induction with
  | scalar v hl hm => cases v <;> simp_all [strip, list?, map?]
  | list items => rw [strip.eq_2]; simp
  | map entries ih =>
    obtain ⟨hr, he⟩ := isPlain_map_iff.mp h
    have hs : Dict.mapValues strip entries = entries := by
      refine List.map_congr_left (g := id) (fun e hm => ?_) |>.trans (List.map_id _)
      exact Prod.ext rfl (ih e hm (he e hm))
    rw [strip, hr, stripEntries_eq_mapValues, hs]
    simp

theorem map_strip_eq_self {items : List Value} (h : ∀ v ∈ items, v.isPlain = true) :
    items.map strip = items :=
  (List.map_congr_left fun v hv => strip_eq_self (h v hv)).trans (List.map_id _)

theorem strip_of_isReset {entries : Fields} (h : (map entries).isWellFormed = true)
    (hr : entries.isReset = true) : strip (map entries) = list (resetItems entries) := by
  have hc := (isWellFormed_map_iff.mp h).1 hr
  rw [strip_map_of_isReset hr, resetItems]
  cases hv : Dict.get? entries resetValueKey with
  | none => rfl
  | some v =>
    rw [hv] at hc
    cases v <;> simp_all [isResetContent, strip, list?]

theorem resetItems_plain {entries : Fields} (h : (map entries).isWellFormed = true) :
    ∀ v ∈ resetItems entries, v.isPlain = true := by
  rw [resetItems]
  cases hv : Dict.get? entries resetValueKey with
  | none => simp
  | some v =>
    have hw := isWellFormed_of_get? h hv
    cases v with
    | list items => simpa [list?] using isWellFormed_list_iff.mp hw
    | _ => simp [list?]

theorem strip_of_not_isReset {entries : Fields} (h : entries.isReset = false) :
    strip (map entries) = map (stripEntries entries) := by
  rw [strip, h]; simp

/-- Stripping makes no value `true`, so it makes no map a directive. -/
theorem strip_eq_true_iff {v : Value} (h : v.isWellFormed = true) :
    strip v = bool true ↔ v = bool true := by
  cases v with
  | map entries =>
    cases hr : Fields.isReset entries with
    | true => simp [strip_of_isReset h hr]
    | false => simp [strip_of_not_isReset hr]
  | _ => simp [strip]

/-- Nor does it make or unmake a string. -/
theorem string?_strip {v : Value} (h : v.isWellFormed = true) : v.strip.string? = v.string? := by
  cases v with
  | map entries =>
    cases hr : Fields.isReset entries with
    | true => rw [strip_of_isReset h hr]; rfl
    | false => rw [strip_of_not_isReset hr]; rfl
  | _ => rfl

theorem string?_strip_of_not_isReset {v : Value} (h : v.isReset = false) : v.strip.string? = v.string? := by
  cases v with
  | map entries => rw [strip_of_not_isReset h]; rfl
  | _ => rfl

theorem isReset_stripEntries {entries : Fields} (h : (map entries).isWellFormed = true) :
    Fields.isReset (stripEntries entries) = entries.isReset := by
  rw [Fields.isReset, Fields.isReset, get?_stripEntries]
  cases hv : Dict.get? entries resetKey with
  | none => rfl
  | some v => simp [strip_eq_true_iff (isWellFormed_of_get? h hv)]

theorem isPlain_strip {v : Value} (h : v.isWellFormed = true) : v.strip.isPlain = true := by
  induction v using induction with
  | scalar v hl hm => cases v <;> simp_all [strip, isPlain, list?, map?]
  | list items =>
    rw [strip.eq_2 _ (by simp)]
    exact isPlain_list_iff.mpr (isWellFormed_list_iff.mp h)
  | map entries ih =>
    cases hr : entries.isReset with
    | true =>
      rw [strip_of_isReset h hr]
      exact isPlain_list_iff.mpr (resetItems_plain h)
    | false =>
      rw [strip_of_not_isReset hr]
      refine isPlain_map_iff.mpr ⟨(isReset_stripEntries h).trans hr, fun e hm => ?_⟩
      rw [stripEntries_eq_mapValues, Dict.mapValues, List.mem_map] at hm
      obtain ⟨w, hw, rfl⟩ := hm
      exact ih w hw ((isWellFormed_map_iff.mp h).2 w hw)

/-! ## Merging and layering -/

/-- What merging puts at a key, given what the base has there. -/
def mergeOver : Option Value → Value → Value
  | some existing, v => merge existing v
  | none, v => strip v

/-- What layering puts at a key, given what the base has there. -/
def layerOver : Option Value → Value → Value
  | some existing, v => layer existing v
  | none, v => v

theorem mergeFields_eq_overlay (base : Fields) (d : List (String × Value)) :
    mergeFields base d = Dict.overlay mergeOver base d := by
  induction d with
  | nil => rfl
  | cons e rest ih =>
    obtain ⟨k, v⟩ := e
    rw [mergeFields, ih, Dict.overlay_cons]
    cases Dict.get? base k <;> rfl

theorem layerFields_eq_overlay (base : Fields) (d : List (String × Value)) :
    layerFields base d = Dict.overlay layerOver base d := by
  induction d with
  | nil => rfl
  | cons e rest ih =>
    obtain ⟨k, v⟩ := e
    rw [layerFields, ih, Dict.overlay_cons]
    cases Dict.get? base k <;> rfl

theorem merge_map_map {left right : Fields} (hl : left.isReset = false) (hr : right.isReset = false) :
    merge (map left) (map right) = map (mergeFields left right) := by
  simp [merge, hl, hr]

theorem layer_map_map {left right : Fields} (hl : left.isReset = false) (hr : right.isReset = false) :
    layer (map left) (map right) = map (layerFields left right) := by
  simp [layer, hl, hr]

/-- The fields of a map that is no directive. -/
def plainMap? : Value → Option Fields
  | map entries => if Fields.isReset entries then none else some entries
  | _ => none

theorem plainMap?_eq_some_iff {v : Value} {entries : Fields} :
    v.plainMap? = some entries ↔ v = map entries ∧ entries.isReset = false := by
  cases v with
  | map e => simp only [plainMap?]; grind
  | _ => simp [plainMap?]

theorem isReset_of_plainMap?_eq_none {entries : Fields} (h : (map entries).plainMap? = none) :
    entries.isReset = true := by
  simpa [plainMap?] using h

/-- A map replaces what is no map, and a directive. -/
theorem merge_of_plainMap?_eq_none {base : Value} (h : base.plainMap? = none) (right : Fields) :
    merge base (map right) = strip (map right) := by
  cases base with
  | map left => simp [merge, isReset_of_plainMap?_eq_none h]
  | _ => simp [merge]

theorem layer_of_plainMap?_eq_none {base : Value} (h : base.plainMap? = none) (right : Fields) :
    layer base (map right) = map right := by
  cases base with
  | map left => simp [layer, isReset_of_plainMap?_eq_none h]
  | _ => simp [layer]

theorem merge_of_isReset (base : Value) {right : Fields} (hr : right.isReset = true) :
    merge base (map right) = strip (map right) := by
  cases base <;> simp [merge, hr]

theorem layer_of_isReset (base : Value) {right : Fields} (hr : right.isReset = true) :
    layer base (map right) = map right := by
  cases base <;> simp [layer, hr]

/-- What is neither a list nor a map replaces what is below it. -/
theorem mergeOver_of_scalar {v : Value} (hl : v.list? = none) (hm : v.map? = none)
    (below : Option Value) : mergeOver below v = v := by
  cases below <;> cases v <;> simp_all [mergeOver, merge, strip, list?, map?]

/-- A directive replaces what is below it by its content. -/
theorem mergeOver_of_isReset {directive : Fields} (h : directive.isReset = true) (below : Option Value) :
    mergeOver below (map directive) =
      ((Dict.get? directive resetValueKey).map strip).getD (list []) := by
  cases below with
  | none => exact strip_map_of_isReset h
  | some v => exact (merge_of_isReset v h).trans (strip_map_of_isReset h)

theorem layer_eq_true_iff {base v : Value} : layer base v = bool true ↔ v = bool true := by
  cases v with
  | list right => cases base <;> simp [layer, resetTo]; split <;> simp
  | map right => cases base <;> simp [layer]; split <;> simp
  | _ => simp [layer]

theorem isReset_layerFields {left right : Fields} (hl : left.isReset = false)
    (hr : right.isReset = false) : Fields.isReset (layerFields left right) = false := by
  simp only [Fields.isReset, decide_eq_false_iff_not] at hl hr ⊢
  rw [get?_layerFields]
  cases hv : Dict.get? right resetKey with
  | none => exact hl
  | some v =>
    have hv' : v ≠ bool true := fun e => hr (by rw [hv, e])
    cases Dict.get? left resetKey <;> simp [layer_eq_true_iff, hv']

theorem isWellFormed_resetTo {items : List Value} (h : ∀ v ∈ items, v.isPlain = true) :
    (resetTo items).isWellFormed = true := by
  refine isWellFormed_map_iff.mpr ⟨fun _ => rfl, ?_⟩
  simpa [isWellFormed, itemsPlain_iff] using h

theorem isWellFormed_layer {base v : Value} (hb : base.isWellFormed = true)
    (hv : v.isWellFormed = true) : (layer base v).isWellFormed = true := by
  induction v using induction generalizing base with
  | scalar v hl hm => cases v <;> simp_all [layer, isWellFormed, list?, map?]
  | list right =>
    have hr := isWellFormed_list_iff.mp hv
    cases base with
    | list left =>
      refine isWellFormed_list_iff.mpr fun v hv => ?_
      exact (List.mem_append.mp hv).elim (isWellFormed_list_iff.mp hb v) (hr v)
    | map left =>
      rw [layer]
      split
      · refine isWellFormed_resetTo fun v hv => ?_
        exact (List.mem_append.mp hv).elim (resetItems_plain hb v) (hr v)
      · exact hv
    | _ => exact hv
  | map right ih =>
    cases hp : base.plainMap? with
    | none => rw [layer_of_plainMap?_eq_none hp]; exact hv
    | some left =>
      obtain ⟨rfl, hl⟩ := plainMap?_eq_some_iff.mp hp
      cases hr : right.isReset with
      | true => rw [layer_of_isReset _ hr]; exact hv
      | false =>
        rw [layer_map_map hl hr]
        refine isWellFormed_map_iff.mpr ⟨by simp [isReset_layerFields hl hr], ?_⟩
        rw [layerFields_eq_overlay]
        refine Dict.forall_mem_overlay (P := fun v : Value => v.isWellFormed = true)
          (isWellFormed_map_iff.mp hb).2 ?_
        intro e he
        have hw := (isWellFormed_map_iff.mp hv).2 e he
        cases hx : Dict.get? left e.1 with
        | none => exact hw
        | some x => exact ih e he (isWellFormed_of_get? hb hx) hw

/-! ## Lists without repeats -/

theorem mem_distinct {items : List Value} {v : Value} : v ∈ distinct items ↔ v ∈ items := by
  have hseen : ∀ seen : List Value,
      v ∈ items.foldl (fun seen item => if item ∈ seen then seen else seen ++ [item]) seen ↔ v ∈ seen ∨ v ∈ items := by
    induction items with
    | nil => simp
    | cons x rest ih =>
      intro seen
      rw [List.foldl_cons, ih, List.mem_cons]
      split
      · next hx =>
        constructor
        · exact fun h => h.imp_right .inr
        · rintro (h | rfl | h)
          · exact .inl h
          · exact .inl hx
          · exact .inr h
      · rw [List.mem_append, List.mem_singleton, or_assoc]
  rw [distinct, hseen]
  simp

theorem nodup_distinct (items : List Value) : (distinct items).Nodup := by
  refine List.foldlRecOn (motive := List.Nodup) items _ List.nodup_nil ?_
  intro seen ih item _
  split
  · exact ih
  · next hnew =>
    refine List.nodup_append.mpr ⟨ih, by simp, fun v hv w hw heq => hnew ?_⟩
    rwa [← List.mem_singleton.mp hw, ← heq]

/-- What an entry becomes once `required` lists hold no repeats. -/
def dedupEntry (key : String) (v : Value) : Value :=
  match key == "required", v with
  | true, list items => list (distinct items)
  | _, v => dedupRequired v

theorem dedupRequiredItems_eq_map (items : List Value) : dedupRequiredItems items = items.map dedupRequired := by
  induction items with
  | nil => rfl
  | cons x xs ih => rw [dedupRequiredItems, ih, List.map_cons]

theorem dedupRequiredEntries_eq_mapEntries (entries : Fields) :
    dedupRequiredEntries entries = Dict.mapEntries dedupEntry entries := by
  induction entries with
  | nil => rfl
  | cons e rest ih =>
    rw [dedupRequiredEntries.eq_def]
    exact congrArg (_ :: ·) ih

theorem dedupRequired_eq_true_iff {v : Value} : v.dedupRequired = bool true ↔ v = bool true := by
  cases v <;> simp [dedupRequired]

/-- Taking repeats out of `required` lists makes no directive. -/
theorem isPlain_dedupRequired {v : Value} (h : v.isPlain = true) : v.dedupRequired.isPlain = true := by
  induction v using induction with
  | scalar v hl hm => cases v <;> simp_all [dedupRequired, list?, map?]
  | list items ih =>
    have hitems := isPlain_list_iff.mp h
    rw [dedupRequired, isPlain_list_iff, dedupRequiredItems_eq_map, List.forall_mem_map]
    exact fun v hv => ih v hv (hitems v hv)
  | map entries ih =>
    obtain ⟨hr, hentries⟩ := isPlain_map_iff.mp h
    rw [dedupRequired, isPlain_map_iff, dedupRequiredEntries_eq_mapEntries]
    constructor
    · have hreset : dedupEntry resetKey = dedupRequired := by
        funext w
        rw [dedupEntry.eq_def, show (resetKey == "required") = false by decide]
      simp only [Fields.isReset, decide_eq_false_iff_not] at hr ⊢
      rw [Dict.get?_mapEntries, hreset]
      simpa [dedupRequired_eq_true_iff] using hr
    · rw [Dict.mapEntries, List.forall_mem_map]
      intro e he
      rw [dedupEntry.eq_def]
      split
      · next items _ hv =>
        have hitems := hentries e he
        rw [hv] at hitems
        exact isPlain_list_iff.mpr fun v hv => isPlain_list_iff.mp hitems v (mem_distinct.mp hv)
      · exact ih e he (hentries e he)

end Value

end DocModel
