import DocModel.Merging

/-!
# The size of a value

`Value.size` counts the nodes of a value. What a value is made of is smaller than the value
(`size_lt_of_mem_items`, `size_lt_of_get?`), stripping makes no value larger (`size_strip_le`), and merging
makes nothing larger than both sides together (`size_merge_le`, `fieldsSize_mergeFields_le`).
-/

namespace DocModel

namespace Value

mutual

/-- The number of nodes. -/
def size : Value → Nat
  | list items => 1 + itemsSize items
  | map entries => 1 + fieldsSize entries
  | _ => 1

def itemsSize : List Value → Nat
  | [] => 0
  | x :: xs => size x + itemsSize xs

def fieldsSize : List (String × Value) → Nat
  | [] => 0
  | (_, v) :: rest => size v + fieldsSize rest

end

theorem size_pos (v : Value) : 0 < v.size := by
  cases v <;> simp only [size] <;> omega

theorem size_le_itemsSize {v : Value} {items : List Value} (h : v ∈ items) :
    v.size ≤ itemsSize items := by
  induction items with
  | nil => simp at h
  | cons x xs ih =>
    simp only [itemsSize]
    rcases List.mem_cons.mp h with rfl | h
    · omega
    · have := ih h; omega

theorem size_le_fieldsSize {key : String} {v : Value} {entries : List (String × Value)}
    (h : (key, v) ∈ entries) : v.size ≤ fieldsSize entries := by
  induction entries with
  | nil => simp at h
  | cons e rest ih =>
    obtain ⟨k, w⟩ := e
    simp only [fieldsSize]
    rcases List.mem_cons.mp h with heq | h
    · obtain ⟨rfl, rfl⟩ := Prod.mk.inj heq
      omega
    · have := ih h; omega

theorem mem_of_get? {entries : List (String × Value)} {key : String} {v : Value}
    (h : Dict.get? entries key = some v) : (key, v) ∈ entries := by
  induction entries with
  | nil => simp at h
  | cons e rest ih =>
    obtain ⟨k, w⟩ := e
    by_cases hk : k = key
    · simp_all [Dict.get?]
    · simp only [Dict.get?, hk, if_false] at h
      exact List.mem_cons_of_mem _ (ih h)

theorem size_le_of_get? {entries : List (String × Value)} {key : String} {v : Value}
    (h : Dict.get? entries key = some v) : v.size ≤ fieldsSize entries :=
  size_le_fieldsSize (mem_of_get? h)

/-! ## Sizes of the results -/

theorem itemsSize_append (xs ys : List Value) :
    itemsSize (xs ++ ys) = itemsSize xs + itemsSize ys := by
  induction xs with
  | nil => simp [itemsSize]
  | cons x xs ih => simp only [List.cons_append, itemsSize, ih]; omega

mutual

theorem size_strip_le : ∀ v : Value, v.strip.size ≤ v.size
  | null | bool _ | number _ | string _ | list _ => by simp [strip]
  | map entries => by
    have ih := fieldsSize_stripEntries_le entries
    rw [strip]
    split
    · cases h : Dict.get? (stripEntries entries) resetValueKey with
      | none => simp only [Option.getD_none, size, itemsSize]; omega
      | some v =>
        have := size_le_of_get? h
        simp only [Option.getD_some, size]; omega
    · simp only [size]; omega

theorem fieldsSize_stripEntries_le : ∀ entries : List (String × Value),
    fieldsSize (stripEntries entries) ≤ fieldsSize entries
  | [] => by simp [stripEntries]
  | (_, v) :: rest => by
    have := size_strip_le v
    have := fieldsSize_stripEntries_le rest
    simp only [stripEntries, fieldsSize]; omega

end

theorem itemsSize_map_strip_le (items : List Value) :
    itemsSize (items.map strip) ≤ itemsSize items := by
  induction items with
  | nil => simp
  | cons x xs ih =>
    have := size_strip_le x
    simp only [List.map_cons, itemsSize]; omega

/-- The size of what a key has, none being nothing. -/
def sizeAt (entries : Fields) (key : String) : Nat :=
  match Dict.get? entries key with
  | some v => v.size
  | none => 0

def sizesAt (entries : Fields) : List String → Nat
  | [] => 0
  | key :: rest => sizeAt entries key + sizesAt entries rest

theorem sizeAt_insert_self (entries : Fields) (key : String) (v : Value) :
    sizeAt (Dict.insert entries key v) key = v.size := by
  simp [sizeAt, Dict.get?_insert_self]

theorem sizeAt_insert_of_ne (entries : Fields) {key other : String} (v : Value) (h : other ≠ key) :
    sizeAt (Dict.insert entries key v) other = sizeAt entries other := by
  simp [sizeAt, Dict.get?_insert_of_ne entries v h]

theorem fieldsSize_replace (entries : Fields) (key : String) (v old : Value)
    (h : Dict.get? entries key = some old) :
    fieldsSize (Dict.replace entries key v) + old.size = fieldsSize entries + v.size := by
  induction entries with
  | nil => simp at h
  | cons e rest ih =>
    obtain ⟨k, w⟩ := e
    by_cases hk : k = key
    · have : w = old := by simpa [Dict.get?, hk] using h
      subst this
      simp only [Dict.replace, hk, if_true, fieldsSize]; omega
    · simp only [Dict.get?, hk, if_false] at h
      have := ih h
      simp only [Dict.replace, hk, if_false, fieldsSize]; omega

theorem fieldsSize_place (entries : Fields) (key : String) (v : Value) :
    fieldsSize (Dict.place entries key v) = fieldsSize entries + v.size := by
  induction entries with
  | nil => simp [Dict.place, fieldsSize]
  | cons e rest ih =>
    obtain ⟨k, w⟩ := e
    rw [Dict.place]
    split <;> simp only [fieldsSize, ih] <;> omega

/-- What an entry had before is gone, and what it has now is added. -/
theorem fieldsSize_insert (entries : Fields) (key : String) (v : Value) :
    fieldsSize (Dict.insert entries key v) + sizeAt entries key = fieldsSize entries + v.size := by
  rw [Dict.insert, Dict.contains, sizeAt]
  cases h : Dict.get? entries key with
  | none => simp [fieldsSize_place]
  | some old => simpa using fieldsSize_replace entries key v old h

theorem sizesAt_insert_of_not_mem (entries : Fields) {key : String} (v : Value) {keys : List String}
    (h : key ∉ keys) : sizesAt (Dict.insert entries key v) keys = sizesAt entries keys := by
  induction keys with
  | nil => rfl
  | cons k keys ih =>
    obtain ⟨hk, h⟩ : key ≠ k ∧ key ∉ keys := by simpa using h
    have := ih h
    simp only [sizesAt] at this ⊢
    rw [this, sizeAt_insert_of_ne entries v (Ne.symm hk)]

theorem sizesAt_insert_of_mem (entries : Fields) {key : String} (v : Value) {keys : List String}
    (hd : keys.Nodup) (h : key ∈ keys) :
    sizesAt (Dict.insert entries key v) keys + sizeAt entries key = sizesAt entries keys + v.size := by
  induction keys with
  | nil => simp at h
  | cons k keys ih =>
    obtain ⟨hk, hd⟩ := List.nodup_cons.mp hd
    by_cases heq : k = key
    · subst heq
      have := sizesAt_insert_of_not_mem entries v hk
      simp only [sizesAt] at this ⊢
      rw [this, sizeAt_insert_self]; omega
    · have := ih hd ((List.mem_cons.mp h).resolve_left (Ne.symm heq))
      simp only [sizesAt] at this ⊢
      rw [sizeAt_insert_of_ne entries v heq]; omega

/-- What the first key of an overlay gets is no larger than what the two sides have there. -/
theorem mergeFields_cons {base : Fields} {key : String} {v : Value} (rest : List (String × Value))
    (ih : ∀ below : Value, (merge below v).size ≤ below.size + v.size) :
    ∃ merged : Value, mergeFields base ((key, v) :: rest) = Dict.insert (mergeFields base rest) key merged
      ∧ merged.size ≤ sizeAt base key + v.size := by
  refine ⟨_, by rw [mergeFields], ?_⟩
  cases h : Dict.get? base key with
  | some existing => simpa [sizeAt, h] using ih existing
  | none => simpa [sizeAt, h] using size_strip_le v

mutual

/-- Merging makes nothing larger than both sides together. -/
theorem size_merge_le : ∀ overlay base : Value, (merge base overlay).size ≤ base.size + overlay.size
  | null, _ | bool _, _ | number _, _ | string _, _ => by simp [merge]
  | list right, base => by
    have := itemsSize_map_strip_le right
    cases base with
    | list left => simp only [merge, size, itemsSize_append]; omega
    | _ => simp only [merge, size]; omega
  | map right, base => by
    have hstrip := size_strip_le (map right)
    have hpos := size_pos base
    cases base with
    | map left =>
      rw [merge]
      split
      · omega
      · have := sizesAt_mergeFields_le right left [] List.nodup_nil
        simp only [sizesAt] at this
        simp only [size]; omega
    | _ => simp only [merge]; omega

/-- As for whole values, and what is at the keys of a list may be left out on both sides. -/
theorem sizesAt_mergeFields_le : ∀ (overlay : List (String × Value)) (base : Fields)
    (keys : List String), keys.Nodup →
    fieldsSize (mergeFields base overlay) + sizesAt base keys
      ≤ fieldsSize base + fieldsSize overlay + sizesAt (mergeFields base overlay) keys
  | [], base, keys, _ => by simp [mergeFields, fieldsSize]
  | (k, v) :: rest, base, keys, hd => by
    obtain ⟨merged, heq, hv⟩ := mergeFields_cons rest (size_merge_le v)
    rw [heq]
    have hsize := fieldsSize_insert (mergeFields base rest) k merged
    simp only [fieldsSize]
    by_cases hk : k ∈ keys
    · have ih := sizesAt_mergeFields_le rest base keys hd
      have := sizesAt_insert_of_mem (mergeFields base rest) merged hd hk
      have := size_pos v
      omega
    · have ih := sizesAt_mergeFields_le rest base (k :: keys) (List.nodup_cons.mpr ⟨hk, hd⟩)
      rw [sizesAt_insert_of_not_mem _ _ hk]
      simp only [sizesAt] at ih ⊢
      omega

end

theorem fieldsSize_mergeFields_le (base overlay : Fields) :
    fieldsSize (mergeFields base overlay) ≤ fieldsSize base + fieldsSize overlay := by
  simpa [sizesAt] using sizesAt_mergeFields_le overlay base [] List.nodup_nil

/-- Taking a key away takes away at least what it had. -/
theorem fieldsSize_erase_le (entries : Fields) (key : String) :
    fieldsSize (Dict.erase entries key) + sizeAt entries key ≤ fieldsSize entries := by
  induction entries with
  | nil => simp [Dict.erase, sizeAt, fieldsSize]
  | cons e rest ih =>
    obtain ⟨k, v⟩ := e
    by_cases h : k = key
    · have : fieldsSize (Dict.erase rest key) ≤ fieldsSize rest := by omega
      simp only [Dict.erase, sizeAt, Dict.get?, h, if_true, fieldsSize] at this ⊢
      rw [List.filter_cons_of_neg (by simp)]
      omega
    · simp only [Dict.erase, sizeAt, Dict.get?, h, if_false, fieldsSize] at ih ⊢
      rw [List.filter_cons_of_pos (by simpa using h)]
      simp only [fieldsSize]; omega

end Value

end DocModel
