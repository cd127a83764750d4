import DocModel.Proofs.Dict.Insertion

/-!
# Dictionaries laid over each other

`overlay f base d` has at each key of `d` what `f` makes of the value there and of what `base` has at that
key, and elsewhere what `base` has. Of several entries of `d` with one key only the first counts, so all
laws ask about the keys and values that `get?` finds in `d`:

* `get?_overlay`: what is at a key.
* `overlay_overlay`: when laying two dictionaries over a base one by one and laying them over each other first
  comes to the same.
* `mapValues_overlay`: when a map over the values goes past an overlay.
-/

namespace DocModel

namespace Dict

variable {α β : Type}

/-- Every value changed, with its key at hand. -/
def mapEntries (f : String → α → β) (d : Dict α) : Dict β := d.map fun e => (e.1, f e.1 e.2)

/-- All entries inserted; of two with one key the first stays. -/
def insertAll (base : Dict α) : Dict α → Dict α
  | [] => base
  | (k, v) :: rest => insert (insertAll base rest) k v

/-- The values of `d` over those of `base`. -/
def overlay (f : Option α → α → α) (base d : Dict α) : Dict α :=
  insertAll base (mapEntries (fun k v => f (get? base k) v) d)

theorem keys_mapEntries (f : String → α → β) (d : Dict α) : keys (mapEntries f d) = keys d := by
  simp [keys, mapEntries]

theorem get?_mapEntries (f : String → α → β) (d : Dict α) (key : String) :
    get? (mapEntries f d) key = (get? d key).map (f key) := by
  induction d with
  | nil => rfl
  | cons e rest ih =>
    obtain ⟨k, v⟩ := e
    simp only [mapEntries, List.map_cons, get?] at ih ⊢
    split
    · next hk => subst hk; rfl
    · exact ih

theorem get?_insertAll (base d : Dict α) (key : String) :
    get? (insertAll base d) key = (get? d key).or (get? base key) := by
  induction d with
  | nil => rfl
  | cons e rest ih =>
    obtain ⟨k, v⟩ := e
    rw [insertAll, get?_insert, ih, get?]
    by_cases h : key = k
    · simp [h]
    · simp [h, Ne.symm h]

theorem get?_overlay (f : Option α → α → α) (base d : Dict α) (key : String) :
    get? (overlay f base d) key =
      match get? d key with
      | some v => some (f (get? base key) v)
      | none => get? base key := by
  rw [overlay, get?_insertAll, get?_mapEntries]
  cases get? d key <;> rfl

theorem overlay_cons (f : Option α → α → α) (base : Dict α) (k : String) (v : α) (rest : Dict α) :
    overlay f base ((k, v) :: rest) = insert (overlay f base rest) k (f (get? base k) v) := rfl

theorem forall_mem_overlay {P : α → Prop} {f : Option α → α → α} {base : Dict α}
    (hb : ∀ e ∈ base, P e.2) {d : Dict α} (hd : ∀ e ∈ d, P (f (get? base e.1) e.2)) :
    ∀ e ∈ overlay f base d, P e.2 := by
  induction d with
  | nil => exact hb
  | cons e rest ih =>
    obtain ⟨he, hrest⟩ := List.forall_mem_cons.mp hd
    rw [overlay_cons]
    exact forall_mem_insert (ih hrest) he

theorem Ordered.overlay {base : Dict α} (h : Ordered base) (f : Option α → α → α) (d : Dict α) :
    Ordered (overlay f base d) := by
  induction d with
  | nil => exact h
  | cons e rest ih => exact ih.insert _ _

/-! ## Only first entries count -/

/-- What is inserted last hides what the entries say about its key. -/
theorem insert_insertAll_erase (base d : Dict α) (key : String) (value : α) :
    insert (insertAll base (erase d key)) key value = insert (insertAll base d) key value := by
  induction d with
  | nil => rfl
  | cons e rest ih =>
    obtain ⟨k, v⟩ := e
    by_cases h : k = key
    · subst h
      have he : erase ((k, v) :: rest) k = erase rest k := by simp [erase]
      rw [he, ih, insertAll, insert_insert_self]
    · have he : erase ((k, v) :: rest) key = (k, v) :: erase rest key := by simp [erase, h]
      rw [he, insertAll, insertAll, insert_comm _ _ _ h, ih, insert_comm _ _ _ h]

theorem keys_erase (d : Dict α) (key : String) :
    keys (erase d key) = (keys d).filter (· ≠ key) := by
  simp only [keys, erase, List.filter_map]
  rfl

theorem insertAll_congr (base : Dict α) {d d' : Dict α} (hk : keys d = keys d')
    (h : ∀ key, get? d key = get? d' key) : insertAll base d = insertAll base d' := by
  -- The first entries agree. What the rests say about their key is hidden, so it can be erased there.
  induction hn : d.length using Nat.strongRecOn generalizing d d' with
  | _ n ih =>
    match d, d', hk with
    | [], [], _ => rfl
    | (k, v) :: rest, (k', v') :: rest', hk =>
      simp only [keys, List.map_cons, List.cons.injEq] at hk
      obtain ⟨rfl, hk⟩ := hk
      have hv : v = v' := by simpa [get?] using h k
      have hrest : insertAll base (erase rest k) = insertAll base (erase rest' k) := by
        refine ih (erase rest k).length ?_ ?_ ?_ rfl
        · rw [← hn]
          exact Nat.lt_succ_of_le (List.length_filter_le _ _)
        · rw [keys_erase, keys_erase, show keys rest = keys rest' from hk]
        · intro key
          rw [get?_erase, get?_erase]
          split
          · rfl
          · next hne => simpa [get?, Ne.symm hne] using h key
      rw [insertAll, insertAll, hv, ← insert_insertAll_erase, hrest, insert_insertAll_erase]

theorem insertAll_mapEntries_congr (base : Dict β) (d : Dict α) {f g : String → α → β}
    (h : ∀ key v, get? d key = some v → f key v = g key v) :
    insertAll base (mapEntries f d) = insertAll base (mapEntries g d) := by
  refine insertAll_congr base (by rw [keys_mapEntries, keys_mapEntries]) fun key => ?_
  rw [get?_mapEntries, get?_mapEntries]
  cases hv : get? d key with
  | none => rfl
  | some v => exact congrArg some (h key v hv)

/-! ## Overlays of overlays -/

theorem overlay_replace (f : Option α → α → α) (base : Dict α) {d : Dict α} {key : String} (value : α)
    (h : key ∈ keys d) :
    overlay f base (replace d key value) = insert (overlay f base d) key (f (get? base key) value) := by
  induction d with
  | nil => simp [keys] at h
  | cons e rest ih =>
    obtain ⟨k, v⟩ := e
    rw [replace]
    split
    · next hk => subst hk; rw [overlay_cons, overlay_cons, insert_insert_self]
    · next hk =>
      have hrest : key ∈ keys rest := (List.mem_cons.mp h).resolve_left (Ne.symm hk)
      rw [overlay_cons, overlay_cons, ih hrest, insert_comm _ _ _ (Ne.symm hk)]

theorem overlay_place (f : Option α → α → α) (base : Dict α) {d : Dict α} {key : String} (value : α)
    (h : key ∉ keys d) :
    overlay f base (place d key value) = insert (overlay f base d) key (f (get? base key) value) := by
  induction d with
  | nil => rfl
  | cons e rest ih =>
    obtain ⟨k, v⟩ := e
    rw [place]
    split
    · rfl
    · obtain ⟨hk, hrest⟩ := not_or.mp (mt List.mem_cons.mpr h)
      rw [overlay_cons, overlay_cons, ih hrest, insert_comm _ _ _ hk]

theorem overlay_insert (f : Option α → α → α) (base d : Dict α) (key : String) (value : α) :
    overlay f base (insert d key value) = insert (overlay f base d) key (f (get? base key) value) := by
  rw [insert]
  split
  · next hc => exact overlay_replace f base value (contains_eq_true_iff.mp hc)
  · next hc => exact overlay_place f base value fun hk => hc (contains_eq_true_iff.mpr hk)

theorem overlay_insertAll (f : Option α → α → α) (base left d : Dict α) :
    overlay f base (insertAll left d) =
      insertAll (overlay f base left) (mapEntries (fun k v => f (get? base k) v) d) := by
  induction d with
  | nil => rfl
  | cons e rest ih => rw [insertAll, overlay_insert, ih]; rfl

theorem mapEntries_mapEntries {γ : Type} (f : String → β → γ) (g : String → α → β) (d : Dict α) :
    mapEntries f (mapEntries g d) = mapEntries (fun k v => f k (g k v)) d := by
  simp [mapEntries]

/-- Two dictionaries laid over a base one by one come to the same as their overlay laid over it, if they do
so at every key of the upper one. -/
theorem overlay_overlay {f g : Option α → α → α} {base left right : Dict α}
    (h : ∀ key v, get? right key = some v →
      f (get? base key) (g (get? left key) v) = f (get? (overlay f base left) key) v) :
    overlay f base (overlay g left right) = overlay f (overlay f base left) right := by
  rw [overlay.eq_1 g, overlay_insertAll, mapEntries_mapEntries, overlay.eq_1 f (overlay f base left)]
  exact insertAll_mapEntries_congr _ right h

theorem mapValues_insertAll (s : α → β) (base d : Dict α) :
    mapValues s (insertAll base d) = insertAll (mapValues s base) (mapEntries (fun _ v => s v) d) := by
  induction d with
  | nil => rfl
  | cons e rest ih => rw [insertAll, mapValues_insert, ih]; rfl

/-- A map over the values goes past an overlay, if it does so at every key of the upper dictionary. -/
theorem mapValues_overlay {s : α → β} {g : Option α → α → α} {f : Option β → α → β} {left right : Dict α}
    (h : ∀ key v, get? right key = some v → s (g (get? left key) v) = f ((get? left key).map s) v) :
    mapValues s (overlay g left right) =
      insertAll (mapValues s left) (mapEntries (fun k v => f (get? (mapValues s left) k) v) right) := by
  rw [overlay, mapValues_insertAll, mapEntries_mapEntries]
  exact insertAll_mapEntries_congr _ right fun key v hv => by rw [h key v hv, get?_mapValues]

end Dict

end DocModel
