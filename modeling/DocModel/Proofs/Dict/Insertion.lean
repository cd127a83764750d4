import Mathlib.Data.List.Nodup
import DocModel.Dict

/-!
# Insertion into dictionaries

How insertions into a dictionary go together, whatever the order of its entries, and what they keep of that
order.

* `insert_insert_self`, `insert_comm`: the last insertion under a key counts, and insertions under different
  keys can change places.
* `mapValues_insert`: a map over the values goes past an insertion.
* `get?_ofList`: a dictionary of entries with different keys has these entries.
* `Ordered.insert`: a dictionary that is built by insertion has its keys in increasing order.
* `Ordered.ext`: a dictionary in order is known from what is found in it.
* `filter_key`, `erase_insert_self`, `get?_foldl_erase`, `foldl_erase_insert`: what is left when entries are taken
  out.
-/

namespace DocModel

namespace Dict

section Keys

variable {κ α : Type} [DecidableEq κ]

theorem mem_of_get? {d : List (κ × α)} {key : κ} {v : α} (h : get? d key = some v) : (key, v) ∈ d := by
  induction d with
  | nil => simp at h
  | cons entry rest ih =>
    obtain ⟨k, w⟩ := entry
    rw [get?] at h
    split at h
    · next hk => cases h; rw [hk]; exact List.mem_cons_self
    · exact List.mem_cons_of_mem _ (ih h)

theorem get?_of_mem {d : List (κ × α)} (h : (keys d).Nodup) {key : κ} {v : α} (hm : (key, v) ∈ d) :
    get? d key = some v := by
  induction d with
  | nil => simp at hm
  | cons entry rest ih =>
    obtain ⟨k, w⟩ := entry
    obtain ⟨hk, hrest⟩ := List.nodup_cons.mp h
    rcases List.mem_cons.mp hm with heq | hm
    · cases heq
      rw [get?, if_pos rfl]
    · have hkey : key ∈ keys rest := List.mem_map_of_mem (f := Prod.fst) hm
      have hne : k ≠ key := fun he => hk (he ▸ hkey)
      rw [get?, if_neg hne]
      exact ih hrest hm

theorem contains_eq_true_iff {d : List (κ × α)} {key : κ} : contains d key = true ↔ key ∈ keys d := by
  induction d with
  | nil => simp [contains, keys]
  | cons entry rest ih =>
    obtain ⟨k, v⟩ := entry
    by_cases hk : k = key
    · simp [contains, get?, keys, hk]
    · simp only [contains, get?, keys, hk, if_false, List.map_cons, List.mem_cons, Ne.symm hk,
        false_or] at ih ⊢
      exact ih

theorem get?_eq_none_iff {d : List (κ × α)} {key : κ} : get? d key = none ↔ contains d key = false := by
  rw [contains, Option.isSome_eq_false_iff, Option.isNone_iff_eq_none]

theorem keys_replace (d : List (κ × α)) (key : κ) (value : α) : keys (replace d key value) = keys d := by
  induction d with
  | nil => rfl
  | cons entry rest ih => grind [replace, keys]

variable [LT κ] [DecidableLT κ]

omit [DecidableEq κ] in
theorem place_perm (d : List (κ × α)) (key : κ) (value : α) : (place d key value).Perm ((key, value) :: d) := by
  induction d with
  | nil => exact List.Perm.refl _
  | cons entry rest ih =>
    obtain ⟨k, v⟩ := entry
    rw [place]
    split
    · exact List.Perm.refl _
    · exact (ih.cons (k, v)).trans (List.Perm.swap (key, value) (k, v) rest)

omit [DecidableEq κ] in
theorem keys_place_perm (d : List (κ × α)) (key : κ) (value : α) :
    (keys (place d key value)).Perm (key :: keys d) :=
  (place_perm d key value).map Prod.fst

/-- A new key comes to the others. -/
theorem keys_insert_perm {d : List (κ × α)} {key : κ} (h : contains d key = false) (value : α) :
    (keys (insert d key value)).Perm (key :: keys d) := by
  rw [insert, h]
  exact keys_place_perm d key value

end Keys

variable {α β : Type}

/-- What is found among the entries that there are for some keys. -/
theorem get?_filterMap (f : String → Option α) (names : List String) (key : String) :
    get? (names.filterMap fun name => (f name).map ((name, ·))) key =
      if key ∈ names then f key else none := by
  induction names with
  | nil => rfl
  | cons name rest ih =>
    rw [List.filterMap_cons]
    by_cases h : key = name
    · subst h
      cases hf : f key with
      | none => simp [ih, hf]
      | some v => simp [get?]
    · cases f name with
      | none => simp [ih, h]
      | some v => simp [get?, ih, h, Ne.symm h]

theorem keys_filterMap {f : String → Option α} {names : List String}
    (h : ∀ name ∈ names, (f name).isSome = true) :
    keys (names.filterMap fun name => (f name).map ((name, ·))) = names := by
  induction names with
  | nil => rfl
  | cons name rest ih =>
    obtain ⟨hname, hrest⟩ := List.forall_mem_cons.mp h
    obtain ⟨v, hv⟩ := Option.isSome_iff_exists.mp hname
    rw [List.filterMap_cons, hv]
    exact congrArg (name :: ·) (ih hrest)

theorem keys_filterMap_sublist (f : String → Option α) (names : List String) :
    (keys (names.filterMap fun name => (f name).map ((name, ·)))).Sublist names := by
  induction names with
  | nil => exact .slnil
  | cons name rest ih =>
    rw [List.filterMap_cons]
    cases f name with
    | none => exact ih.cons name
    | some v => exact ih.cons_cons name

theorem contains_insert (d : Dict α) (key other : String) (value : α) :
    contains (insert d key value) other = (other == key || contains d other) := by
  rw [contains, get?_insert, contains]
  by_cases h : other = key <;> simp [h]

theorem forall_mem_replace {P : α → Prop} {d : Dict α} {key : String} {value : α}
    (hd : ∀ e ∈ d, P e.2) (hv : P value) : ∀ e ∈ replace d key value, P e.2 := by
  induction d with
  | nil => simp [replace]
  | cons entry rest ih =>
    obtain ⟨he, hrest⟩ := List.forall_mem_cons.mp hd
    rw [replace]
    split
    · exact List.forall_mem_cons.mpr ⟨hv, hrest⟩
    · exact List.forall_mem_cons.mpr ⟨he, ih hrest⟩

theorem forall_mem_place {P : α → Prop} {d : Dict α} {key : String} {value : α}
    (hd : ∀ e ∈ d, P e.2) (hv : P value) : ∀ e ∈ place d key value, P e.2 := by
  induction d with
  | nil => simpa [place] using hv
  | cons entry rest ih =>
    obtain ⟨he, hrest⟩ := List.forall_mem_cons.mp hd
    rw [place]
    split
    · exact List.forall_mem_cons.mpr ⟨hv, hd⟩
    · exact List.forall_mem_cons.mpr ⟨he, ih hrest⟩

/-- What holds of all values and of a new one holds of all values after its insertion. -/
theorem forall_mem_insert {P : α → Prop} {d : Dict α} {key : String} {value : α}
    (hd : ∀ e ∈ d, P e.2) (hv : P value) : ∀ e ∈ insert d key value, P e.2 := by
  rw [insert]
  split
  · exact forall_mem_replace hd hv
  · exact forall_mem_place hd hv

/-! ## Two insertions -/

theorem replace_replace_self (d : Dict α) (key : String) (v w : α) :
    replace (replace d key v) key w = replace d key w := by
  induction d with
  | nil => rfl
  | cons entry rest ih => grind [replace]

theorem replace_comm (d : Dict α) {k l : String} (v w : α) (h : k ≠ l) :
    replace (replace d k v) l w = replace (replace d l w) k v := by
  induction d with
  | nil => rfl
  | cons entry rest ih => grind [replace]

theorem replace_place_of_ne (d : Dict α) {k l : String} (v w : α) (h : k ≠ l) :
    replace (place d k v) l w = place (replace d l w) k v := by
  induction d with
  | nil => grind [replace, place]
  | cons entry rest ih => grind [replace, place]

theorem replace_place_self (d : Dict α) (key : String) (v w : α) (h : contains d key = false) :
    replace (place d key v) key w = place d key w := by
  induction d with
  | nil => grind [replace, place]
  | cons entry rest ih => grind [replace, place, contains, get?]

theorem place_comm (d : Dict α) {k l : String} (v w : α) (h : k ≠ l) :
    place (place d k v) l w = place (place d l w) k v := by
  have asymm : ∀ a b : String, a < b → ¬ b < a := fun _ _ => String.lt_asymm
  have trans : ∀ a b c : String, a < b → b < c → a < c := fun _ _ _ => String.lt_trans
  rcases Std.lt_trichotomy k l with hlt | heq | hlt
  · induction d with
    | nil => grind [place]
    | cons entry rest ih => grind [place]
  · exact absurd heq h
  · induction d with
    | nil => grind [place]
    | cons entry rest ih => grind [place]

/-- Of two insertions under one key the later one counts. -/
theorem insert_insert_self (d : Dict α) (key : String) (v w : α) :
    insert (insert d key v) key w = insert d key w := by
  have hc : contains (insert d key v) key = true := by simp [contains_insert]
  rw [insert, if_pos hc]
  by_cases h : contains d key = true
  · rw [insert, if_pos h, insert, if_pos h, replace_replace_self]
  · rw [insert, if_neg h, insert, if_neg h, replace_place_self _ _ _ _ (by simpa using h)]

/-- Insertions under different keys can change places. -/
theorem insert_comm (d : Dict α) {k l : String} (v w : α) (h : k ≠ l) :
    insert (insert d k v) l w = insert (insert d l w) k v := by
  have hl : contains (insert d k v) l = contains d l := by simp [contains_insert, Ne.symm h]
  have hk : contains (insert d l w) k = contains d k := by simp [contains_insert, h]
  rw [insert, hl, insert.eq_1 (insert d l w), hk]
  by_cases ck : contains d k = true <;> by_cases cl : contains d l = true <;>
    simp only [insert, ck, cl, Bool.false_eq_true, ↓reduceIte]
  · exact replace_comm d v w h
  · exact (replace_place_of_ne d w v (Ne.symm h)).symm
  · exact replace_place_of_ne d v w h
  · exact place_comm d v w h

/-! ## Many insertions -/

theorem get?_foldl_insert_of_not_mem {entries : List (String × α)} {key : String} (h : key ∉ keys entries)
    (d : Dict α) : get? (entries.foldl (fun d entry => insert d entry.1 entry.2) d) key = get? d key := by
  induction entries generalizing d with
  | nil => rfl
  | cons entry rest ih =>
    obtain ⟨hne, hrest⟩ := not_or.mp (mt List.mem_cons.mpr h)
    rw [List.foldl_cons, ih hrest, get?_insert_of_ne d entry.2 hne]

theorem get?_foldl_insert {entries : List (String × α)} (h : (keys entries).Nodup) (d : Dict α)
    (key : String) : get? (entries.foldl (fun d entry => insert d entry.1 entry.2) d) key =
      (get? entries key).or (get? d key) := by
  induction entries generalizing d with
  | nil => rfl
  | cons entry rest ih =>
    obtain ⟨k, v⟩ := entry
    obtain ⟨hk, hrest⟩ := List.nodup_cons.mp h
    rw [List.foldl_cons, get?]
    split
    · next heq =>
      subst heq
      rw [get?_foldl_insert_of_not_mem hk, get?_insert_self]
      rfl
    · next hne => rw [ih hrest, get?_insert_of_ne d v (Ne.symm hne)]

/-- A dictionary of entries with different keys has these entries. -/
theorem get?_ofList {entries : List (String × α)} (h : (keys entries).Nodup) (key : String) :
    get? (ofList entries) key = get? entries key := by
  rw [ofList, get?_foldl_insert h, get?_nil, Option.or_none]

theorem get?_append (d d' : Dict α) (key : String) : get? (d ++ d') key = (get? d key).or (get? d' key) := by
  induction d with
  | nil => rfl
  | cons entry rest ih =>
    obtain ⟨k, v⟩ := entry
    rw [List.cons_append, get?, get?]
    split
    · rfl
    · exact ih

theorem forall_mem_ofList {P : α → Prop} {entries : List (String × α)} (h : ∀ e ∈ entries, P e.2) :
    ∀ e ∈ ofList entries, P e.2 :=
  List.foldlRecOn entries _ (motive := fun d : Dict α => ∀ e ∈ d, P e.2) (by simp)
    fun _ hd e he => forall_mem_insert hd (h e he)

/-! ## Mapping over the values -/

theorem keys_mapValues (f : α → β) (d : Dict α) : keys (mapValues f d) = keys d := by
  simp [keys, mapValues]

theorem contains_mapValues (f : α → β) (d : Dict α) (key : String) :
    contains (mapValues f d) key = contains d key := by
  rw [contains, get?_mapValues, Option.isSome_map, contains]

theorem mapValues_replace (f : α → β) (d : Dict α) (key : String) (value : α) :
    mapValues f (replace d key value) = replace (mapValues f d) key (f value) := by
  induction d with
  | nil => rfl
  | cons entry rest ih => grind [replace, mapValues]

theorem mapValues_place (f : α → β) (d : Dict α) (key : String) (value : α) :
    mapValues f (place d key value) = place (mapValues f d) key (f value) := by
  induction d with
  | nil => rfl
  | cons entry rest ih => grind [place, mapValues]

theorem mapValues_insert (f : α → β) (d : Dict α) (key : String) (value : α) :
    mapValues f (insert d key value) = insert (mapValues f d) key (f value) := by
  have hc : contains (mapValues f d) key = contains d key := by simp [contains, get?_mapValues]
  rw [insert, insert, hc]
  split
  · exact mapValues_replace f d key value
  · exact mapValues_place f d key value

/-! ## Order -/

theorem mem_keys_place {d : Dict α} {key other : String} {value : α} :
    other ∈ keys (place d key value) ↔ other = key ∨ other ∈ keys d := by
  induction d with
  | nil => simp [place, keys]
  | cons entry rest ih => grind [place, keys]

/-- An element that is added to the list of a key comes to the elements of all lists. -/
theorem flatMap_modify_perm (d : Dict (List α)) (key : String) (x : α) :
    ((modify d key [] (· ++ [x])).flatMap Prod.snd).Perm (x :: d.flatMap Prod.snd) := by
  have hreplace : ∀ (d : Dict (List α)) (old : List α), get? d key = some old →
      ((replace d key (old ++ [x])).flatMap Prod.snd).Perm (x :: d.flatMap Prod.snd) := by
    intro d old h
    induction d with
    | nil => cases h
    | cons entry rest ih =>
      obtain ⟨k, v⟩ := entry
      rw [get?] at h
      rw [replace]
      split at h
      · next hk =>
        cases h
        rw [if_pos hk, List.flatMap_cons, List.flatMap_cons, List.append_assoc]
        exact List.perm_middle
      · next hk =>
        rw [if_neg hk, List.flatMap_cons, List.flatMap_cons]
        exact ((ih h).append_left v).trans List.perm_middle
  rw [modify, insert, contains]
  cases h : get? d key with
  | some old => exact hreplace d old h
  | none => exact (place_perm d key [x]).flatMap_right Prod.snd

theorem Ordered.nil : Ordered ([] : Dict α) := List.Pairwise.nil

theorem Ordered.nodup {d : Dict α} (h : Ordered d) : (keys d).Nodup := by
  refine List.Pairwise.imp (fun {a b} (hlt : a < b) (heq : a = b) => ?_) h
  exact String.lt_irrefl b (heq ▸ hlt)

theorem Ordered.place {d : Dict α} (h : Ordered d) {key : String} (value : α) (hk : key ∉ keys d) :
    Ordered (place d key value) := by
  induction d with
  | nil => simp [Dict.place, Ordered, keys]
  | cons entry rest ih =>
    obtain ⟨k, v⟩ := entry
    simp only [Ordered, keys, List.map_cons, List.pairwise_cons] at h
    simp only [keys, List.map_cons, List.mem_cons, not_or] at hk
    rw [Dict.place]
    split
    · next hlt =>
      refine List.pairwise_cons.mpr ⟨fun other ho => ?_, List.pairwise_cons.mpr h⟩
      rcases List.mem_cons.mp ho with rfl | ho
      · exact hlt
      · exact String.lt_trans hlt (h.1 other ho)
    · next hnlt =>
      have hlt : k < key := by
        rcases Std.lt_trichotomy k key with hlt | heq | hgt
        · exact hlt
        · exact absurd heq.symm hk.1
        · exact absurd hgt hnlt
      refine List.pairwise_cons.mpr ⟨fun other ho => ?_, ih h.2 hk.2⟩
      rcases mem_keys_place.mp ho with rfl | ho
      · exact hlt
      · exact h.1 other ho

theorem Ordered.insert {d : Dict α} (h : Ordered d) (key : String) (value : α) :
    Ordered (insert d key value) := by
  rw [Dict.insert]
  split
  · rw [Ordered, keys_replace]; exact h
  · next hc => exact h.place value (fun hk => hc (contains_eq_true_iff.mpr hk))

/-- A dictionary in order is known from what is found in it. -/
theorem Ordered.ext {d d' : Dict α} (h : Ordered d) (h' : Ordered d') (hget : ∀ key, get? d key = get? d' key) :
    d = d' := by
  have hmem : ∀ e, e ∈ d ↔ e ∈ d' := fun ⟨k, v⟩ =>
    ⟨fun hm => mem_of_get? ((hget k).symm.trans (get?_of_mem h.nodup hm)),
      fun hm => mem_of_get? ((hget k).trans (get?_of_mem h'.nodup hm))⟩
  have hperm : d.Perm d' :=
    (List.perm_ext_iff_of_nodup (List.Nodup.of_map _ h.nodup) (List.Nodup.of_map _ h'.nodup)).mpr hmem
  have hlt : d.Pairwise fun a b => a.1 < b.1 := List.pairwise_map.mp h
  have hlt' : d'.Pairwise fun a b => a.1 < b.1 := List.pairwise_map.mp h'
  exact List.Perm.eq_of_pairwise (fun a b _ _ hab hba => absurd hba (String.lt_asymm hab)) hlt hlt' hperm

theorem Ordered.erase {d : Dict α} (h : Ordered d) (key : String) : Ordered (erase d key) := by
  rw [Ordered, keys, Dict.erase]
  exact h.sublist (List.filter_sublist.map Prod.fst)

/-! ## Entries taken out -/

/-- The only entry of a key is the one that is found. -/
theorem filter_key {d : Dict α} (h : (keys d).Nodup) {key : String} {v : α} (hget : get? d key = some v) :
    (d.filter fun entry => entry.1 = key) = [(key, v)] := by
  induction d with
  | nil => cases hget
  | cons entry rest ih =>
    obtain ⟨k, w⟩ := entry
    obtain ⟨hk, hrest⟩ := List.nodup_cons.mp h
    rw [get?] at hget
    split at hget
    · next heq =>
      obtain rfl := Option.some.inj hget
      subst heq
      have hnone : (rest.filter fun entry => decide (entry.1 = k)) = [] := by
        rw [List.filter_eq_nil_iff]
        intro entry hentry hkey
        exact hk (List.mem_map.mpr ⟨entry, hentry, of_decide_eq_true hkey⟩)
      rw [List.filter_cons_of_pos (by simp), hnone]
    · next hne =>
      rw [List.filter_cons_of_neg (by simpa using hne)]
      exact ih hrest hget

theorem erase_replace_self (d : Dict α) (key : String) (value : α) :
    erase (replace d key value) key = erase d key := by
  induction d with
  | nil => rfl
  | cons entry rest ih =>
    obtain ⟨k, v⟩ := entry
    rw [replace]
    by_cases h : k = key <;> simp_all [erase]

theorem erase_place_self (d : Dict α) (key : String) (value : α) :
    erase (place d key value) key = erase d key := by
  induction d with
  | nil => simp [place, erase]
  | cons entry rest ih =>
    obtain ⟨k, v⟩ := entry
    rw [place]
    split
    · simp [erase]
    · by_cases h : k = key <;> simp_all [erase]

/-- Nothing is left of an insertion without its key. -/
theorem erase_insert_self (d : Dict α) (key : String) (value : α) :
    erase (insert d key value) key = erase d key := by
  rw [insert]
  split
  · exact erase_replace_self d key value
  · exact erase_place_self d key value

theorem get?_foldl_erase (names : List String) (d : Dict α) (key : String) :
    get? (names.foldl Dict.erase d) key = if key ∈ names then none else get? d key := by
  induction names generalizing d with
  | nil => simp
  | cons name rest ih =>
    rw [List.foldl_cons, ih, get?_erase]
    by_cases hrest : key ∈ rest <;> by_cases hname : key = name <;> simp [hrest, hname]

/-- Without some keys, the entries of the others are left. -/
theorem foldl_erase_eq_filter (names : List String) (d : Dict α) :
    names.foldl Dict.erase d = d.filter fun entry => entry.1 ∉ names := by
  induction names generalizing d with
  | nil => simp
  | cons name rest ih =>
    rw [List.foldl_cons, ih, erase, List.filter_filter]
    refine List.filter_congr fun entry _ => ?_
    by_cases hname : entry.1 = name <;> simp [hname]

theorem foldl_erase_erase {names : List String} {key : String} (h : key ∈ names) (d : Dict α) :
    names.foldl Dict.erase (erase d key) = names.foldl Dict.erase d := by
  rw [foldl_erase_eq_filter, foldl_erase_eq_filter, erase, List.filter_filter]
  refine List.filter_congr fun entry _ => ?_
  by_cases hkey : entry.1 = key <;> simp [hkey, h]

/-- An entry that is put in under one of some keys goes with them. -/
theorem foldl_erase_insert {names : List String} {key : String} (h : key ∈ names) (d : Dict α) (value : α) :
    names.foldl Dict.erase (insert d key value) = names.foldl Dict.erase d := by
  rw [← foldl_erase_erase h, erase_insert_self, foldl_erase_erase h]

theorem foldl_erase_foldl_erase (names : List String) (d : Dict α) :
    names.foldl Dict.erase (names.foldl Dict.erase d) = names.foldl Dict.erase d := by
  rw [foldl_erase_eq_filter, foldl_erase_eq_filter, List.filter_filter]
  simp only [Bool.and_self]

end Dict

end DocModel
