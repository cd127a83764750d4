import DocModel.Proofs.Dict.Insertion
import DocModel.Proofs.Text.Parts
import DocModel.Template.Set
import Mathlib.Data.List.Induction

/-!
# Template keys

A key is normalized when a template is registered, and once more when it is looked up. Normalizing drops one
slash and one `.hbs`, so it changes nothing exactly for keys that no slash opens and no `.hbs` ends. A template
is found under its own key only if that key is of this kind.

* `normalizeKey_cases`: what normalizing drops.
* `normalizeKey_eq_self_iff`, `isSettled_normalizeKey_iff`: which keys it leaves as they are, also when done twice.
* `find?_registered`: the last registration under a normalized key counts.
* `keys_found_exactly`: which templates are found under their own keys.
-/

namespace DocModel

namespace TemplateSet

open Text (Opens Ends)

/-! ## Normalizing -/

/-- Normalizing drops a slash that opens a key, and then a `.hbs` that ends what is left. -/
theorem normalizeKey_cases (key : String) : ∃ rest,
    (key = "/" ++ rest ∨ rest = key ∧ ¬ Opens "/" key) ∧
      (rest = normalizeKey key ++ ".hbs" ∨ normalizeKey key = rest ∧ ¬ Ends ".hbs" rest) := by
  rw [normalizeKey]
  refine ⟨(Text.dropFront? "/" key).getD key, ?_, ?_⟩
  · cases hfront : Text.dropFront? "/" key with
    | none => exact .inr ⟨rfl, Text.dropFront?_eq_none_iff.mp hfront⟩
    | some rest => exact .inl (Text.dropFront?_eq_some_iff.mp hfront)
  · generalize (Text.dropFront? "/" key).getD key = rest
    cases hback : Text.dropBack? ".hbs" rest with
    | none => exact .inr ⟨rfl, Text.dropBack?_eq_none_iff.mp hback⟩
    | some stem => exact .inl (Text.dropBack?_eq_some_iff.mp hback)

/-- A key that no slash opens and no `.hbs` ends. -/
structure IsSettled (key : String) : Prop where
  front : ¬ Opens "/" key
  back : ¬ Ends ".hbs" key

instance (key : String) : Decidable (IsSettled key) :=
  decidable_of_iff (¬ Opens "/" key ∧ ¬ Ends ".hbs" key) ⟨fun h => ⟨h.1, h.2⟩, fun h => ⟨h.1, h.2⟩⟩

/-- Settled keys, and no others, are normal. -/
theorem normalizeKey_eq_self_iff {key : String} : normalizeKey key = key ↔ IsSettled key := by
  constructor
  · intro h
    obtain ⟨rest, hfront, hback⟩ := normalizeKey_cases key
    rw [h] at hback
    -- Had anything been dropped, the key would have become shorter.
    rcases hfront with hfront | ⟨rfl, hfront⟩
    · rcases hback with rfl | ⟨rfl, -⟩
      all_goals
        have hlength := congrArg String.length hfront
        simp only [String.length_append] at hlength
        have hslash : "/".length = 1 := rfl
        omega
    · rcases hback with hback | ⟨-, hback⟩
      · have hlength := congrArg String.length hback
        rw [String.length_append] at hlength
        have hextension : ".hbs".length = 4 := rfl
        omega
      · exact ⟨hfront, hback⟩
  · rintro ⟨hfront, hback⟩
    rw [normalizeKey, Text.dropFront?_eq_none_iff.mpr hfront, Option.getD_none, Text.dropBack?_eq_none_iff.mpr hback,
      Option.getD_none]

/-- A slash opens a normalized key if two of them open the key. -/
theorem opens_normalizeKey_iff (key : String) : Opens "/" (normalizeKey key) ↔ Opens "//" key := by
  obtain ⟨rest, hfront, hback⟩ := normalizeKey_cases key
  have hrest : Opens "/" (normalizeKey key) ↔ Opens "/" rest := by
    rcases hback with hback | ⟨hback, -⟩
    · have hlist : rest.toList = (normalizeKey key).toList ++ ".hbs".toList := by
        rw [← String.toList_append, ← hback]
      rw [Opens, Opens, hlist]
      cases (normalizeKey key).toList <;> simp
    · rw [hback]
  rw [hrest]
  rcases hfront with rfl | ⟨rfl, hfront⟩
  · rw [Opens, Opens, String.toList_append]
    exact (List.prefix_cons_inj '/').symm
  · have htwo : "/".toList <+: "//".toList := by decide
    exact iff_of_false hfront fun h => hfront (htwo.trans h)

/-- A `.hbs` ends a normalized key if two of them end the key. -/
theorem ends_normalizeKey_iff (key : String) : Ends ".hbs" (normalizeKey key) ↔ Ends ".hbs.hbs" key := by
  obtain ⟨rest, hfront, hback⟩ := normalizeKey_cases key
  have htwo : ".hbs.hbs".toList = ".hbs".toList ++ ".hbs".toList := by decide
  have hrest : Ends ".hbs" (normalizeKey key) ↔ Ends ".hbs.hbs" rest := by
    rw [Ends, Ends, htwo]
    rcases hback with hback | ⟨hback, hnot⟩
    · rw [hback, String.toList_append]
      rw [List.suffix_append_inj_of_length_eq rfl, and_iff_left rfl]
    · rw [hback]
      exact iff_of_false hnot fun h => hnot ((List.suffix_append _ _).trans h)
  rw [hrest]
  rcases hfront with rfl | ⟨rfl, -⟩
  · -- The slash is not part of what ends the key.
    have hlist : ("/" ++ rest).toList = '/' :: rest.toList := by rw [String.toList_append]; rfl
    have hne : ".hbs.hbs".toList ≠ '/' :: rest.toList := fun h => by
      have hhead := congrArg List.head? h
      exact absurd (Option.some.inj hhead) (by decide)
    rw [Ends, Ends, hlist, List.suffix_cons_iff]
    exact (or_iff_right hne).symm
  · rfl

theorem isSettled_normalizeKey_iff (key : String) :
    IsSettled (normalizeKey key) ↔ ¬ Opens "//" key ∧ ¬ Ends ".hbs.hbs" key := by
  rw [← opens_normalizeKey_iff, ← ends_normalizeKey_iff]
  exact ⟨fun h => ⟨h.front, h.back⟩, fun h => ⟨h.1, h.2⟩⟩

/-! ## Registrations -/

/-- A template that is registered under a key. -/
structure Registration where
  key : String
  source : String
  path : Option SourcePath := none

/-- The template that a registration puts into the set. -/
def Registration.template (r : Registration) : Template := ⟨normalizeKey r.key, r.source, r.path⟩

/-- The set after some registrations. -/
def registered (registrations : List Registration) : TemplateSet :=
  registrations.foldl (fun set r => set.register r.key r.source r.path) []

theorem registered_concat (registrations : List Registration) (r : Registration) :
    registered (registrations ++ [r]) = Dict.insert (registered registrations) (normalizeKey r.key) r.template := by
  rw [registered, List.foldl_append]
  rfl

/-- A reference finds the last registration of its normal form. -/
theorem find?_registered (registrations : List Registration) (reference : String) :
    (registered registrations).find? reference =
      (registrations.reverse.find? fun r => normalizeKey r.key = normalizeKey reference).map
        Registration.template := by
  induction registrations using List.reverseRecOn with
  | nil => rfl
  | append_singleton registrations r ih =>
    rw [registered_concat, find?, Dict.get?_insert, List.reverse_append, List.reverse_singleton,
      List.singleton_append]
    by_cases h : normalizeKey reference = normalizeKey r.key
    · rw [if_pos h, List.find?_cons_of_pos (by simpa using h.symm), Option.map_some]
    · rw [if_neg h, List.find?_cons_of_neg (by simpa using Ne.symm h)]
      exact ih

theorem registered_ordered (registrations : List Registration) : Dict.Ordered (registered registrations) := by
  induction registrations using List.reverseRecOn with
  | nil => exact Dict.Ordered.nil
  | append_singleton registrations r ih =>
    rw [registered_concat]
    exact ih.insert _ _

/-- Whatever is registered, a template carries the key that it stands under. -/
theorem key_of_get?_registered {registrations : List Registration} {key : String} {t : Template}
    (h : Dict.get? (registered registrations) key = some t) : t.key = key := by
  induction registrations using List.reverseRecOn with
  | nil => cases h
  | append_singleton registrations r ih =>
    rw [registered_concat, Dict.get?_insert] at h
    split at h
    · next hkey =>
      obtain rfl := Option.some.inj h
      exact hkey.symm
    · exact ih h

theorem get?_key_of_mem_list {registrations : List Registration} {t : Template}
    (h : t ∈ (registered registrations).list) : Dict.get? (registered registrations) t.key = some t := by
  obtain ⟨⟨key, _⟩, hentry, rfl⟩ := List.mem_map.mp h
  have hget := Dict.get?_of_mem (registered_ordered registrations).nodup hentry
  rwa [key_of_get?_registered hget]

/-- A template is found under its own key exactly if the key is settled. -/
theorem find?_key_eq_iff {registrations : List Registration} {t : Template}
    (h : t ∈ (registered registrations).list) :
    (registered registrations).find? t.key = some t ↔ IsSettled t.key := by
  rw [← normalizeKey_eq_self_iff]
  constructor
  · intro hfind
    exact (key_of_get?_registered hfind).symm
  · intro hkey
    rw [find?, hkey]
    exact get?_key_of_mem_list h

/-- A reference stands for the normal form of itself, if for any key. -/
theorem keyFor?_eq_some_iff {registrations : List Registration} {reference key : String} :
    (registered registrations).keyFor? reference = some key ↔
      key = normalizeKey reference ∧ ((registered registrations).find? reference).isSome := by
  constructor
  · intro h
    obtain ⟨t, ht, rfl⟩ := Option.map_eq_some_iff.mp h
    exact ⟨key_of_get?_registered ht, by rw [ht]; rfl⟩
  · rintro ⟨rfl, h⟩
    obtain ⟨t, ht⟩ := Option.isSome_iff_exists.mp h
    rw [keyFor?, ht, Option.map_some, key_of_get?_registered ht]

/-- The template that a reference finds is listed. -/
theorem mem_list_of_find? {registrations : List Registration} {reference : String} {t : Template}
    (h : (registered registrations).find? reference = some t) : t ∈ (registered registrations).list :=
  List.mem_map_of_mem (Dict.mem_of_get? h)

/-- A key stands for itself exactly if it is settled. -/
theorem keyFor?_key_eq_iff {registrations : List Registration} {t : Template}
    (h : t ∈ (registered registrations).list) :
    (registered registrations).keyFor? t.key = some t.key ↔ IsSettled t.key := by
  rw [keyFor?_eq_some_iff, eq_comm, normalizeKey_eq_self_iff]
  constructor
  · exact And.left
  · intro hkey
    rw [(find?_key_eq_iff h).mpr hkey]
    exact ⟨hkey, rfl⟩

/-- After any registrations, a reference finds the last template that was registered under its normal form. The
key of a listed template finds that template, and stands for itself, exactly if the key is settled; so it is with
the key that a reference stands for. A normalized key is settled unless two slashes opened the key or two `.hbs`
ended it. -/
theorem keys_found_exactly (registrations : List Registration) :
    (∀ reference, (registered registrations).find? reference =
      (registrations.reverse.find? fun r => normalizeKey r.key = normalizeKey reference).map
        Registration.template) ∧
    (∀ t ∈ (registered registrations).list,
      ((registered registrations).find? t.key = some t ↔ IsSettled t.key) ∧
        ((registered registrations).keyFor? t.key = some t.key ↔ IsSettled t.key)) ∧
    (∀ reference key, (registered registrations).keyFor? reference = some key →
      key = normalizeKey reference ∧ ((registered registrations).keyFor? key = some key ↔ IsSettled key)) ∧
    ∀ key, IsSettled (normalizeKey key) ↔ ¬ Opens "//" key ∧ ¬ Ends ".hbs.hbs" key := by
  refine ⟨find?_registered registrations, fun t ht => ⟨find?_key_eq_iff ht, keyFor?_key_eq_iff ht⟩, ?_,
    isSettled_normalizeKey_iff⟩
  intro reference key h
  obtain ⟨t, ht, rfl⟩ := Option.map_eq_some_iff.mp h
  exact ⟨(keyFor?_eq_some_iff.mp h).1, keyFor?_key_eq_iff (mem_list_of_find? ht)⟩

/-- The template of `a.hbs.hbs` is listed under the key `a.hbs`, and not found under it. -/
theorem twice_extended_not_found :
    ∃ t ∈ (registered [⟨"a.hbs.hbs", "page", none⟩]).list,
      t.key = "a.hbs" ∧ (registered [⟨"a.hbs.hbs", "page", none⟩]).find? t.key = none ∧
        (registered [⟨"a.hbs.hbs", "page", none⟩]).keyFor? t.key = none := by
  decide

end TemplateSet

end DocModel
