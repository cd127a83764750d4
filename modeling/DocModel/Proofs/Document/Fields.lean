import Mathlib.Data.List.Nodup
import DocModel.Proofs.Merging.Directives

/-!
# Fields of documents

The way from a document to one of its parts is a list of steps: the key of a member, or the index of an item.

* `everyMap_map_iff`: a test of all maps in a value, at any depth.
* `mem_fieldPaths_list_iff`, `mem_fieldPaths_map_iff`: the paths of the fields in a list and in a map.
* `mem_fieldPaths_iff`: the paths of all fields are those that end with a key and lead to something.
* `nodup_fieldPaths`: no path is listed twice.
-/

namespace DocModel

/-- A step from a value to a part of it. -/
inductive FieldStep where
  | member (key : String)
  | item (index : Nat)
  deriving DecidableEq, Repr

/-- The steps from a document to a part of it. -/
abbrev FieldPath := List FieldStep

/-! ## Maps at any depth -/

namespace Value

mutual

/-- Whether all maps in a value pass a test. -/
def everyMap (test : Fields → Bool) : Value → Bool
  | list items => everyMapItems test items
  | map entries => test entries && everyMapEntries test entries
  | _ => true

def everyMapItems (test : Fields → Bool) : List Value → Bool
  | [] => true
  | x :: xs => everyMap test x && everyMapItems test xs

def everyMapEntries (test : Fields → Bool) : List (String × Value) → Bool
  | [] => true
  | (_, v) :: rest => everyMap test v && everyMapEntries test rest

end

variable {test : Fields → Bool}

theorem everyMap_list_iff {items : List Value} :
    (list items).everyMap test = true ↔ ∀ v ∈ items, v.everyMap test = true := by
  rw [everyMap]
  induction items with
  | nil => simp [everyMapItems]
  | cons x xs ih => rw [everyMapItems, Bool.and_eq_true, ih, List.forall_mem_cons]

theorem everyMap_map_iff {entries : Fields} :
    (map entries).everyMap test = true ↔
      test entries = true ∧ ∀ e ∈ entries, e.2.everyMap test = true := by
  have hentries : everyMapEntries test entries = true ↔ ∀ e ∈ entries, e.2.everyMap test = true := by
    induction entries with
    | nil => simp [everyMapEntries]
    | cons e rest ih => rw [everyMapEntries, Bool.and_eq_true, ih, List.forall_mem_cons]
  rw [everyMap, Bool.and_eq_true, hentries]

/-- No map has a key twice, as it is with all documents that are read. -/
def hasDistinctKeys (v : Value) : Bool := v.everyMap fun entries => decide (Dict.keys entries).Nodup

theorem nodup_keys {entries : Fields} (h : (map entries).hasDistinctKeys = true) :
    (Dict.keys entries).Nodup := of_decide_eq_true (everyMap_map_iff.mp h).1

/-! ## All fields of a document -/

/-- The part of a value that steps lead to. -/
def at? : Value → FieldPath → Option Value
  | v, [] => some v
  | map entries, .member key :: rest =>
    match Dict.get? entries key with
    | some v => at? v rest
    | none => none
  | list items, .item index :: rest =>
    match items[index]? with
    | some v => at? v rest
    | none => none
  | _, _ :: _ => none

mutual

/-- The paths of all fields. A field comes before the fields inside it, and these come before the next one. -/
def fieldPaths : Value → List FieldPath
  | list items => itemFieldPaths 0 items
  | map entries => entryFieldPaths entries
  | _ => []

def itemFieldPaths (index : Nat) : List Value → List FieldPath
  | [] => []
  | x :: xs => (fieldPaths x).map (.item index :: ·) ++ itemFieldPaths (index + 1) xs

def entryFieldPaths : List (String × Value) → List FieldPath
  | [] => []
  | (key, v) :: rest => [.member key] :: (fieldPaths v).map (.member key :: ·) ++ entryFieldPaths rest

end

theorem fieldPaths_list (items : List Value) :
    (list items).fieldPaths = items.zipIdx.flatMap fun e => e.1.fieldPaths.map (.item e.2 :: ·) := by
  have hfrom : ∀ index, itemFieldPaths index items =
      (items.zipIdx index).flatMap fun e => e.1.fieldPaths.map (.item e.2 :: ·) := by
    induction items with
    | nil => intro index; rfl
    | cons x xs ih =>
      intro index
      rw [itemFieldPaths, ih, List.zipIdx_cons, List.flatMap_cons]
  exact hfrom 0

theorem fieldPaths_map (entries : Fields) :
    (map entries).fieldPaths =
      entries.flatMap fun e => [.member e.1] :: e.2.fieldPaths.map (.member e.1 :: ·) := by
  rw [fieldPaths]
  induction entries with
  | nil => rfl
  | cons e rest ih => rw [entryFieldPaths, ih, List.flatMap_cons]

theorem fieldPaths_scalar {v : Value} (hl : v.list? = none) (hm : v.map? = none) : v.fieldPaths = [] := by
  cases v with
  | list items => cases hl
  | map entries => cases hm
  | _ => rfl

theorem mem_fieldPaths_list_iff {items : List Value} {p : FieldPath} :
    p ∈ (list items).fieldPaths ↔
      ∃ index x rest, items[index]? = some x ∧ rest ∈ x.fieldPaths ∧ p = .item index :: rest := by
  rw [fieldPaths_list, List.mem_flatMap]
  constructor
  · rintro ⟨⟨x, index⟩, hx, hp⟩
    obtain ⟨rest, hrest, rfl⟩ := List.mem_map.mp hp
    exact ⟨index, x, rest, List.mem_zipIdx_iff_getElem?.mp hx, hrest, rfl⟩
  · rintro ⟨index, x, rest, hget, hrest, rfl⟩
    exact ⟨(x, index), List.mem_zipIdx_iff_getElem?.mpr hget, List.mem_map_of_mem hrest⟩

theorem mem_fieldPaths_map_iff {entries : Fields} {p : FieldPath} :
    p ∈ (map entries).fieldPaths ↔
      ∃ key x rest, (key, x) ∈ entries ∧ (rest = [] ∨ rest ∈ x.fieldPaths) ∧ p = .member key :: rest := by
  rw [fieldPaths_map, List.mem_flatMap]
  constructor
  · rintro ⟨⟨key, x⟩, hx, hp⟩
    rcases List.mem_cons.mp hp with rfl | hp
    · exact ⟨key, x, [], hx, .inl rfl, rfl⟩
    · obtain ⟨rest, hrest, rfl⟩ := List.mem_map.mp hp
      exact ⟨key, x, rest, hx, .inr hrest, rfl⟩
  · rintro ⟨key, x, rest, hx, rfl | hrest, rfl⟩
    · exact ⟨(key, x), hx, List.mem_cons_self⟩
    · exact ⟨(key, x), hx, List.mem_cons_of_mem _ (List.mem_map_of_mem hrest)⟩

theorem ne_nil_of_mem_fieldPaths {v : Value} {p : FieldPath} (h : p ∈ v.fieldPaths) : p ≠ [] := by
  rintro rfl
  cases v with
  | list items =>
    obtain ⟨index, x, rest, -, -, heq⟩ := mem_fieldPaths_list_iff.mp h
    cases heq
  | map entries =>
    obtain ⟨key, x, rest, -, -, heq⟩ := mem_fieldPaths_map_iff.mp h
    cases heq
  | _ => cases h

/-- The paths of all fields are those that end with a key and lead to something. -/
theorem mem_fieldPaths_iff {v : Value} (h : v.hasDistinctKeys = true) {p : FieldPath} :
    p ∈ v.fieldPaths ↔ (∃ place key, p = place ++ [.member key]) ∧ (v.at? p).isSome = true := by
  induction v using induction generalizing p with
  | scalar v hl hm =>
    rw [fieldPaths_scalar hl hm]
    refine ⟨nofun, ?_⟩
    rintro ⟨⟨place, key, rfl⟩, hsome⟩
    cases v with
    | list items => cases hl
    | map entries => cases hm
    | _ => cases place <;> simp [at?] at hsome
  | list items ih =>
    have inside {index : Nat} {x : Value} (hget : items[index]? = some x) {rest : FieldPath} :
        rest ∈ x.fieldPaths ↔ (∃ place key, rest = place ++ [.member key]) ∧ (x.at? rest).isSome = true :=
      ih x (List.mem_of_getElem? hget) (everyMap_list_iff.mp h x (List.mem_of_getElem? hget))
    rw [mem_fieldPaths_list_iff]
    constructor
    · rintro ⟨index, x, rest, hget, hrest, rfl⟩
      obtain ⟨⟨place, key, rfl⟩, hsome⟩ := (inside hget).mp hrest
      refine ⟨⟨.item index :: place, key, rfl⟩, ?_⟩
      rwa [at?, hget]
    · rintro ⟨⟨place, key, rfl⟩, hsome⟩
      cases place with
      | nil => simp [at?] at hsome
      | cons step place =>
        cases step with
        | member key => simp [at?] at hsome
        | item index =>
          rw [List.cons_append, at?] at hsome
          cases hget : items[index]? with
          | none => rw [hget] at hsome; cases hsome
          | some x =>
            rw [hget] at hsome
            exact ⟨index, x, _, hget, (inside hget).mpr ⟨⟨place, key, rfl⟩, hsome⟩, rfl⟩
  | map entries ih =>
    have inside {key : String} {x : Value} (hmem : (key, x) ∈ entries) {rest : FieldPath} :
        rest ∈ x.fieldPaths ↔ (∃ place key, rest = place ++ [.member key]) ∧ (x.at? rest).isSome = true :=
      ih (key, x) hmem ((everyMap_map_iff.mp h).2 _ hmem)
    rw [mem_fieldPaths_map_iff]
    constructor
    · rintro ⟨key, x, rest, hmem, hrest, rfl⟩
      rw [at?, Dict.get?_of_mem (nodup_keys h) hmem]
      rcases hrest with rfl | hrest
      · exact ⟨⟨[], key, rfl⟩, rfl⟩
      · obtain ⟨⟨place, last, rfl⟩, hsome⟩ := (inside hmem).mp hrest
        exact ⟨⟨.member key :: place, last, rfl⟩, hsome⟩
    · rintro ⟨⟨place, last, rfl⟩, hsome⟩
      -- The key of this map is the last of the path, or the path goes on.
      obtain ⟨key, rest, heq, hrest⟩ : ∃ key rest, place ++ [.member last] = .member key :: rest ∧
          (rest = [] ∨ ∃ inner, rest = inner ++ [.member last]) := by
        cases place with
        | nil => exact ⟨last, [], rfl, .inl rfl⟩
        | cons step inner =>
          cases step with
          | member key => exact ⟨key, inner ++ [.member last], rfl, .inr ⟨inner, rfl⟩⟩
          | item index => simp [at?] at hsome
      rw [heq, at?] at hsome
      cases hget : Dict.get? entries key with
      | none => rw [hget] at hsome; cases hsome
      | some x =>
        rw [hget] at hsome
        have hmem := Dict.mem_of_get? hget
        refine ⟨key, x, rest, hmem, hrest.imp_right ?_, heq⟩
        rintro ⟨inner, rfl⟩
        exact (inside hmem).mpr ⟨⟨inner, last, rfl⟩, hsome⟩

/-- No path occurs twice. -/
theorem nodup_fieldPaths {v : Value} (h : v.hasDistinctKeys = true) : v.fieldPaths.Nodup := by
  induction v using induction with
  | scalar v hl hm => rw [fieldPaths_scalar hl hm]; exact List.nodup_nil
  | list items ih =>
    rw [fieldPaths_list, List.nodup_flatMap]
    refine ⟨fun e he => ?_, ?_⟩
    · have hmem := List.mem_of_getElem? (List.mem_zipIdx_iff_getElem?.mp he)
      exact (ih e.1 hmem (everyMap_list_iff.mp h e.1 hmem)).map fun p q heq => (List.cons.inj heq).2
    · have hindices : items.zipIdx.Pairwise fun a b => a.2 ≠ b.2 := by
        have hrange : (items.zipIdx.map Prod.snd).Nodup := by
          rw [List.zipIdx_map_snd]
          exact List.nodup_range'
        exact List.pairwise_map.mp hrange
      refine hindices.imp fun {a b} hne p hpa hpb => ?_
      obtain ⟨q, -, rfl⟩ := List.mem_map.mp hpa
      obtain ⟨q', -, heq⟩ := List.mem_map.mp hpb
      exact hne (FieldStep.item.inj (List.cons.inj heq).1).symm
  | map entries ih =>
    rw [fieldPaths_map, List.nodup_flatMap]
    refine ⟨fun e he => List.nodup_cons.mpr ⟨fun hself => ?_, ?_⟩, ?_⟩
    · obtain ⟨q, hq, heq⟩ := List.mem_map.mp hself
      exact ne_nil_of_mem_fieldPaths hq (List.cons.inj heq).2
    · exact (ih e he ((everyMap_map_iff.mp h).2 e he)).map fun p q heq => (List.cons.inj heq).2
    · have hkeys : entries.Pairwise fun a b => a.1 ≠ b.1 := List.pairwise_map.mp (nodup_keys h)
      refine hkeys.imp fun {a b} hne p hpa hpb => ?_
      have hhead : ∀ {e : String × Value}, p ∈ [.member e.1] :: e.2.fieldPaths.map (.member e.1 :: ·) →
          p.head? = some (.member e.1) := by
        intro e hp
        rcases List.mem_cons.mp hp with rfl | hp
        · rfl
        · obtain ⟨q, -, rfl⟩ := List.mem_map.mp hp
          rfl
      exact hne (FieldStep.member.inj (Option.some.inj ((hhead hpa).symm.trans (hhead hpb))))

end Value

end DocModel
