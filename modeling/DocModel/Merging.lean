import DocModel.Value.Basic

/-!
# Merging

Later values win: lists append, maps merge key by key, anything else is replaced. A *reset directive*, a
map whose `$reset` is `true`, replaces instead of appending: it stands for its `value`, or for the empty
list if it has none.

* `strip` takes directives out of a value that has nothing underneath it.
* `merge` puts a value on top of another and consumes its directives.
* `layer` does the same but keeps directives, so that they still apply to what is put underneath later.
* `get?_mergeFields` and `get?_layerFields` say what each field of the result is.
-/

namespace DocModel

namespace Value

def resetKey : String := "$reset"

def resetValueKey : String := "value"

end Value

/-- Whether the fields are those of a reset directive. -/
def Fields.isReset (entries : Fields) : Bool :=
  Dict.get? entries Value.resetKey = some (.bool true)

namespace Value

def isReset : Value → Bool
  | map entries => Fields.isReset entries
  | _ => false

/-- The directive that stands for a list. -/
def resetTo (items : List Value) : Value :=
  map [(resetKey, bool true), (resetValueKey, list items)]

/-! ## Stripping -/

mutual

/-- The value without directives; what a list holds is left as it is. -/
def strip : Value → Value
  | map entries =>
    if Fields.isReset entries then (Dict.get? (stripEntries entries) resetValueKey).getD (list [])
    else map (stripEntries entries)
  | v => v

def stripEntries : List (String × Value) → List (String × Value)
  | [] => []
  | (k, v) :: rest => (k, strip v) :: stripEntries rest

end

theorem stripEntries_eq_mapValues (entries : List (String × Value)) :
    stripEntries entries = Dict.mapValues strip entries := by
  induction entries with
  | nil => rfl
  | cons e rest ih => obtain ⟨k, v⟩ := e; simp [stripEntries, ih, Dict.mapValues]

theorem get?_stripEntries (entries : List (String × Value)) (key : String) :
    Dict.get? (stripEntries entries) key = (Dict.get? entries key).map strip := by
  rw [stripEntries_eq_mapValues, Dict.get?_mapValues]

/-! ## Merging -/

mutual

/-- The overlay on top of the base, without its directives. -/
def merge (base : Value) : Value → Value
  | list right =>
    match base with
    | list left => list (left ++ right.map strip)
    | _ => list right
  | map right =>
    match base with
    | map left =>
      if Fields.isReset left || Fields.isReset right then strip (map right)
      else map (mergeFields left right)
    | _ => strip (map right)
  | overlay => overlay

/-- Merges shared keys and adds the others. -/
def mergeFields (base : Fields) : List (String × Value) → Fields
  | [] => base
  | (k, v) :: rest =>
    Dict.insert (mergeFields base rest) k
      (match Dict.get? base k with
        | some existing => merge existing v
        | none => strip v)

end

/-- A default under a value that may be missing. -/
def mergeDefault (default : Value) : Option Value → Value
  | some v => merge default v
  | none => strip default

theorem get?_mergeFields (base : Fields) (overlay : List (String × Value)) (key : String) :
    Dict.get? (mergeFields base overlay) key =
      match Dict.get? overlay key, Dict.get? base key with
      | none, below => below
      | some v, some existing => some (merge existing v)
      | some v, none => some (strip v) := by
  induction overlay with
  | nil => simp [mergeFields]
  | cons e rest ih =>
    obtain ⟨k, v⟩ := e
    rw [mergeFields, Dict.get?_insert]
    by_cases h : key = k
    · subst h
      simp only [if_true, Dict.get?]
      split <;> simp_all
    · simp only [h, if_false, Dict.get?, Ne.symm h, ih]

/-! ## Layering -/

mutual

/-- The overlay on top of the base, directives kept. A list on top of a directive is appended to what
the directive stands for. -/
def layer (base : Value) : Value → Value
  | list right =>
    match base with
    | list left => list (left ++ right)
    | map left =>
      if Fields.isReset left then
        resetTo (((Dict.get? left resetValueKey).bind list?).getD [] ++ right)
      else list right
    | _ => list right
  | map right =>
    match base with
    | map left =>
      if Fields.isReset left || Fields.isReset right then map right
      else map (layerFields left right)
    | _ => map right
  | overlay => overlay

/-- Layers shared keys and adds the others. -/
def layerFields (base : Fields) : List (String × Value) → Fields
  | [] => base
  | (k, v) :: rest =>
    Dict.insert (layerFields base rest) k
      (match Dict.get? base k with
        | some existing => layer existing v
        | none => v)

end

theorem get?_layerFields (base : Fields) (overlay : List (String × Value)) (key : String) :
    Dict.get? (layerFields base overlay) key =
      match Dict.get? overlay key, Dict.get? base key with
      | none, below => below
      | some v, some existing => some (layer existing v)
      | some v, none => some v := by
  induction overlay with
  | nil => simp [layerFields]
  | cons e rest ih =>
    obtain ⟨k, v⟩ := e
    rw [layerFields, Dict.get?_insert]
    by_cases h : key = k
    · subst h
      simp only [if_true, Dict.get?]
      split <;> simp_all
    · simp only [h, if_false, Dict.get?, Ne.symm h, ih]

end Value

/-- Fields layered on fields; a directive on either side leaves the overlay alone. -/
def Fields.layer (base overlay : Fields) : Fields :=
  if base.isReset || overlay.isReset then overlay else Value.layerFields base overlay

namespace Value

theorem layer_map (base overlay : Fields) :
    layer (map base) (map overlay) = map (Fields.layer base overlay) := by
  simp only [layer, Fields.layer]
  split <;> rfl

/-! ## Lists without repeats -/

/-- The first of each group of equal values, in order. -/
def distinct (items : List Value) : List Value :=
  items.foldl (fun seen item => if item ∈ seen then seen else seen ++ [item]) []

mutual

/-- Every list under a key `required`, at any depth, without repeats. -/
def dedupRequired : Value → Value
  | list items => list (dedupRequiredItems items)
  | map entries => map (dedupRequiredEntries entries)
  | v => v

def dedupRequiredItems : List Value → List Value
  | [] => []
  | x :: xs => dedupRequired x :: dedupRequiredItems xs

def dedupRequiredEntries : List (String × Value) → List (String × Value)
  | [] => []
  | (k, v) :: rest =>
    (k, match k == "required", v with
      | true, list items => list (distinct items)
      | _, v => dedupRequired v) :: dedupRequiredEntries rest

end

end Value

end DocModel
