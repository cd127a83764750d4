import DocModel.Dict
import DocModel.Numeral.Double

/-!
# Document values

A document is a JSON value. Integers and doubles are different numbers, so `1` and `1.0` are different
values. A map is a `Dict`; those that are read or built by this library have their keys in increasing
order, and every walk over a map goes in that order.
-/

namespace DocModel

/-- A number of a document. -/
inductive Number where
  | int (n : Int)
  | double (d : Double)
  deriving DecidableEq, Repr

inductive Value where
  | null
  | bool (b : Bool)
  | number (n : Number)
  | string (s : String)
  | list (items : List Value)
  | map (entries : List (String × Value))
  deriving Repr

/-- The fields of a map. -/
abbrev Fields := Dict Value

namespace Value

instance : Inhabited Value := ⟨null⟩

/-! ## Equality -/

mutual

/-- Whether two values are the same, numbers of different kinds being different. -/
def same : Value → Value → Bool
  | null, null => true
  | bool a, bool b => a == b
  | number a, number b => a == b
  | string a, string b => a == b
  | list xs, list ys => sameItems xs ys
  | map xs, map ys => sameEntries xs ys
  | _, _ => false

def sameItems : List Value → List Value → Bool
  | [], [] => true
  | x :: xs, y :: ys => same x y && sameItems xs ys
  | _, _ => false

def sameEntries : List (String × Value) → List (String × Value) → Bool
  | [], [] => true
  | (k, v) :: xs, (l, w) :: ys => k == l && same v w && sameEntries xs ys
  | _, _ => false

end

mutual

theorem eq_of_same : ∀ {a b : Value}, same a b = true → a = b
  | null, b, h => by cases b <;> simp_all [same]
  | bool _, b, h => by cases b <;> simp_all [same]
  | number _, b, h => by cases b <;> simp_all [same]
  | string _, b, h => by cases b <;> simp_all [same]
  | list xs, b, h => by
    cases b with
    | list ys => rw [eq_of_sameItems (show sameItems xs ys = true by simpa [same] using h)]
    | _ => simp [same] at h
  | map xs, b, h => by
    cases b with
    | map ys => rw [eq_of_sameEntries (show sameEntries xs ys = true by simpa [same] using h)]
    | _ => simp [same] at h

theorem eq_of_sameItems : ∀ {xs ys : List Value}, sameItems xs ys = true → xs = ys
  | [], [], _ => rfl
  | [], _ :: _, h => by simp [sameItems] at h
  | _ :: _, [], h => by simp [sameItems] at h
  | x :: xs, y :: ys, h => by
    simp only [sameItems, Bool.and_eq_true] at h
    rw [eq_of_same h.1, eq_of_sameItems h.2]

theorem eq_of_sameEntries : ∀ {xs ys : List (String × Value)}, sameEntries xs ys = true → xs = ys
  | [], [], _ => rfl
  | [], _ :: _, h => by simp [sameEntries] at h
  | _ :: _, [], h => by simp [sameEntries] at h
  | (k, v) :: xs, (l, w) :: ys, h => by
    simp only [sameEntries, Bool.and_eq_true, beq_iff_eq] at h
    rw [h.1.1, eq_of_same h.1.2, eq_of_sameEntries h.2]

end

mutual

theorem same_self : ∀ a : Value, same a a = true
  | null => rfl
  | bool _ => by simp [same]
  | number _ => by simp [same]
  | string _ => by simp [same]
  | list xs => by simp [same, sameItems_self xs]
  | map xs => by simp [same, sameEntries_self xs]

theorem sameItems_self : ∀ xs : List Value, sameItems xs xs = true
  | [] => rfl
  | x :: xs => by simp [sameItems, same_self x, sameItems_self xs]

theorem sameEntries_self : ∀ xs : List (String × Value), sameEntries xs xs = true
  | [] => rfl
  | (_, v) :: xs => by simp [sameEntries, same_self v, sameEntries_self xs]

end

instance : DecidableEq Value := fun a b =>
  if h : same a b = true then isTrue (eq_of_same h)
  else isFalse fun heq => h (heq ▸ same_self a)

/-! ## Views -/

def string? : Value → Option String
  | string s => some s
  | _ => none

def list? : Value → Option (List Value)
  | list items => some items
  | _ => none

def map? : Value → Option Fields
  | map entries => some entries
  | _ => none

def isNull : Value → Bool
  | null => true
  | _ => false

/-- The field of a map; other values have none. -/
def get? : Value → String → Option Value
  | map entries, key => Dict.get? entries key
  | _, _ => none

/-- An integer value. -/
def ofInt (n : Int) : Value := number (.int n)

def ofNat (n : Nat) : Value := ofInt n

/-- The map of these fields, in key order. -/
def ofFields (fields : List (String × Value)) : Value := map (Dict.ofList fields)

def strings (items : List String) : Value := list (items.map string)

end Value

end DocModel
