import DocModel.Class.Fold

/-!
# Inheritance

A resolved class is layered from its resolved parents, in the order in which it names them, and its own
definition on top. `Resolver.resolve` walks the parents depth first and keeps what it has resolved, also
when it fails. A parent that is still being walked closes a cycle; a parent that no class defines is only
worth a warning. The walk ends because it goes to each class at most once on the way down: `fresh` lists the
classes that are not on that way.
-/

namespace DocModel

/-- Resolved classes and what was remarked on the way. -/
structure ResolvedClasses where
  classes : Classes := []
  warnings : List Issue := []

structure Resolver where
  own : Classes
  resolved : Classes := []
  warnings : List Issue := []

namespace Resolver

def parentsOf (r : Resolver) (name : String) : List String :=
  match Dict.get? r.own name with
  | some c => c.parents
  | none => []

def unknownParent (name parent : String) : Issue where
  level := .warn
  code := "unknown-parent"
  message := "class `" ++ name ++ "` references unknown parent `" ++ parent ++ "`"
  className := some name

def warn (r : Resolver) (issue : Issue) : Resolver := { r with warnings := r.warnings ++ [issue] }

/-- A class on top of its resolved parents, `required` lists without repeats. -/
def flatten (r : Resolver) (name : String) (own : ClassDefinition) : ClassDefinition :=
  let parents := own.parents.filterMap (Dict.get? r.resolved)
  let flat := (parents.foldl ClassDefinition.layered { name }).layered own
  { flat with schema := flat.schema.map Value.dedupRequired }

/-- Keeps the resolved form of a class whose parents are resolved. -/
def store (r : Resolver) (name : String) : Resolver :=
  match Dict.get? r.own name with
  | some own => { r with resolved := Dict.insert r.resolved name (r.flatten name own) }
  | none => r

/-- The part of a way that a step back to `name` closes. -/
def cycleAt (way : List String) (name : String) : List String :=
  way.dropWhile (· ≠ name) ++ [name]

mutual

/-- Resolves the class at the end of a way; a cycle is reported as the names along it. -/
def walk (fresh way : List String) (name : String) (r : Resolver) : Resolver × Option (List String) :=
  match walkParents fresh way name (r.parentsOf name) r with
  | (r, none) => (r.store name, none)
  | (r, some cycle) => (r, some cycle)
  termination_by (fresh.length, (r.parentsOf name).length + 1)

/-- Resolves the parents of a class in order. -/
def walkParents (fresh way : List String) (name : String) (parents : List String) (r : Resolver) :
    Resolver × Option (List String) :=
  match parents with
  | [] => (r, none)
  | parent :: rest =>
    if !Dict.contains r.own parent then
      walkParents fresh way name rest (r.warn (unknownParent name parent))
    else if Dict.contains r.resolved parent then walkParents fresh way name rest r
    else if _h : parent ∈ fresh then
      match walk (fresh.erase parent) (way ++ [parent]) parent r with
      | (r, none) => walkParents fresh way name rest r
      | (r, some cycle) => (r, some cycle)
    else (r, some (cycleAt way parent))
  termination_by (fresh.length, parents.length)
  decreasing_by
    · exact Prod.Lex.right _ (by simp)
    · exact Prod.Lex.right _ (by simp)
    · exact Prod.Lex.left _ _ (by
        rw [List.length_erase_of_mem _h]
        exact Nat.sub_lt (List.length_pos_of_mem _h) Nat.one_pos)
    · exact Prod.Lex.right _ (by simp)

end

/-- Resolves one class; an unknown name gives nothing. -/
def resolve (r : Resolver) (name : String) : Resolver × Except BuildError (Option ClassDefinition) :=
  if !Dict.contains r.own name then (r, .ok none)
  else if Dict.contains r.resolved name then (r, .ok (Dict.get? r.resolved name))
  else
    match r.walk ((Dict.keys r.own).erase name) [name] name with
    | (r, none) => (r, .ok (Dict.get? r.resolved name))
    | (r, some cycle) => (r, .error (.classCycle cycle))

/-- Resolves classes one after the other, up to the first cycle. -/
def resolveNames (r : Resolver) : List String → Except BuildError Resolver
  | [] => .ok r
  | name :: rest =>
    match r.resolve name with
    | (r, .ok _) => resolveNames r rest
    | (_, .error e) => .error e

/-- Resolves every class, in the order of names. -/
def resolveAll (r : Resolver) : Except BuildError ResolvedClasses := do
  let r ← r.resolveNames (Dict.keys r.own)
  let classes := (Dict.keys r.own).filterMap fun name => (Dict.get? r.resolved name).map ((name, ·))
  return ⟨classes, r.warnings⟩

end Resolver

/-- Folds class documents and resolves every class. -/
def resolveClasses (documents : List Document) : Except BuildError ResolvedClasses := do
  let own ← ClassDefinition.foldDocuments documents
  ({ own : Resolver }).resolveAll

end DocModel
