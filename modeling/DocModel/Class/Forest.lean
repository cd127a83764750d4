import DocModel.Class.Basic

/-!
# The class forest

The classes as a forest, parents above children. A class under several parents occurs under each of them.
On the way down a class is expanded once; where it comes again it is flagged as closing a cycle. Classes
that no class without known parents leads to are put at the end, so that none is missing.
-/

namespace DocModel

structure ClassNode where
  name : String
  parents : List String
  children : List ClassNode
  /-- This class is already on the way down to here. -/
  cycle : Bool

namespace ClassNode

mutual

/-- The names in a tree, from the top. -/
def names : ClassNode → List String
  | ⟨name, _, children, _⟩ => name :: namesOf children

def namesOf : List ClassNode → List String
  | [] => []
  | node :: rest => names node ++ namesOf rest

end

mutual

def toValue : ClassNode → Value
  | ⟨name, parents, children, cycle⟩ =>
    .ofFields <|
      [("name", .string name), ("parents", .strings parents), ("children", .list (toValues children))]
      ++ (if cycle then [("cycle", .bool true)] else [])

def toValues : List ClassNode → List Value
  | [] => []
  | node :: rest => toValue node :: toValues rest

end

end ClassNode

namespace Classes

def knownParents (classes : Classes) (c : ClassDefinition) : List String :=
  c.parents.filter (Dict.contains classes)

def parentsOf (classes : Classes) (name : String) : List String :=
  match Dict.get? classes name with
  | some c => c.parents
  | none => []

/-- The classes that name this one as a parent, once for each time they do. -/
def childrenOf (classes : Classes) (name : String) : List String :=
  classes.flatMap fun entry => (entry.2.parents.filter (· = name)).map fun _ => entry.1

/-- The tree below a class; `fresh` lists the classes that are not on the way down to it. -/
def node (classes : Classes) (fresh : List String) (name : String) : ClassNode :=
  if _h : name ∈ fresh then
    { name
      parents := classes.parentsOf name
      children := (classes.childrenOf name).map (node classes (fresh.erase name))
      cycle := false }
  else { name, parents := classes.parentsOf name, children := [], cycle := true }
  termination_by fresh.length
  decreasing_by
    rw [List.length_erase_of_mem _h]
    exact Nat.sub_lt (List.length_pos_of_mem _h) Nat.one_pos

def tree (classes : Classes) (name : String) : ClassNode := classes.node (Dict.keys classes) name

/-- The classes without known parents. -/
def roots (classes : Classes) : List String :=
  Dict.keys (classes.filter fun entry => (classes.knownParents entry.2).isEmpty)

/-- Adds the tree of a class that no tree contains yet. -/
def addMissing (classes : Classes) (forest : List ClassNode) (name : String) : List ClassNode :=
  if name ∈ ClassNode.namesOf forest then forest else forest ++ [classes.tree name]

def forest (classes : Classes) : List ClassNode :=
  (Dict.keys classes).foldl classes.addMissing (classes.roots.map classes.tree)

end Classes

end DocModel
