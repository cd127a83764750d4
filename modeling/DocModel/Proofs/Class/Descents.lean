import DocModel.Proofs.Class.Parents
import Mathlib.Data.List.Nodup

/-!
# Ways down a class tree

A way down leads from the top of a tree to one of its nodes and is written as the names on it. A node is
expanded as long as its class is fresh, so the ways down a tree are the sequences of classes in which each names
the one before as a parent and none comes twice before the last; the last one may close a cycle.

* `mem_ways_node`: the ways down the tree of a class, one case of the recursion after the other.
* `nodup_ways_node`: no way is gone twice.
* `endsAt_of_mem_ways`: the node at the end of a way.
-/

namespace DocModel

namespace ClassNode

mutual

/-- The ways down from the top of a tree, each with the node at its end. -/
def ways : ClassNode → List (List String × ClassNode)
  | ⟨name, parents, children, cycle⟩ =>
    ([name], ⟨name, parents, children, cycle⟩) :: (waysOf children).map fun way => (name :: way.1, way.2)

def waysOf : List ClassNode → List (List String × ClassNode)
  | [] => []
  | node :: rest => ways node ++ waysOf rest

end

theorem waysOf_eq_flatMap (nodes : List ClassNode) : waysOf nodes = nodes.flatMap ways := by
  induction nodes with
  | nil => rfl
  | cons node rest ih => rw [waysOf, ih, List.flatMap_cons]

theorem mem_namesOf {nodes : List ClassNode} {name : String} :
    name ∈ namesOf nodes ↔ ∃ node ∈ nodes, name ∈ node.names := by
  induction nodes with
  | nil => simp [namesOf]
  | cons node rest ih => simp [namesOf, ih]

theorem name_mem_names (node : ClassNode) : node.name ∈ node.names := by
  obtain ⟨name, parents, children, cycle⟩ := node
  exact List.mem_cons_self

mutual

/-- The names in a tree are those of the nodes that its ways lead to. -/
theorem names_eq_map_ways : ∀ node : ClassNode, node.names = node.ways.map fun way => way.2.name
  | ⟨name, parents, children, cycle⟩ => by
    rw [names, ways, List.map_cons, List.map_map, namesOf_eq_map_waysOf children]
    rfl

theorem namesOf_eq_map_waysOf : ∀ nodes : List ClassNode, namesOf nodes = (waysOf nodes).map fun way => way.2.name
  | [] => rfl
  | node :: rest => by
    rw [namesOf, waysOf, List.map_append, names_eq_map_ways node, namesOf_eq_map_waysOf rest]

end

end ClassNode

namespace Classes

variable {classes : Classes} {fresh way : List String} {top name child : String} {node : ClassNode}

/-! ## Children -/

theorem mem_childrenOf (h : (Dict.keys classes).Nodup) :
    child ∈ classes.childrenOf name ↔ ∃ c, Dict.get? classes child = some c ∧ name ∈ c.parents := by
  rw [childrenOf, List.mem_flatMap]
  constructor
  · rintro ⟨⟨key, c⟩, hentry, hchild⟩
    obtain ⟨parent, hparent, rfl⟩ := List.mem_map.mp hchild
    obtain ⟨hmem, hname⟩ := List.mem_filter.mp hparent
    exact ⟨c, Dict.get?_of_mem h hentry, of_decide_eq_true hname ▸ hmem⟩
  · rintro ⟨c, hc, hname⟩
    refine ⟨(child, c), Dict.mem_of_get? hc, List.mem_map.mpr ⟨name, ?_, rfl⟩⟩
    exact List.mem_filter.mpr ⟨hname, decide_eq_true rfl⟩

/-- The children of a class that is known name it as their parent. -/
theorem mem_childrenOf_iff_parent (h : (Dict.keys classes).Nodup) (hname : Dict.contains classes name = true) :
    child ∈ classes.childrenOf name ↔ Parent classes child name := by
  rw [mem_childrenOf h, Parent]
  simp only [hname, and_true]

/-- A class that lists no parent twice comes once among the children of each. -/
theorem childrenOf_eq_keys (h : ∀ entry ∈ classes, entry.2.parents.Nodup) (name : String) :
    classes.childrenOf name = Dict.keys (classes.filter fun entry => name ∈ entry.2.parents) := by
  induction classes with
  | nil => rfl
  | cons entry rest ih =>
    obtain ⟨hentry, hrest⟩ := List.forall_mem_cons.mp h
    have hfilter : entry.2.parents.filter (· = name) = if name ∈ entry.2.parents then [name] else [] := by
      rw [List.filter_eq, hentry.count]
      split <;> rfl
    rw [childrenOf, List.flatMap_cons, hfilter, ← childrenOf, ih hrest]
    by_cases hname : name ∈ entry.2.parents
    · rw [if_pos hname, List.filter_cons_of_pos (by simpa using hname)]
      rfl
    · rw [if_neg hname, List.filter_cons_of_neg (by simpa using hname)]
      rfl

theorem pairwise_childrenOf (hordered : Dict.Ordered classes) (h : ∀ entry ∈ classes, entry.2.parents.Nodup)
    (name : String) : (classes.childrenOf name).Pairwise (· < ·) := by
  rw [childrenOf_eq_keys h]
  exact hordered.sublist (List.filter_sublist.map Prod.fst)

theorem nodup_childrenOf (hordered : Dict.Ordered classes) (h : ∀ entry ∈ classes, entry.2.parents.Nodup)
    (name : String) : (classes.childrenOf name).Nodup := by
  rw [childrenOf_eq_keys h]
  exact hordered.nodup.sublist (List.filter_sublist.map Prod.fst)

/-! ## Ways down -/

/-- A way down from a class: each next class names the one before as a parent, and none comes twice before the
last. -/
structure IsWayDown (classes : Classes) (top : String) (way : List String) : Prop where
  head : way.head? = some top
  chain : way.IsChain fun a b => Parent classes b a
  nodup : way.dropLast.Nodup

theorem IsWayDown.single (classes : Classes) (top : String) : IsWayDown classes top [top] :=
  ⟨rfl, .singleton top, List.nodup_nil⟩

/-- A way down goes on at a fresh class, and to a child of it. -/
theorem isWayDown_iff (hfresh : fresh.Nodup) :
    (IsWayDown classes top way ∧ ∀ x ∈ way.dropLast, x ∈ fresh) ↔
      way = [top] ∨ top ∈ fresh ∧ ∃ child, Parent classes child top ∧
        ∃ rest, (IsWayDown classes child rest ∧ ∀ x ∈ rest.dropLast, x ∈ fresh.erase top) ∧ way = top :: rest := by
  constructor
  · rintro ⟨⟨hhead, hchain, hnodup⟩, hmem⟩
    obtain ⟨rest, rfl⟩ := List.head?_eq_some_iff.mp hhead
    cases rest with
    | nil => exact .inl rfl
    | cons child rest =>
      rw [List.dropLast_cons_cons] at hnodup hmem
      obtain ⟨hnot, hnodup⟩ := List.nodup_cons.mp hnodup
      obtain ⟨htop, hmem⟩ := List.forall_mem_cons.mp hmem
      refine .inr ⟨htop, child, hchain.rel, child :: rest, ⟨⟨rfl, hchain.tail, hnodup⟩, ?_⟩, rfl⟩
      intro x hx
      exact hfresh.mem_erase_iff.mpr ⟨fun he => hnot (he ▸ hx), hmem x hx⟩
  · rintro (rfl | ⟨htop, child, hparent, rest, ⟨⟨hhead, hchain, hnodup⟩, hmem⟩, rfl⟩)
    · exact ⟨.single classes top, nofun⟩
    · obtain ⟨rest, rfl⟩ := List.head?_eq_some_iff.mp hhead
      have hfrom : ∀ x ∈ (child :: rest).dropLast, x ≠ top ∧ x ∈ fresh := fun x hx =>
        hfresh.mem_erase_iff.mp (hmem x hx)
      refine ⟨⟨rfl, hchain.cons_cons hparent, ?_⟩, ?_⟩
      · rw [List.dropLast_cons_cons]
        exact List.nodup_cons.mpr ⟨fun hx => (hfrom top hx).1 rfl, hnodup⟩
      · rw [List.dropLast_cons_cons]
        exact List.forall_mem_cons.mpr ⟨htop, fun x hx => (hfrom x hx).2⟩

/-! ## The tree of a class -/

@[simp] theorem name_node (classes : Classes) (fresh : List String) (name : String) :
    (classes.node fresh name).name = name := by
  rw [Classes.node]
  split <;> rfl

theorem ways_node_of_mem (h : name ∈ fresh) :
    (classes.node fresh name).ways = ([name], classes.node fresh name) ::
      ((classes.childrenOf name).flatMap fun child => (classes.node (fresh.erase name) child).ways).map
        fun way => (name :: way.1, way.2) := by
  rw [Classes.node, dif_pos h, ClassNode.ways, ClassNode.waysOf_eq_flatMap, List.flatMap_map]

theorem ways_node_of_not_mem (h : name ∉ fresh) :
    (classes.node fresh name).ways = [([name], classes.node fresh name)] := by
  rw [Classes.node, dif_neg h]
  rfl

theorem map_fst_ways_node_of_mem (h : name ∈ fresh) :
    (classes.node fresh name).ways.map Prod.fst = [name] ::
      ((classes.childrenOf name).flatMap fun child =>
        (classes.node (fresh.erase name) child).ways.map Prod.fst).map (name :: ·) := by
  rw [ways_node_of_mem h, List.map_cons, List.map_map, ← List.map_flatMap, List.map_map]
  rfl

/-- The ways down the tree of a class are those on which all but the last class are fresh. -/
theorem mem_ways_node (hkeys : (Dict.keys classes).Nodup) (hfresh : fresh.Nodup)
    (hknown : ∀ x ∈ fresh, Dict.contains classes x = true) :
    way ∈ (classes.node fresh name).ways.map Prod.fst ↔
      IsWayDown classes name way ∧ ∀ x ∈ way.dropLast, x ∈ fresh := by
  induction fresh, name using node.induct generalizing way with
  | case1 fresh name h ih =>
    have hrest : ∀ child rest,
        rest ∈ (classes.node (fresh.erase name) child).ways.map Prod.fst ↔
          IsWayDown classes child rest ∧ ∀ x ∈ rest.dropLast, x ∈ fresh.erase name := fun child rest =>
      ih child (hfresh.erase name) fun x hx => hknown x (List.mem_of_mem_erase hx)
    rw [isWayDown_iff hfresh, map_fst_ways_node_of_mem h, List.mem_cons, List.mem_map]
    refine or_congr_right ?_
    constructor
    · rintro ⟨rest, hmem, rfl⟩
      obtain ⟨child, hchild, hmem⟩ := List.mem_flatMap.mp hmem
      exact ⟨h, child, (mem_childrenOf_iff_parent hkeys (hknown name h)).mp hchild, rest,
        (hrest child rest).mp hmem, rfl⟩
    · rintro ⟨-, child, hparent, rest, hway, rfl⟩
      have hchild := (mem_childrenOf_iff_parent hkeys (hknown name h)).mpr hparent
      exact ⟨rest, List.mem_flatMap.mpr ⟨child, hchild, (hrest child rest).mpr hway⟩, rfl⟩
  | case2 fresh name h =>
    rw [isWayDown_iff hfresh, ways_node_of_not_mem h, List.map_singleton, List.mem_singleton]
    exact (or_iff_left fun hdown => h hdown.1).symm

theorem head?_of_mem_ways_node (hway : way ∈ (classes.node fresh name).ways.map Prod.fst) :
    way.head? = some name := by
  by_cases h : name ∈ fresh
  · rw [map_fst_ways_node_of_mem h] at hway
    rcases List.mem_cons.mp hway with rfl | hway
    · rfl
    · obtain ⟨rest, -, rfl⟩ := List.mem_map.mp hway
      rfl
  · rw [ways_node_of_not_mem h, List.map_singleton, List.mem_singleton] at hway
    rw [hway]
    rfl

/-- No way is gone twice, since the children of a class are different ones. -/
theorem nodup_ways_node (hchildren : ∀ name, (classes.childrenOf name).Nodup) (fresh : List String) (name : String) :
    ((classes.node fresh name).ways.map Prod.fst).Nodup := by
  induction fresh, name using node.induct with
  | case1 fresh name h ih =>
    rw [map_fst_ways_node_of_mem h, List.nodup_cons]
    constructor
    -- The way that ends here is none of the longer ones, since each of these goes on at a child.
    · intro hmem
      obtain ⟨rest, hrest, heq⟩ := List.mem_map.mp hmem
      obtain ⟨child, -, hway⟩ := List.mem_flatMap.mp hrest
      have hhead := head?_of_mem_ways_node hway
      rw [(List.cons.inj heq).2] at hhead
      cases hhead
    -- Ways through different children differ in where they go on.
    · refine List.Nodup.map (List.cons_injective) ?_
      refine List.nodup_flatMap.mpr ⟨fun child _ => ih child, (hchildren name).imp ?_⟩
      intro child other hne way hway hother
      have hhead := (head?_of_mem_ways_node hway).symm.trans (head?_of_mem_ways_node hother)
      exact hne (Option.some.inj hhead)
  | case2 fresh name h =>
    rw [ways_node_of_not_mem h]
    exact List.nodup_singleton _

/-- The node at the end of a way: it closes a cycle and has no children if its class is not fresh any more, and
else it is expanded. -/
structure EndsAt (classes : Classes) (fresh way : List String) (node : ClassNode) : Prop where
  last : way.getLast? = some node.name
  parents : node.parents = classes.parentsOf node.name
  cycle_iff : node.cycle = true ↔ node.name ∉ fresh ∨ node.name ∈ way.dropLast
  children : node.children.map ClassNode.name = if node.cycle then [] else classes.childrenOf node.name

theorem endsAt_node (classes : Classes) (fresh : List String) (name : String) :
    EndsAt classes fresh [name] (classes.node fresh name) := by
  rw [Classes.node]
  split
  · next h =>
    refine ⟨rfl, rfl, by simpa using h, ?_⟩
    simp [List.map_map, Function.comp_def]
  · next h => exact ⟨rfl, rfl, by simpa using h, rfl⟩

theorem EndsAt.cons (h : EndsAt classes (fresh.erase name) way node) (hfresh : fresh.Nodup) :
    EndsAt classes fresh (name :: way) node := by
  obtain ⟨first, rest, rfl⟩ : ∃ first rest, way = first :: rest :=
    List.exists_cons_of_ne_nil fun hnil => by simpa [hnil] using h.last
  refine ⟨h.last, h.parents, ?_, h.children⟩
  rw [h.cycle_iff, hfresh.mem_erase_iff, List.dropLast_cons_cons, List.mem_cons, not_and_or, not_not]
  tauto

theorem endsAt_of_mem_ways (hfresh : fresh.Nodup) {way : List String × ClassNode}
    (hway : way ∈ (classes.node fresh name).ways) : EndsAt classes fresh way.1 way.2 := by
  induction fresh, name using node.induct generalizing way with
  | case1 fresh name h ih =>
    rw [ways_node_of_mem h] at hway
    rcases List.mem_cons.mp hway with rfl | hway
    · exact endsAt_node classes fresh name
    · obtain ⟨rest, hrest, rfl⟩ := List.mem_map.mp hway
      obtain ⟨child, -, hrest⟩ := List.mem_flatMap.mp hrest
      exact (ih child (hfresh.erase name) hrest).cons hfresh
  | case2 fresh name h =>
    rw [ways_node_of_not_mem h, List.mem_singleton] at hway
    rw [hway]
    exact endsAt_node classes fresh name

end Classes

end DocModel
