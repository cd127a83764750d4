import DocModel.Proofs.Class.Descents
import Mathlib.Data.List.Perm.Subperm

/-!
# The class forest is complete

The trees of the forest are those of different classes, and first of those without known parents; a class that
none of these trees contains becomes the top of one of its own, so that every class is somewhere. A way down a
tree that comes back to a class has gone around a cycle, and along a cycle every way can be made longer until
it comes back, since there is no room for a longer one.

* `HoldsAll.foldl_addMissing`: what looking for classes in a forest makes of it.
* `exists_cycle_iff`: a node is flagged if there is a cycle, and only then.
* `forest_complete`: what the forest of a class map is.
-/

namespace DocModel

namespace Classes

variable {classes : Classes} {way : List String} {top name child : String} {node : ClassNode}
  {forest : List ClassNode}

/-! ## The trees of a forest -/

@[simp] theorem name_tree (classes : Classes) (name : String) : (classes.tree name).name = name :=
  name_node classes _ name

/-- The trees of a forest are those of different known classes, and hold every class that was looked for. -/
structure HoldsAll (classes : Classes) (seen : List String) (forest : List ClassNode) : Prop where
  tree : ∀ node ∈ forest, Dict.contains classes node.name = true ∧ node = classes.tree node.name
  nodup : (forest.map ClassNode.name).Nodup
  holds : ∀ name ∈ seen, name ∈ ClassNode.namesOf forest

theorem HoldsAll.roots (hkeys : (Dict.keys classes).Nodup) :
    HoldsAll classes [] (classes.roots.map classes.tree) where
  tree := by
    intro node hnode
    obtain ⟨name, hname, rfl⟩ := List.mem_map.mp hnode
    rw [name_tree]
    exact ⟨Dict.contains_eq_true_iff.mpr ((List.filter_sublist.map Prod.fst).subset hname), rfl⟩
  nodup := by
    rw [List.map_map, show ClassNode.name ∘ classes.tree = id from funext (name_tree classes), List.map_id]
    exact hkeys.sublist (List.filter_sublist.map Prod.fst)
  holds := nofun

theorem HoldsAll.addMissing {seen : List String} (h : HoldsAll classes seen forest)
    (hname : Dict.contains classes name = true) :
    HoldsAll classes (seen ++ [name]) (classes.addMissing forest name) := by
  rw [Classes.addMissing]
  split
  · next hmem =>
    refine ⟨h.tree, h.nodup, fun x hx => ?_⟩
    rcases List.mem_append.mp hx with hx | hx
    · exact h.holds x hx
    · exact List.mem_singleton.mp hx ▸ hmem
  · next hmissing =>
    refine ⟨?_, ?_, fun x hx => ?_⟩
    · refine List.forall_mem_append.mpr ⟨h.tree, fun node hnode => ?_⟩
      rw [List.mem_singleton.mp hnode, name_tree]
      exact ⟨hname, rfl⟩
    · rw [List.map_append, List.map_singleton, name_tree, ← List.concat_eq_append]
      refine h.nodup.concat fun htop => hmissing ?_
      obtain ⟨node, hnode, rfl⟩ := List.mem_map.mp htop
      exact ClassNode.mem_namesOf.mpr ⟨node, hnode, node.name_mem_names⟩
    · rw [ClassNode.mem_namesOf]
      rcases List.mem_append.mp hx with hx | hx
      · obtain ⟨node, hnode, hx⟩ := ClassNode.mem_namesOf.mp (h.holds x hx)
        exact ⟨node, List.mem_append_left _ hnode, hx⟩
      · refine ⟨classes.tree name, List.mem_append_right _ (List.mem_singleton_self _), ?_⟩
        rw [List.mem_singleton.mp hx]
        have hmem := (classes.tree name).name_mem_names
        rwa [name_tree] at hmem

theorem prefix_addMissing (classes : Classes) (forest : List ClassNode) (name : String) :
    forest <+: classes.addMissing forest name := by
  rw [Classes.addMissing]
  split
  · exact List.prefix_refl _
  · exact List.prefix_append _ _

theorem HoldsAll.foldl_addMissing {names seen : List String} (h : HoldsAll classes seen forest)
    (hnames : ∀ name ∈ names, Dict.contains classes name = true) :
    HoldsAll classes (seen ++ names) (names.foldl classes.addMissing forest) ∧
      forest <+: names.foldl classes.addMissing forest := by
  induction names generalizing seen forest with
  | nil => exact ⟨by rwa [List.append_nil], List.prefix_refl _⟩
  | cons name rest ih =>
    obtain ⟨hname, hrest⟩ := List.forall_mem_cons.mp hnames
    obtain ⟨hholds, hprefix⟩ := ih (h.addMissing hname) hrest
    rw [List.append_assoc] at hholds
    exact ⟨hholds, (prefix_addMissing classes forest name).trans hprefix⟩

theorem holdsAll_forest (hkeys : (Dict.keys classes).Nodup) :
    HoldsAll classes (Dict.keys classes) classes.forest ∧ classes.roots.map classes.tree <+: classes.forest := by
  have hknown : ∀ name ∈ Dict.keys classes, Dict.contains classes name = true := fun name hname =>
    Dict.contains_eq_true_iff.mpr hname
  exact (HoldsAll.roots hkeys).foldl_addMissing hknown

theorem mem_roots {c : ClassDefinition} (hc : Dict.get? classes name = some c) (h : classes.knownParents c = []) :
    name ∈ classes.roots := by
  refine List.mem_map.mpr ⟨(name, c), List.mem_filter.mpr ⟨Dict.mem_of_get? hc, ?_⟩, rfl⟩
  rw [List.isEmpty_iff]
  exact h

/-! ## The ways down a tree of the forest -/

theorem exists_rel_of_mem_dropLast {α : Type} {r : α → α → Prop} :
    ∀ {l : List α}, l.IsChain r → ∀ x ∈ l.dropLast, ∃ y, r x y
  | a :: b :: rest, h, x, hx => by
    rw [List.dropLast_cons_cons] at hx
    rcases List.mem_cons.mp hx with rfl | hx
    · exact ⟨b, h.rel⟩
    · exact exists_rel_of_mem_dropLast h.tail x hx

theorem IsWayDown.contains (h : IsWayDown classes top way) :
    ∀ x ∈ way.dropLast, Dict.contains classes x = true := by
  intro x hx
  obtain ⟨y, hparent⟩ := exists_rel_of_mem_dropLast h.chain x hx
  exact hparent.contains_right

/-- A way down meets each class once at most, and one of them again at its end. -/
theorem IsWayDown.length_le (h : IsWayDown classes top way) : way.length ≤ classes.length + 1 := by
  have hsub : way.dropLast ⊆ Dict.keys classes := fun x hx => Dict.contains_eq_true_iff.mp (h.contains x hx)
  have hle := (List.subperm_of_subset h.nodup hsub).length_le
  rw [List.length_dropLast, Dict.keys, List.length_map] at hle
  omega

theorem mem_ways_tree (hkeys : (Dict.keys classes).Nodup) :
    way ∈ (classes.tree name).ways.map Prod.fst ↔ IsWayDown classes name way := by
  rw [tree, mem_ways_node hkeys hkeys fun x hx => Dict.contains_eq_true_iff.mpr hx]
  exact and_iff_left_of_imp fun h x hx => Dict.contains_eq_true_iff.mp (h.contains x hx)

/-- The node at the end of a way down: a class that the way has met already closes a cycle and has no children,
and any other is expanded to its children in their order. -/
structure IsWayEnd (classes : Classes) (way : List String) (node : ClassNode) : Prop where
  last : way.getLast? = some node.name
  parents : node.parents = classes.parentsOf node.name
  cycle_iff : node.cycle = true ↔ node.name ∈ way.dropLast
  closed : node.cycle = true → node.children = []
  expanded : node.cycle = false →
    (node.children.map ClassNode.name).Pairwise (· < ·) ∧
    ∀ child, child ∈ node.children.map ClassNode.name ↔ Parent classes child node.name

/-- Where a way down ends is known: it is the top, or names the class before as a parent. -/
theorem IsWayDown.contains_last (h : IsWayDown classes top way) (htop : Dict.contains classes top = true)
    (hlast : way.getLast? = some name) : Dict.contains classes name = true := by
  have hchain := h.chain
  have hhead := h.head
  rw [← List.dropLast_append_getLast? name hlast] at hchain hhead
  cases hbefore : way.dropLast.getLast? with
  | none =>
    rw [List.getLast?_eq_none_iff.mp hbefore] at hhead
    cases hhead
    exact htop
  | some before =>
    have hparent : Parent classes name before := (List.isChain_append.mp hchain).2.2 before hbefore name rfl
    exact hparent.contains_left

theorem isWayEnd_of_mem_ways (hordered : Dict.Ordered classes)
    (hparents : ∀ entry ∈ classes, entry.2.parents.Nodup) (hname : Dict.contains classes name = true)
    {way : List String × ClassNode} (hway : way ∈ (classes.tree name).ways) : IsWayEnd classes way.1 way.2 := by
  have hend := endsAt_of_mem_ways hordered.nodup hway
  have hdown := (mem_ways_tree hordered.nodup).mp (List.mem_map_of_mem (f := Prod.fst) hway)
  have hknown := hdown.contains_last hname hend.last
  refine ⟨hend.last, hend.parents, ?_, fun hcycle => ?_, fun hexpanded => ?_⟩
  · rw [hend.cycle_iff]
    exact or_iff_right (not_not_intro (Dict.contains_eq_true_iff.mp hknown))
  · have hchildren := hend.children
    rw [if_pos hcycle] at hchildren
    exact List.map_eq_nil_iff.mp hchildren
  · have hchildren := hend.children
    rw [if_neg (Bool.eq_false_iff.mp hexpanded)] at hchildren
    rw [hchildren]
    exact ⟨pairwise_childrenOf hordered hparents _, fun child => mem_childrenOf_iff_parent hordered.nodup hknown⟩

/-! ## Cycles -/

/-- A way down that comes back to a class has gone around a cycle. -/
theorem IsWayDown.transGen (h : IsWayDown classes top way) (hlast : way.getLast? = some name)
    (hmem : name ∈ way.dropLast) : Relation.TransGen (Parent classes) name name := by
  obtain ⟨before, rest, hdrop⟩ := List.append_of_mem hmem
  have hway : way = before ++ name :: (rest ++ [name]) := by
    rw [← List.dropLast_append_getLast? name hlast, hdrop, List.append_assoc, List.cons_append]
  obtain ⟨next, more, hmore⟩ : ∃ next more, rest ++ [name] = next :: more :=
    List.exists_cons_of_ne_nil (List.concat_ne_nil name rest)
  have hchain := h.chain
  rw [hway, hmore] at hchain
  have haround := hchain.right_of_append
  have hback := reflTransGen_of_isChain haround.tail (hmore ▸ List.getLast?_concat)
  have hcycle : Relation.TransGen (fun a b => Parent classes b a) name name := .head' haround.rel hback
  exact hcycle.swap

theorem IsWayDown.concat (h : IsWayDown classes top way) (hnodup : way.Nodup) (hlast : way.getLast? = some name)
    (hparent : Parent classes child name) : IsWayDown classes top (way ++ [child]) where
  head := by rw [List.head?_append, h.head, Option.some_or]
  chain := isChain_concat h.chain hlast hparent
  nodup := by rwa [List.dropLast_concat]

/-- Where no way comes back, one that ends on a cycle can be made as long as one likes. -/
theorem exists_long_way (hnodup : ∀ way, IsWayDown classes top way → way.Nodup) (h : IsWayDown classes top way)
    (hlast : way.getLast? = some name) (hcycle : Relation.TransGen (Parent classes) name name) (n : Nat) :
    ∃ way name, IsWayDown classes top way ∧ way.getLast? = some name ∧
      Relation.TransGen (Parent classes) name name ∧ n ≤ way.length := by
  induction n with
  | zero => exact ⟨way, name, h, hlast, hcycle, Nat.zero_le _⟩
  | succ n ih =>
    obtain ⟨way, name, h, hlast, hcycle, hlong⟩ := ih
    obtain ⟨child, hback, hparent⟩ := Relation.TransGen.tail'_iff.mp hcycle
    refine ⟨way ++ [child], child, h.concat (hnodup way h) hlast hparent, List.getLast?_concat, .head' hparent hback, ?_⟩
    rw [List.length_append, List.length_singleton]
    exact Nat.succ_le_succ hlong

theorem exists_cycle_iff (hordered : Dict.Ordered classes)
    (hparents : ∀ entry ∈ classes, entry.2.parents.Nodup) :
    (∃ tree ∈ classes.forest, ∃ way ∈ tree.ways, way.2.cycle = true) ↔
      ∃ a, Relation.TransGen (Parent classes) a a := by
  have hkeys := hordered.nodup
  obtain ⟨hall, -⟩ := holdsAll_forest hkeys
  constructor
  · rintro ⟨tree, htree, way, hway, hcycle⟩
    obtain ⟨hknown, heq⟩ := hall.tree tree htree
    rw [heq] at hway
    have hend := isWayEnd_of_mem_ways hordered hparents hknown hway
    have hdown := (mem_ways_tree hkeys).mp (List.mem_map_of_mem (f := Prod.fst) hway)
    exact ⟨way.2.name, hdown.transGen hend.last (hend.cycle_iff.mp hcycle)⟩
  · rintro ⟨a, hcycle⟩
    obtain ⟨b, hparent, -⟩ := Relation.TransGen.head'_iff.mp hcycle
    obtain ⟨tree, htree, ha⟩ := ClassNode.mem_namesOf.mp
      (hall.holds a (Dict.contains_eq_true_iff.mp hparent.contains_left))
    obtain ⟨hknown, heq⟩ := hall.tree tree htree
    rw [tree.names_eq_map_ways] at ha
    obtain ⟨first, hfirst, rfl⟩ := List.mem_map.mp ha
    by_contra hnone
    -- Without a flagged node no way of this tree comes back, so there is one that is longer than any.
    have hnodup : ∀ way, IsWayDown classes tree.name way → way.Nodup := by
      intro way hdown
      obtain ⟨found, hfound, rfl⟩ := List.mem_map.mp ((mem_ways_tree hkeys).mpr hdown)
      have hend := isWayEnd_of_mem_ways hordered hparents hknown hfound
      rw [← List.dropLast_append_getLast? _ hend.last, ← List.concat_eq_append]
      refine hdown.nodup.concat fun hmem => hnone ⟨tree, htree, found, ?_, hend.cycle_iff.mpr hmem⟩
      rwa [heq]
    rw [heq] at hfirst
    have hend := isWayEnd_of_mem_ways hordered hparents hknown hfirst
    have hdown := (mem_ways_tree hkeys).mp (List.mem_map_of_mem (f := Prod.fst) hfirst)
    obtain ⟨way, -, hway, -, -, hlong⟩ := exists_long_way hnodup hdown hend.last hcycle (classes.length + 2)
    have hshort := hway.length_le
    omega

/-- The forest of a class map. The ways down from a top-level node are the sequences in which each class names
the one before as a parent and none comes twice before the last, each of them once, and none is longer than the
classes allow. The class at the end of a way is flagged, and has no children, if the way has met it already, and
else it is expanded to all its children in their order. Every class without known parents is top level, every
class is somewhere, none is top level twice, and a node is flagged if there is a cycle, and only then. -/
theorem forest_complete {classes : Classes} (hordered : Dict.Ordered classes)
    (hparents : ∀ entry ∈ classes, entry.2.parents.Nodup) :
    (∀ tree ∈ classes.forest, Dict.contains classes tree.name = true ∧
      (tree.ways.map Prod.fst).Nodup ∧
      (∀ way, way ∈ tree.ways.map Prod.fst ↔ IsWayDown classes tree.name way) ∧
      ∀ way ∈ tree.ways, way.1.length ≤ classes.length + 1 ∧ IsWayEnd classes way.1 way.2) ∧
    (∀ name c, Dict.get? classes name = some c → classes.knownParents c = [] →
      name ∈ classes.forest.map ClassNode.name) ∧
    (∀ name, Dict.contains classes name = true →
      ∃ tree ∈ classes.forest, ∃ way ∈ tree.ways, way.2.name = name) ∧
    (classes.forest.map ClassNode.name).Nodup ∧
    ((∃ tree ∈ classes.forest, ∃ way ∈ tree.ways, way.2.cycle = true) ↔
      ∃ a, Relation.TransGen (Parent classes) a a) := by
  have hkeys := hordered.nodup
  obtain ⟨hall, hroots⟩ := holdsAll_forest hkeys
  refine ⟨fun tree htree => ?_, fun name c hc hnone => ?_, fun name hname => ?_, hall.nodup,
    exists_cycle_iff hordered hparents⟩
  · obtain ⟨hknown, heq⟩ := hall.tree tree htree
    have hways : ∀ way, way ∈ tree.ways.map Prod.fst ↔ IsWayDown classes tree.name way := by
      intro way
      rw [← mem_ways_tree hkeys, ← heq]
    refine ⟨hknown, ?_, hways, fun way hway => ⟨?_, ?_⟩⟩
    · rw [heq]
      exact nodup_ways_node (nodup_childrenOf hordered hparents) _ _
    · exact ((hways _).mp (List.mem_map_of_mem (f := Prod.fst) hway)).length_le
    · exact isWayEnd_of_mem_ways hordered hparents hknown (heq ▸ hway)
  · refine (hroots.map ClassNode.name).subset ?_
    rw [List.map_map]
    exact List.mem_map.mpr ⟨name, mem_roots hc hnone, name_tree classes name⟩
  · obtain ⟨tree, htree, hmem⟩ := ClassNode.mem_namesOf.mp (hall.holds name (Dict.contains_eq_true_iff.mp hname))
    rw [tree.names_eq_map_ways] at hmem
    obtain ⟨way, hway, rfl⟩ := List.mem_map.mp hmem
    exact ⟨tree, htree, way, hway, rfl⟩

/-- Two classes that name each other as parents, and one below both of them. -/
def looped : Classes :=
  [("a", { name := "a", parents := ["b"] }), ("b", { name := "b", parents := ["a", "gone"] }),
    ("c", { name := "c", parents := ["b", "a"] })]

theorem forest_complete_around_a_cycle :
    Dict.Ordered looped ∧ (∀ entry ∈ looped, entry.2.parents.Nodup) ∧
      (∃ tree ∈ looped.forest, ∃ way ∈ tree.ways, way.2.cycle = true) ∧
      (∀ tree ∈ looped.forest, ∀ way, way ∈ tree.ways.map Prod.fst ↔ IsWayDown looped tree.name way) ∧
      looped.forest.map (fun tree => tree.ways.map Prod.fst) =
        [[["a"], ["a", "b"], ["a", "b", "a"], ["a", "b", "c"], ["a", "c"]]] := by
  have hordered : (Dict.keys looped).Pairwise (· < ·) := by decide
  have hparents : ∀ entry ∈ looped, entry.2.parents.Nodup := by decide
  have hab : Parent looped "a" "b" := ⟨_, rfl, by decide, rfl⟩
  have hba : Parent looped "b" "a" := ⟨_, rfl, by decide, rfl⟩
  obtain ⟨htrees, -, -, -, hcycle⟩ := forest_complete hordered hparents
  refine ⟨hordered, hparents, hcycle.mpr ⟨"a", .tail (.single hab) hba⟩, fun tree htree => ?_, by decide +kernel⟩
  exact (htrees tree htree).2.2.1

end Classes

end DocModel
