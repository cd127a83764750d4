import DocModel.Proofs.Class.Walk
import DocModel.Snapshot.Basic

/-!
# Classes without their provenance

Where a class came from is only carried along. Resolving classes whose provenance was taken out gives the
resolved classes with theirs taken out, and neither the class forest nor the text that is hashed shows it.

* `walk_withoutProvenance`, `resolveAll_withoutProvenance`: resolving does not read provenance.
* `forest_withoutProvenance`, `contentText_withoutProvenance`: nor does what is derived from classes.
-/

namespace DocModel

namespace ClassDefinition

/-- The definition, wherever it came from. -/
def withoutProvenance (c : ClassDefinition) : ClassDefinition := { c with provenance := none }

theorem layered_withoutProvenance (base other : ClassDefinition) :
    base.withoutProvenance.layered other.withoutProvenance = (base.layered other).withoutProvenance := rfl

theorem foldl_layered_withoutProvenance (base : ClassDefinition) (parents : List ClassDefinition) :
    (parents.map withoutProvenance).foldl layered base.withoutProvenance =
      (parents.foldl layered base).withoutProvenance := by
  rw [List.foldl_map]
  exact List.foldl_hom withoutProvenance fun base other => layered_withoutProvenance base other

theorem toValue_withoutProvenance (c : ClassDefinition) : c.withoutProvenance.toValue = c.toValue := rfl

end ClassDefinition

namespace Classes

def withoutProvenance (classes : Classes) : Classes :=
  Dict.mapValues ClassDefinition.withoutProvenance classes

theorem get?_withoutProvenance (classes : Classes) (name : String) :
    Dict.get? classes.withoutProvenance name = (Dict.get? classes name).map ClassDefinition.withoutProvenance :=
  Dict.get?_mapValues _ classes name

@[simp] theorem contains_withoutProvenance (classes : Classes) (name : String) :
    Dict.contains classes.withoutProvenance name = Dict.contains classes name :=
  Dict.contains_mapValues _ classes name

@[simp] theorem keys_withoutProvenance (classes : Classes) :
    Dict.keys classes.withoutProvenance = Dict.keys classes := Dict.keys_mapValues _ classes

end Classes

/-! ## Resolving -/

namespace ResolvedClasses

def withoutProvenance (all : ResolvedClasses) : ResolvedClasses :=
  { all with classes := all.classes.withoutProvenance }

end ResolvedClasses

namespace Resolver

def withoutProvenance (r : Resolver) : Resolver :=
  { r with own := r.own.withoutProvenance, resolved := r.resolved.withoutProvenance }

@[simp] theorem parentsOf_withoutProvenance (r : Resolver) (name : String) :
    r.withoutProvenance.parentsOf name = r.parentsOf name := by
  rw [parentsOf, parentsOf, withoutProvenance, Classes.get?_withoutProvenance]
  cases Dict.get? r.own name <;> rfl

@[simp] theorem contains_own_withoutProvenance (r : Resolver) (name : String) :
    Dict.contains r.withoutProvenance.own name = Dict.contains r.own name :=
  Classes.contains_withoutProvenance r.own name

@[simp] theorem contains_resolved_withoutProvenance (r : Resolver) (name : String) :
    Dict.contains r.withoutProvenance.resolved name = Dict.contains r.resolved name :=
  Classes.contains_withoutProvenance r.resolved name

theorem warn_withoutProvenance (r : Resolver) (issue : Issue) :
    r.withoutProvenance.warn issue = (r.warn issue).withoutProvenance := rfl

theorem flatten_withoutProvenance (r : Resolver) (name : String) (own : ClassDefinition) :
    r.withoutProvenance.flatten name own.withoutProvenance = (r.flatten name own).withoutProvenance := by
  have hparents : own.parents.filterMap (Dict.get? r.resolved.withoutProvenance) =
      (own.parents.filterMap (Dict.get? r.resolved)).map ClassDefinition.withoutProvenance := by
    rw [List.map_filterMap]
    exact congrArg (List.filterMap · own.parents) (funext (Classes.get?_withoutProvenance r.resolved))
  have hbelow := ClassDefinition.foldl_layered_withoutProvenance { name }
    (own.parents.filterMap (Dict.get? r.resolved))
  rw [← hparents] at hbelow
  have hflat := congrArg (·.layered own.withoutProvenance) hbelow
  exact congrArg (fun flat => { flat with schema := flat.schema.map Value.dedupRequired }) hflat

theorem store_withoutProvenance (r : Resolver) (name : String) :
    r.withoutProvenance.store name = (r.store name).withoutProvenance := by
  have hget : Dict.get? r.withoutProvenance.own name =
      (Dict.get? r.own name).map ClassDefinition.withoutProvenance := Classes.get?_withoutProvenance r.own name
  rw [store, store, hget]
  cases Dict.get? r.own name with
  | none => rfl
  | some own =>
    have hresolved : Classes.withoutProvenance (Dict.insert r.resolved name (r.flatten name own)) =
        Dict.insert r.resolved.withoutProvenance name (r.flatten name own).withoutProvenance :=
      Dict.mapValues_insert _ r.resolved name _
    rw [← flatten_withoutProvenance] at hresolved
    exact congrArg (fun resolved => { r.withoutProvenance with resolved }) hresolved.symm

/-- A walk without provenance goes the same way, to the same cycle if there is one. -/
theorem walk_walkParents_withoutProvenance :
    (∀ fresh way name r, walk fresh way name r.withoutProvenance =
        ((walk fresh way name r).1.withoutProvenance, (walk fresh way name r).2)) ∧
      ∀ fresh way name parents r, walkParents fresh way name parents r.withoutProvenance =
        ((walkParents fresh way name parents r).1.withoutProvenance,
          (walkParents fresh way name parents r).2) := by
  refine walk.mutual_induct
    (fun fresh way name r => walk fresh way name r.withoutProvenance =
      ((walk fresh way name r).1.withoutProvenance, (walk fresh way name r).2))
    (fun fresh way name parents r => walkParents fresh way name parents r.withoutProvenance =
      ((walkParents fresh way name parents r).1.withoutProvenance, (walkParents fresh way name parents r).2))
    ?_ ?_ ?_ ?_ ?_ ?_ ?_ ?_
  · intro fresh way name r r' hw ih
    rw [walk, walk, parentsOf_withoutProvenance, ih, hw]
    exact congrArg (·, none) (store_withoutProvenance r' name)
  · intro fresh way name r r' cycle hw ih
    rw [walk, walk, parentsOf_withoutProvenance, ih, hw]
  · intro fresh way name r
    rw [walkParents, walkParents]
  · intro fresh way name r parent rest hown ih
    rw [walkParents, walkParents, contains_own_withoutProvenance, if_pos hown, if_pos hown,
      warn_withoutProvenance, ih]
  · intro fresh way name r parent rest hown hres ih
    rw [walkParents, walkParents, contains_own_withoutProvenance, contains_resolved_withoutProvenance,
      if_neg hown, if_neg hown, if_pos hres, if_pos hres, ih]
  · intro fresh way name r parent rest hown hres hfresh r' hw ihw ih
    rw [walkParents, walkParents, contains_own_withoutProvenance, contains_resolved_withoutProvenance,
      if_neg hown, if_neg hown, if_neg hres, if_neg hres, dif_pos hfresh, dif_pos hfresh, ihw, hw]
    exact ih
  · intro fresh way name r parent rest hown hres hfresh r' cycle hw ihw
    rw [walkParents, walkParents, contains_own_withoutProvenance, contains_resolved_withoutProvenance,
      if_neg hown, if_neg hown, if_neg hres, if_neg hres, dif_pos hfresh, dif_pos hfresh, ihw, hw]
  · intro fresh way name r parent rest hown hres hfresh
    rw [walkParents, walkParents, contains_own_withoutProvenance, contains_resolved_withoutProvenance,
      if_neg hown, if_neg hown, if_neg hres, if_neg hres, dif_neg hfresh, dif_neg hfresh]

theorem walk_withoutProvenance (fresh way : List String) (name : String) (r : Resolver) :
    walk fresh way name r.withoutProvenance =
      ((walk fresh way name r).1.withoutProvenance, (walk fresh way name r).2) :=
  walk_walkParents_withoutProvenance.1 fresh way name r

theorem resolve_withoutProvenance (r : Resolver) (name : String) :
    r.withoutProvenance.resolve name = ((r.resolve name).1.withoutProvenance,
      (r.resolve name).2.map (·.map ClassDefinition.withoutProvenance)) := by
  have hkeys : Dict.keys r.withoutProvenance.own = Dict.keys r.own := Classes.keys_withoutProvenance r.own
  have hget : ∀ r : Resolver, Dict.get? r.withoutProvenance.resolved name =
      (Dict.get? r.resolved name).map ClassDefinition.withoutProvenance :=
    fun r => Classes.get?_withoutProvenance r.resolved name
  rw [resolve, resolve, contains_own_withoutProvenance, contains_resolved_withoutProvenance, hkeys,
    walk_withoutProvenance, hget]
  split
  · rfl
  split
  · rfl
  cases hwalk : r.walk ((Dict.keys r.own).erase name) [name] name with
  | mk r' cycle =>
    cases cycle with
    | none =>
      show (r'.withoutProvenance, Except.ok (Dict.get? r'.withoutProvenance.resolved name)) = _
      rw [hget]
      rfl
    | some cycle => rfl

theorem resolveNames_withoutProvenance (r : Resolver) (names : List String) :
    r.withoutProvenance.resolveNames names = (r.resolveNames names).map withoutProvenance := by
  induction names generalizing r with
  | nil => rfl
  | cons name rest ih =>
    rw [resolveNames, resolveNames, resolve_withoutProvenance]
    cases hresolve : r.resolve name with
    | mk r' found =>
      cases found with
      | ok c => exact ih r'
      | error e => rfl

/-- Resolving does not read where classes came from. -/
theorem resolveAll_withoutProvenance (r : Resolver) :
    r.withoutProvenance.resolveAll = r.resolveAll.map ResolvedClasses.withoutProvenance := by
  have hkeys : ∀ r : Resolver, Dict.keys r.withoutProvenance.own = Dict.keys r.own :=
    fun r => Classes.keys_withoutProvenance r.own
  rw [resolveAll, resolveAll, hkeys, resolveNames_withoutProvenance]
  cases r.resolveNames (Dict.keys r.own) with
  | error e => rfl
  | ok r' =>
    refine congrArg Except.ok (congrArg (ResolvedClasses.mk · r'.warnings) ?_)
    rw [hkeys]
    show _ = List.map _ (List.filterMap _ _)
    rw [List.map_filterMap]
    refine congrArg (List.filterMap · (Dict.keys r'.own)) (funext fun name => ?_)
    have hget : Dict.get? r'.withoutProvenance.resolved name = _ :=
      Classes.get?_withoutProvenance r'.resolved name
    rw [hget]
    cases Dict.get? r'.resolved name <;> rfl

end Resolver

/-! ## The forest and the hashed text -/

namespace Classes

variable (classes : Classes)

@[simp] theorem parentsOf_withoutProvenance (name : String) :
    classes.withoutProvenance.parentsOf name = classes.parentsOf name := by
  rw [parentsOf, parentsOf, get?_withoutProvenance]
  cases Dict.get? classes name <;> rfl

@[simp] theorem childrenOf_withoutProvenance (name : String) :
    classes.withoutProvenance.childrenOf name = classes.childrenOf name := by
  rw [childrenOf, childrenOf, withoutProvenance, Dict.mapValues, List.flatMap_map]
  rfl

theorem node_withoutProvenance (fresh : List String) (name : String) :
    classes.withoutProvenance.node fresh name = classes.node fresh name := by
  induction fresh, name using node.induct with
  | case1 fresh name h ih =>
    rw [node, node, dif_pos h, dif_pos h, parentsOf_withoutProvenance, childrenOf_withoutProvenance]
    exact congrArg (ClassNode.mk name _ · false) (List.map_congr_left fun child _ => ih child)
  | case2 fresh name h =>
    rw [node, node, dif_neg h, dif_neg h, parentsOf_withoutProvenance]

theorem roots_withoutProvenance : classes.withoutProvenance.roots = classes.roots := by
  have hknown : ∀ c : ClassDefinition,
      classes.withoutProvenance.knownParents c.withoutProvenance = classes.knownParents c := by
    intro c
    rw [knownParents, knownParents]
    exact congrArg (List.filter · c.parents) (funext (contains_withoutProvenance classes))
  have hfilter : classes.withoutProvenance.filter
        (fun entry => (classes.withoutProvenance.knownParents entry.2).isEmpty) =
      withoutProvenance (classes.filter fun entry => (classes.knownParents entry.2).isEmpty) := by
    rw [withoutProvenance, Dict.mapValues, List.filter_map]
    refine congrArg (List.map _) (congrArg (List.filter · classes) (funext fun entry => ?_))
    exact congrArg List.isEmpty (hknown entry.2)
  rw [roots, hfilter, keys_withoutProvenance, roots]

theorem forest_withoutProvenance : classes.withoutProvenance.forest = classes.forest := by
  have htree : classes.withoutProvenance.tree = classes.tree := by
    funext name
    rw [tree, tree, keys_withoutProvenance, node_withoutProvenance]
  have hadd : classes.withoutProvenance.addMissing = classes.addMissing := by
    funext forest name
    rw [addMissing, addMissing, htree]
  rw [forest, forest, keys_withoutProvenance, roots_withoutProvenance, htree, hadd]

theorem contentText_withoutProvenance (instances : List Instance) :
    Snapshot.contentText (Dict.values classes.withoutProvenance) instances =
      Snapshot.contentText (Dict.values classes) instances := by
  have hvalues : (Dict.values classes.withoutProvenance).map ClassDefinition.toValue =
      (Dict.values classes).map ClassDefinition.toValue := by
    rw [Dict.values, Dict.values, withoutProvenance, Dict.mapValues, List.map_map, List.map_map, List.map_map]
    exact List.map_congr_left fun e _ => e.2.toValue_withoutProvenance
  rw [Snapshot.contentText, Snapshot.contentValue, hvalues]
  rfl

end Classes

end DocModel
