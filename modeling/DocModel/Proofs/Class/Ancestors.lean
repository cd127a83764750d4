import DocModel.Proofs.Class.Flattening
import DocModel.Proofs.Merging.Directives

/-!
# What a class has from its ancestors

The flat form of a class has all that it and its known ancestors have. What the class says itself is on top;
where it says nothing, the last of its parents that says something is.

* `flat_iff_inherits`: what layers add up is in a flat form if and only if the class or an ancestor has it.
* `get?_flatOn_of_own`, `get?_flatOn_of_last`: which value of a property is on top.
* `resolved_inherits`: all of it, for the classes that resolving everything gives.
-/

namespace DocModel

namespace Classes

open ClassDefinition

variable {own : Classes} {name : String} {P : ClassDefinition → Prop}

/-! ## What layers add up -/

/-- What a definition on top of another has if and only if one of them has it. -/
structure Cumulative (P : ClassDefinition → Prop) : Prop where
  not_empty : ∀ name, ¬ P { name }
  layered : ∀ base other : ClassDefinition, P (base.layered other) ↔ P base ∨ P other
  dedup : ∀ c : ClassDefinition, P { c with schema := c.schema.map Value.dedupRequired } ↔ P c

theorem Cumulative.foldl_layered (hP : Cumulative P) (parents : List ClassDefinition)
    (base : ClassDefinition) : P (parents.foldl ClassDefinition.layered base) ↔ P base ∨ ∃ p ∈ parents, P p := by
  induction parents generalizing base with
  | nil => simp
  | cons p rest ih => rw [List.foldl_cons, ih, hP.layered, List.exists_mem_cons_iff, or_assoc]

theorem Cumulative.flatOn (hP : Cumulative P) (name : String) (parents : List ClassDefinition)
    (c : ClassDefinition) : P (flatOn name parents c) ↔ P c ∨ ∃ p ∈ parents, P p := by
  have hempty : ¬ P { name } := hP.not_empty name
  rw [Classes.flatOn, hP.dedup, hP.layered, hP.foldl_layered]
  simp only [hempty, false_or, or_comm]

theorem cumulative_contains (key : String) :
    Cumulative fun c => Dict.contains c.properties key = true where
  not_empty := by simp [Dict.contains]
  layered := by
    intro base other
    show Dict.contains (Value.mergeFields base.properties other.properties) key = true ↔ _
    rw [Dict.contains, Value.get?_mergeFields, Dict.contains, Dict.contains]
    cases Dict.get? other.properties key <;> cases Dict.get? base.properties key <;> simp
  dedup := fun _ => Iff.rfl

theorem cumulative_schema : Cumulative fun c => c.schema.isSome = true where
  not_empty := by simp
  layered := by
    intro base other
    show (layeredSchema base.schema other.schema).isSome = true ↔ _
    cases base.schema <;> cases other.schema <;> simp [layeredSchema]
  dedup := by simp

/-! ## Ancestors -/

/-- The class or one of its known ancestors is defined so. -/
def Inherits (own : Classes) (name : String) (P : ClassDefinition → Prop) : Prop :=
  ∃ a c, Relation.ReflTransGen (Parent own) name a ∧ Dict.get? own a = some c ∧ P c

theorem inherits_iff {c : ClassDefinition} (hc : Dict.get? own name = some c) :
    Inherits own name P ↔ P c ∨ ∃ parent, Parent own name parent ∧ Inherits own parent P := by
  constructor
  · rintro ⟨a, d, hreach, hd, hP⟩
    rcases Relation.ReflTransGen.cases_head hreach with rfl | ⟨parent, hp, hrest⟩
    · cases hc.symm.trans hd
      exact .inl hP
    · exact .inr ⟨parent, hp, a, d, hrest, hd, hP⟩
  · rintro (hP | ⟨parent, hp, a, d, hrest, hd, hP⟩)
    · exact ⟨name, c, .refl, hc, hP⟩
    · exact ⟨a, d, .head hp hrest, hd, hP⟩

theorem exists_flat (hown : (Dict.keys own).Nodup) (hname : Dict.contains own name = true)
    (hnot : ¬ LeadsToCycle own name) : ∃ f, own.flat name = some f := by
  obtain ⟨c, hc⟩ := Option.isSome_iff_exists.mp hname
  exact ⟨_, by rw [flat_eq hown hnot, hc]; rfl⟩

theorem contains_of_flat_eq_some {f : ClassDefinition} (h : own.flat name = some f) :
    Dict.contains own name = true := by
  rw [← Bool.not_eq_false]
  intro hnone
  rw [flat_of_not_contains hnone] at h
  cases h

/-- The flat form of a class has what it or one of its known ancestors has. -/
theorem flat_iff_inherits (hown : (Dict.keys own).Nodup) (hP : Cumulative P)
    (hnot : ¬ LeadsToCycle own name) {f : ClassDefinition} (hf : own.flat name = some f) :
    P f ↔ Inherits own name P := by
  refine induction_of_not_leadsToCycle
    (P := fun name => ∀ f, own.flat name = some f → (P f ↔ Inherits own name P)) hown ?_
    (contains_of_flat_eq_some hf) hnot f hf
  intro name hname hnot ih f hf
  obtain ⟨c, hc⟩ := Option.isSome_iff_exists.mp hname
  rw [flat_eq hown hnot, hc, Option.map_some, Option.some.injEq] at hf
  rw [← hf, hP.flatOn, inherits_iff hc]
  refine or_congr_right ⟨?_, ?_⟩
  · rintro ⟨d, hd, hPd⟩
    obtain ⟨p, hp, hflat⟩ := List.mem_filterMap.mp hd
    have hparent : Parent own name p := ⟨c, hc, hp, contains_of_flat_eq_some hflat⟩
    exact ⟨p, hparent, (ih p hparent d hflat).mp hPd⟩
  · rintro ⟨p, hparent, hinherits⟩
    obtain ⟨d, hflat⟩ := exists_flat hown hparent.contains_right fun h => hnot (.of_parent hparent h)
    obtain ⟨c', hc', hp, -⟩ := id hparent
    cases hc.symm.trans hc'
    exact ⟨d, List.mem_filterMap.mpr ⟨p, hp, hflat⟩, (ih p hparent d hflat).mpr hinherits⟩

/-! ## Which value is on top -/

theorem get?_layered (base other : ClassDefinition) (key : String) :
    Dict.get? (base.layered other).properties key =
      match Dict.get? other.properties key with
      | some v => some (Value.mergeOver (Dict.get? base.properties key) v)
      | none => Dict.get? base.properties key := by
  show Dict.get? (Value.mergeFields base.properties other.properties) key = _
  rw [Value.mergeFields_eq_overlay, Dict.get?_overlay]
  cases Dict.get? other.properties key <;> rfl

/-- Definitions that do not have a property leave it as it is below them. -/
theorem get?_foldl_layered_of_not_contains {parents : List ClassDefinition} {key : String}
    (h : ∀ p ∈ parents, Dict.contains p.properties key = false) (base : ClassDefinition) :
    Dict.get? (parents.foldl ClassDefinition.layered base).properties key =
      Dict.get? base.properties key := by
  induction parents generalizing base with
  | nil => rfl
  | cons p rest ih =>
    obtain ⟨hp, hrest⟩ := List.forall_mem_cons.mp h
    rw [List.foldl_cons, ih hrest, get?_layered, Dict.get?_eq_none_iff.mpr hp]

/-- What a class says itself is on top. -/
theorem get?_flatOn_of_own (name : String) (parents : List ClassDefinition) {c : ClassDefinition}
    {key : String} {v : Value} (h : Dict.get? c.properties key = some v) :
    ∃ below, Dict.get? (flatOn name parents c).properties key = some (Value.mergeOver below v) := by
  show ∃ below, Dict.get? ((parents.foldl ClassDefinition.layered { name }).layered c).properties key = _
  rw [get?_layered, h]
  exact ⟨_, rfl⟩

/-- Where a class says nothing, the last of its parents that says something is on top. -/
theorem get?_flatOn_of_last (name : String) (before : List ClassDefinition) {p : ClassDefinition}
    {after : List ClassDefinition} {c : ClassDefinition} {key : String} {v : Value}
    (hc : Dict.contains c.properties key = false) (hp : Dict.get? p.properties key = some v)
    (hafter : ∀ q ∈ after, Dict.contains q.properties key = false) :
    ∃ below, Dict.get? (flatOn name (before ++ p :: after) c).properties key =
      some (Value.mergeOver below v) := by
  show ∃ below, Dict.get?
    (((before ++ p :: after).foldl ClassDefinition.layered { name }).layered c).properties key = _
  rw [get?_layered, Dict.get?_eq_none_iff.mpr hc, List.foldl_append, List.foldl_cons]
  dsimp only
  rw [get?_foldl_layered_of_not_contains hafter, get?_layered, hp]
  exact ⟨_, rfl⟩

end Classes

namespace Resolver

open Classes

/-- Resolving all classes of a set without cycles succeeds. Each resolved class has the properties of its own
definition and of all its known ancestors, and a schema if and only if one of these has. What its own
definition gives a property as a scalar or a directive is what it comes to; of a property that it leaves
open, a scalar of the last parent that has it. -/
theorem resolved_inherits {own : Classes} (hown : (Dict.keys own).Nodup)
    (hnot : ¬ ∃ a, Relation.TransGen (Parent own) a a) (asked : List String) :
    ∃ all, (Resolver.after own asked).resolveAll = .ok all ∧ Dict.keys all.classes = Dict.keys own ∧
      ∀ name c f, Dict.get? own name = some c → Dict.get? all.classes name = some f →
        (∀ key, Dict.contains f.properties key = true ↔
          own.Inherits name fun d => Dict.contains d.properties key = true) ∧
        (f.schema.isSome = true ↔ own.Inherits name fun d => d.schema.isSome = true) ∧
        (∀ key v, Dict.get? c.properties key = some v → v.list? = none → v.map? = none →
          Dict.get? f.properties key = some v) ∧
        (∀ key (directive : Fields), Dict.get? c.properties key = some (.map directive) →
          directive.isReset = true → Dict.get? f.properties key =
            some (((Dict.get? directive Value.resetValueKey).map Value.strip).getD (.list []))) ∧
        (∀ key before parent after g v, Dict.contains c.properties key = false →
          c.parents = before ++ parent :: after → Dict.get? all.classes parent = some g →
          Dict.get? g.properties key = some v → v.list? = none → v.map? = none →
          (∀ q ∈ after, ∀ h, Dict.get? all.classes q = some h → Dict.contains h.properties key = false) →
          Dict.get? f.properties key = some v) := by
  have hcycle : ∀ name, ¬ LeadsToCycle own name := fun _ ⟨a, _, ha⟩ => hnot ⟨a, ha⟩
  rcases resolveAll_spec hown (isSound_after hown asked) with ⟨all, hok, -⟩ | ⟨_, -, -, hfound⟩
  swap
  · exact absurd hfound hnot
  obtain ⟨hkeys, hget, -⟩ := resolveAll_flat hown (isExact_after hown asked) hok
  refine ⟨all, hok, hkeys, fun name c f hc hf => ?_⟩
  rw [hget] at hf
  have hflat := hf
  rw [flat_eq hown (hcycle name), hc, Option.map_some, Option.some.injEq] at hflat
  refine ⟨fun key => ?_, ?_, ?_, ?_, ?_⟩
  · exact flat_iff_inherits hown (cumulative_contains key) (hcycle name) hf
  · exact flat_iff_inherits hown cumulative_schema (hcycle name) hf
  · intro key v hv hl hm
    obtain ⟨below, hbelow⟩ := get?_flatOn_of_own name (c.parents.filterMap own.flat) hv
    rw [← hflat, hbelow, Value.mergeOver_of_scalar hl hm]
  · intro key directive hv hr
    obtain ⟨below, hbelow⟩ := get?_flatOn_of_own name (c.parents.filterMap own.flat) hv
    rw [← hflat, hbelow, Value.mergeOver_of_isReset hr]
  · intro key before parent after g v hkey hparents hg hv hl hm hafter
    rw [hget] at hg
    have hlast : ∀ q ∈ after.filterMap own.flat, Dict.contains q.properties key = false := by
      intro h hh
      obtain ⟨q, hq, hflatq⟩ := List.mem_filterMap.mp hh
      exact hafter q hq h ((hget q).trans hflatq)
    obtain ⟨below, hbelow⟩ := get?_flatOn_of_last name (before.filterMap own.flat) hkey hv hlast
    rw [hparents, List.filterMap_append, List.filterMap_cons_some hg] at hflat
    rw [← hflat, hbelow, Value.mergeOver_of_scalar hl hm]

/-- A class under two others, of which the second is under the first too, and under one that there is not. -/
def underBoth : Classes :=
  [("a", { name := "a", properties := [("tags", .strings ["t"]), ("x", .string "1")] }),
    ("b", { name := "b", parents := ["a"], properties := [("x", .string "2")] }),
    ("c", { name := "c", parents := ["a", "b", "ghost"],
            properties := [("tags", .map [(Value.resetKey, .bool true)])] })]

/-- Its value of `x` is that of its second parent, and its tags are reset. -/
theorem resolved_inherits_underBoth :
    (Dict.keys underBoth).Nodup ∧ (¬ ∃ a, Relation.TransGen (Parent underBoth) a a) ∧
      ∃ all f, (Resolver.after underBoth []).resolveAll = .ok all ∧ Dict.get? all.classes "c" = some f ∧
        Dict.get? f.properties "x" = some (.string "2") ∧ Dict.get? f.properties "tags" = some (.list []) := by
  have hown : (Dict.keys underBoth).Nodup := by decide
  have hnot : ¬ ∃ a, Relation.TransGen (Parent underBoth) a a := by
    refine not_exists_transGen_of_rank (fun name => if name = "c" then 2 else if name = "b" then 1 else 0) ?_
    rintro a p ⟨c, hc, hp, hk⟩
    have hmem := Dict.mem_of_get? hc
    simp only [underBoth, List.mem_cons, Prod.mk.injEq, List.not_mem_nil, or_false] at hmem
    rcases hmem with ⟨rfl, rfl⟩ | ⟨rfl, rfl⟩ | ⟨rfl, rfl⟩
    · cases hp
    · rw [List.mem_singleton.mp hp]
      decide
    · simp only [List.mem_cons, List.not_mem_nil, or_false] at hp
      rcases hp with rfl | rfl | rfl
      · decide
      · decide
      · cases hk
  obtain ⟨all, hok, hkeys, hall⟩ := resolved_inherits hown hnot []
  have hknown : ∀ name ∈ ["a", "b", "c"], ∃ f, Dict.get? all.classes name = some f := fun name hm =>
    Option.isSome_iff_exists.mp (Dict.contains_eq_true_iff.mpr (hkeys ▸ hm))
  obtain ⟨f, hf⟩ := hknown "c" (by decide)
  obtain ⟨g, hg⟩ := hknown "b" (by decide)
  obtain ⟨-, -, hscalar, -, -⟩ := hall "b" _ g rfl hg
  obtain ⟨-, -, -, hreset, hlast⟩ := hall "c" _ f rfl hf
  refine ⟨hown, hnot, all, f, hok, hf, ?_, hreset "tags" _ rfl (by decide)⟩
  refine hlast "x" ["a"] "b" ["ghost"] g _ rfl rfl hg (hscalar "x" _ rfl rfl rfl) rfl rfl fun q hq h hh => ?_
  have hghost : "ghost" ∈ Dict.keys all.classes :=
    Dict.contains_eq_true_iff.mp (by rw [← List.mem_singleton.mp hq, Dict.contains, hh]; rfl)
  rw [hkeys] at hghost
  exact absurd hghost (by decide)

end Resolver

end DocModel
