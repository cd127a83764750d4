import DocModel.Class.Forest
import DocModel.Class.Inheritance
import DocModel.Proofs.Dict.Insertion
import Mathlib.Data.List.Chain
import Mathlib.Logic.Relation

/-!
# Parents and cycles

The graph that classes and their known parents make, and the cycles in it. A way that a walk has gone leads
from each class to one of its parents; the step that takes it back to itself closes a cycle
(`isCycle_cycleAt`).
-/

namespace DocModel

namespace Classes

variable {own : Classes} {a b : String}

/-- The second name is a parent of the first, and some class defines it. -/
def Parent (own : Classes) (a b : String) : Prop :=
  ∃ c, Dict.get? own a = some c ∧ b ∈ c.parents ∧ Dict.contains own b = true

/-- The second name is a parent of the first, and no class defines it. -/
def UnknownParent (own : Classes) (a b : String) : Prop :=
  ∃ c, Dict.get? own a = some c ∧ b ∈ c.parents ∧ Dict.contains own b = false

/-- Some cycle of known parents can be reached from the name. -/
def LeadsToCycle (own : Classes) (a : String) : Prop :=
  ∃ b, Relation.ReflTransGen (Parent own) a b ∧ Relation.TransGen (Parent own) b b

theorem Parent.contains_left (h : Parent own a b) : Dict.contains own a = true := by
  obtain ⟨c, hc, -⟩ := h
  rw [Dict.contains, hc]
  rfl

theorem Parent.contains_right (h : Parent own a b) : Dict.contains own b = true := by
  obtain ⟨c, -, -, hb⟩ := h
  exact hb

theorem LeadsToCycle.of_parent (h : Parent own a b) (hb : LeadsToCycle own b) : LeadsToCycle own a := by
  obtain ⟨c, hbc, hc⟩ := hb
  exact ⟨c, .head h hbc, hc⟩

/-- What leads to a cycle has a parent that does. -/
theorem LeadsToCycle.exists_parent (h : LeadsToCycle own a) :
    ∃ b, Parent own a b ∧ LeadsToCycle own b := by
  obtain ⟨c, hac, hc⟩ := h
  rcases Relation.ReflTransGen.cases_head hac with rfl | ⟨b, hab, hbc⟩
  · obtain ⟨b, hab, hba⟩ := Relation.TransGen.head'_iff.mp hc
    exact ⟨b, hab, a, hba, hc⟩
  · exact ⟨b, hab, c, hbc, hc⟩

/-- Some class leads to a cycle if there is one. -/
theorem exists_leadsToCycle_iff :
    (∃ a, Dict.contains own a = true ∧ LeadsToCycle own a) ↔ ∃ a, Relation.TransGen (Parent own) a a := by
  constructor
  · rintro ⟨a, -, b, -, hb⟩
    exact ⟨b, hb⟩
  · rintro ⟨a, ha⟩
    obtain ⟨b, hab, -⟩ := Relation.TransGen.head'_iff.mp ha
    exact ⟨a, hab.contains_left, a, .refl, ha⟩

/-- Parents that all rank below the classes that name them make no cycle. -/
theorem not_exists_transGen_of_rank (rank : String → Nat) (h : ∀ a b, Parent own a b → rank b < rank a) :
    ¬ ∃ a, Relation.TransGen (Parent own) a a := by
  rintro ⟨a, ha⟩
  have hless : ∀ b, Relation.TransGen (Parent own) a b → rank b < rank a := by
    intro b hb
    induction hb with
    | single hp => exact h a _ hp
    | tail _ hp ih => exact (h _ _ hp).trans ih
  exact Nat.lt_irrefl _ (hless a ha)

/-! ## Parents that no class defines -/

/-- The definitions without the parents that none of them is for. -/
def withKnownParents (own : Classes) : Classes :=
  Dict.mapValues (fun c => { c with parents := own.knownParents c }) own

theorem contains_withKnownParents (own : Classes) (name : String) :
    Dict.contains own.withKnownParents name = Dict.contains own name := Dict.contains_mapValues _ own name

theorem parent_withKnownParents (own : Classes) : Parent own.withKnownParents = Parent own := by
  funext a b
  rw [Parent, Parent, contains_withKnownParents, withKnownParents, Dict.get?_mapValues]
  cases Dict.get? own a with
  | none => simp
  | some c => simp [knownParents]

theorem keys_withKnownParents (own : Classes) : Dict.keys own.withKnownParents = Dict.keys own :=
  Dict.keys_mapValues _ own

/-! ## Cycles as paths -/

/-- A path along parents that ends where it starts and meets no class twice in between. -/
structure IsCycle (own : Classes) (path : List String) : Prop where
  two_le : 2 ≤ path.length
  closed : path.head? = path.getLast?
  nodup : path.dropLast.Nodup
  chain : path.IsChain (Parent own)

/-- A way that a walk has gone to `name`, and the classes that are still fresh there. -/
structure IsWay (own : Classes) (fresh way : List String) (name : String) : Prop where
  last : way.getLast? = some name
  chain : way.IsChain (Parent own)
  nodup : way.Nodup
  known : Dict.contains own name = true
  fresh_nodup : fresh.Nodup
  mem_fresh : ∀ x, x ∈ fresh ↔ Dict.contains own x = true ∧ x ∉ way

variable {fresh way : List String} {name parent : String}

theorem IsWay.start (hown : (Dict.keys own).Nodup) (h : Dict.contains own name = true) :
    IsWay own ((Dict.keys own).erase name) [name] name where
  last := rfl
  chain := .singleton name
  nodup := by simp
  known := h
  fresh_nodup := hown.erase name
  mem_fresh := by
    intro x
    rw [hown.mem_erase_iff, Dict.contains_eq_true_iff, List.mem_singleton, and_comm]

theorem isChain_concat {r : String → String → Prop} (hchain : way.IsChain r) (hlast : way.getLast? = some name)
    (hp : r name parent) : (way ++ [parent]).IsChain r := by
  refine List.isChain_append.mpr ⟨hchain, .singleton parent, ?_⟩
  intro x hx y hy
  rw [hlast] at hx
  cases hx
  cases hy
  exact hp

/-- The first of a chain leads to its end. -/
theorem reflTransGen_of_isChain {r : String → String → Prop} {rest : List String}
    (hchain : (a :: rest).IsChain r) (hlast : (a :: rest).getLast? = some b) : Relation.ReflTransGen r a b := by
  refine List.relationReflTransGen_of_exists_isChain_cons rest hchain ?_
  rw [List.getLast?_eq_some_getLast (List.cons_ne_nil _ _)] at hlast
  exact Option.some.inj hlast

theorem IsWay.step (h : IsWay own fresh way name) (hp : Parent own name parent)
    (hf : parent ∈ fresh) : IsWay own (fresh.erase parent) (way ++ [parent]) parent where
  last := List.getLast?_concat
  chain := isChain_concat h.chain h.last hp
  nodup := by
    have hnot := ((h.mem_fresh parent).mp hf).2
    refine List.nodup_append.mpr ⟨h.nodup, by simp, ?_⟩
    intro x hx y hy hxy
    rw [List.mem_singleton] at hy
    exact hnot (hy ▸ hxy ▸ hx)
  known := hp.contains_right
  fresh_nodup := h.fresh_nodup.erase parent
  mem_fresh := by
    intro x
    rw [h.fresh_nodup.mem_erase_iff, h.mem_fresh, List.mem_append, List.mem_singleton, not_or]
    exact ⟨fun hx => ⟨hx.2.1, hx.2.2, hx.1⟩, fun hx => ⟨hx.2.2, hx.1, hx.2.1⟩⟩

/-- A way that meets a class: what comes from there on ends with the way. -/
theorem IsWay.from_mem (h : IsWay own fresh way name) (hm : parent ∈ way) :
    ∃ before rest, way = before ++ parent :: rest ∧ parent ∉ before ∧
      (parent :: rest).IsChain (Parent own) ∧ (parent :: rest).getLast? = some name := by
  obtain ⟨before, rest, rfl, hbefore⟩ := List.eq_append_cons_of_mem hm
  refine ⟨before, rest, rfl, hbefore, h.chain.right_of_append, ?_⟩
  rw [← List.getLast?_append_cons before parent rest]
  exact h.last

/-- What is on the way leads to its end. -/
theorem IsWay.reflTransGen (h : IsWay own fresh way name) (hm : parent ∈ way) :
    Relation.ReflTransGen (Parent own) parent name := by
  obtain ⟨before, rest, -, -, hchain, hlast⟩ := h.from_mem hm
  exact reflTransGen_of_isChain hchain hlast

/-- A parent that is on the way itself leads to a cycle. -/
theorem IsWay.leadsToCycle (h : IsWay own fresh way name) (hp : Parent own name parent)
    (hm : parent ∈ way) : LeadsToCycle own name :=
  ⟨name, .refl, .head' hp (h.reflTransGen hm)⟩

/-- The part of a way from a parent of its end, and that parent again, are a cycle. -/
theorem IsWay.isCycle_cycleAt (h : IsWay own fresh way name) (hp : Parent own name parent)
    (hm : parent ∈ way) : IsCycle own (Resolver.cycleAt way parent) := by
  obtain ⟨before, rest, hway, hbefore, hchain, hlast⟩ := h.from_mem hm
  have hcycle : Resolver.cycleAt way parent = parent :: rest ++ [parent] := by
    rw [Resolver.cycleAt, hway, List.dropWhile_append_of_pos, List.dropWhile_cons_of_neg (by simp)]
    intro x hx
    have hne : x ≠ parent := fun he => hbefore (he ▸ hx)
    simpa using hne
  rw [hcycle]
  refine ⟨by simp, ?_, ?_, isChain_concat hchain hlast hp⟩
  · rw [List.getLast?_concat, List.cons_append, List.head?_cons]
  · rw [List.dropLast_concat]
    have hnodup := h.nodup
    rw [hway] at hnodup
    exact (List.nodup_append.mp hnodup).2.1

end Classes

end DocModel
