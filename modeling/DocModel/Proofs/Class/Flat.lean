import DocModel.Proofs.Class.Parents

/-!
# The flat form of a class

What resolving a class should come to, said without a table of what is resolved already. `flat` puts a class
on top of the flat forms of its known parents, and `firstCycle` goes down the parents depth first to the one
that closes a cycle, if there is any.

* `IsWay.induction`: what holds of a class if it holds of its parents holds of every class that leads to no
  cycle.
* `flat_eq`: the recursion of `flat` at such a class.
* `IsWay.firstCycle_eq_none`: no cycle is found from such a class.
-/

namespace DocModel

namespace Classes

variable {own : Classes} {fresh way : List String} {name : String}

/-! ## Classes that lead to no cycle -/

theorem IsWay.mem_fresh_of_parent (h : IsWay own fresh way name) (hnot : ¬ LeadsToCycle own name)
    {parent : String} (hp : Parent own name parent) : parent ∈ fresh := by
  refine (h.mem_fresh parent).mpr ⟨hp.contains_right, fun hmem => ?_⟩
  exact hnot (h.leadsToCycle hp hmem)

/-- Going from a class that leads to no cycle to its parents comes to an end, since the parents are all
fresh and fewer classes are fresh there. -/
theorem IsWay.induction {P : List String → List String → String → Prop}
    (step : ∀ fresh way name, IsWay own fresh way name → ¬ LeadsToCycle own name →
      (∀ parent, Parent own name parent →
        parent ∈ fresh ∧ P (fresh.erase parent) (way ++ [parent]) parent) → P fresh way name)
    (h : IsWay own fresh way name) (hnot : ¬ LeadsToCycle own name) : P fresh way name := by
  induction hn : fresh.length using Nat.strongRecOn generalizing fresh way name with
  | _ n ih =>
    refine step fresh way name h hnot fun parent hp => ?_
    have hfresh : parent ∈ fresh := h.mem_fresh_of_parent hnot hp
    have hless : (fresh.erase parent).length < n := by
      rw [← hn, List.length_erase_of_mem hfresh]
      exact Nat.sub_lt (List.length_pos_of_mem hfresh) Nat.one_pos
    exact ⟨hfresh, ih _ hless (h.step hp hfresh) (fun hc => hnot (.of_parent hp hc)) rfl⟩

/-- The same for what is said of the class alone. -/
theorem induction_of_not_leadsToCycle {P : String → Prop} (hown : (Dict.keys own).Nodup)
    (step : ∀ name, Dict.contains own name = true → ¬ LeadsToCycle own name →
      (∀ parent, Parent own name parent → P parent) → P name)
    (hname : Dict.contains own name = true) (hnot : ¬ LeadsToCycle own name) : P name := by
  refine (IsWay.start hown hname).induction (P := fun _ _ name => P name) ?_ hnot
  intro _ _ name h hnot ih
  exact step name h.known hnot fun parent hp => (ih parent hp).2

/-! ## Flat forms -/

/-- A class on top of the flat forms of its parents, the first parent lowest, `required` lists without
repeats. -/
def flatOn (name : String) (parents : List ClassDefinition) (c : ClassDefinition) : ClassDefinition :=
  let flat := (parents.foldl ClassDefinition.layered { name }).layered c
  { flat with schema := flat.schema.map Value.dedupRequired }

/-- The flat form of a class over so many generations of ancestors. -/
def flatTo (own : Classes) : Nat → String → Option ClassDefinition
  | 0, _ => none
  | n + 1, name => (Dict.get? own name).map fun c => flatOn name (c.parents.filterMap (flatTo own n)) c

/-- The flat form of a class; without a cycle there are no more generations than classes. -/
def flat (own : Classes) (name : String) : Option ClassDefinition := own.flatTo own.length name

theorem flatTo_of_not_contains (h : Dict.contains own name = false) (n : Nat) :
    own.flatTo n name = none := by
  cases n with
  | zero => rfl
  | succ n =>
    rw [flatTo, Dict.get?_eq_none_iff.mpr h]
    rfl

theorem flat_of_not_contains (h : Dict.contains own name = false) : own.flat name = none :=
  flatTo_of_not_contains h _

/-- More generations than there are fresh classes add nothing. -/
theorem IsWay.flatTo_eq (h : IsWay own fresh way name) (hnot : ¬ LeadsToCycle own name) :
    ∀ m n, fresh.length < m → fresh.length < n → own.flatTo m name = own.flatTo n name := by
  refine h.induction (P := fun fresh _ name => ∀ m n, fresh.length < m → fresh.length < n →
    own.flatTo m name = own.flatTo n name) ?_ hnot
  intro fresh way name h _ ih m n hm hn
  obtain ⟨m, rfl⟩ := Nat.exists_eq_add_of_lt hm
  obtain ⟨n, rfl⟩ := Nat.exists_eq_add_of_lt hn
  rw [flatTo, flatTo]
  cases hc : Dict.get? own name with
  | none => rfl
  | some c =>
    have hparents : ∀ p ∈ c.parents, own.flatTo (fresh.length + m) p = own.flatTo (fresh.length + n) p := by
      intro p hp
      cases hk : Dict.contains own p with
      | false => rw [flatTo_of_not_contains hk, flatTo_of_not_contains hk]
      | true =>
        obtain ⟨hfresh, heq⟩ := ih p ⟨c, hc, hp, hk⟩
        have hlength := List.length_erase_of_mem hfresh
        have hpos := List.length_pos_of_mem hfresh
        exact heq _ _ (by omega) (by omega)
    rw [Option.map_some, Option.map_some, List.filterMap_congr hparents]

/-- The flat form of a class that leads to no cycle is the class on top of the flat forms of its parents. -/
theorem flat_eq (hown : (Dict.keys own).Nodup) (hnot : ¬ LeadsToCycle own name) :
    own.flat name =
      (Dict.get? own name).map fun c => flatOn name (c.parents.filterMap own.flat) c := by
  show own.flatTo own.length name = own.flatTo (own.length + 1) name
  cases hname : Dict.contains own name with
  | false => rw [flatTo_of_not_contains hname, flatTo_of_not_contains hname]
  | true =>
    have hmem := Dict.contains_eq_true_iff.mp hname
    have hlength := List.length_erase_of_mem hmem
    have hpos := List.length_pos_of_mem hmem
    have hkeys : (Dict.keys own).length = own.length := List.length_map _
    exact (IsWay.start hown hname).flatTo_eq hnot _ _ (by omega) (by omega)

/-! ## The first cycle -/

/-- The cycle that a walk without a memory finds first below the end of a way. -/
def firstCycle (own : Classes) (fresh way : List String) (name : String) : Option (List String) :=
  (own.parentsOf name).findSome? fun parent =>
    if !Dict.contains own parent then none
    else if _h : parent ∈ fresh then firstCycle own (fresh.erase parent) (way ++ [parent]) parent
    else some (Resolver.cycleAt way parent)
  termination_by fresh.length
  decreasing_by
    rw [List.length_erase_of_mem _h]
    exact Nat.sub_lt (List.length_pos_of_mem _h) Nat.one_pos

/-- The first cycle through one parent of the end of a way. -/
def cycleThrough (own : Classes) (fresh way : List String) (parent : String) : Option (List String) :=
  if !Dict.contains own parent then none
  else if parent ∈ fresh then own.firstCycle (fresh.erase parent) (way ++ [parent]) parent
  else some (Resolver.cycleAt way parent)

theorem firstCycle_eq (own : Classes) (fresh way : List String) (name : String) :
    own.firstCycle fresh way name = (own.parentsOf name).findSome? (own.cycleThrough fresh way) := by
  rw [firstCycle]
  simp only [dite_eq_ite]
  rfl

theorem IsWay.firstCycle_eq_none (h : IsWay own fresh way name) (hnot : ¬ LeadsToCycle own name) :
    own.firstCycle fresh way name = none := by
  refine h.induction (P := fun fresh way name => own.firstCycle fresh way name = none) ?_ hnot
  intro fresh way name h _ ih
  rw [firstCycle_eq, List.findSome?_eq_none_iff]
  intro p hp
  rw [cycleThrough]
  cases hk : Dict.contains own p with
  | false => rfl
  | true =>
    have hparent : Parent own name p := by
      rw [parentsOf] at hp
      cases hc : Dict.get? own name with
      | none => simp [hc] at hp
      | some c => exact ⟨c, hc, by simpa [hc] using hp, hk⟩
    obtain ⟨hfresh, hnone⟩ := ih p hparent
    rw [if_pos hfresh]
    exact hnone

/-- Nor is one found through a parent that leads to none. -/
theorem IsWay.cycleThrough_eq_none (h : IsWay own fresh way name) {parent : String}
    (hp : Parent own name parent) (hnot : ¬ LeadsToCycle own parent) :
    own.cycleThrough fresh way parent = none := by
  have hfresh : parent ∈ fresh := by
    refine (h.mem_fresh parent).mpr ⟨hp.contains_right, fun hmem => hnot ?_⟩
    exact ⟨parent, .refl, .tail' (h.reflTransGen hmem) hp⟩
  rw [cycleThrough, hp.contains_right, if_pos hfresh]
  exact (h.step hp hfresh).firstCycle_eq_none hnot

end Classes

end DocModel
