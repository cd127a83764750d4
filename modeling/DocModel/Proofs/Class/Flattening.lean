import DocModel.Proofs.Class.Cycles
import DocModel.Proofs.Class.Flat
import Mathlib.Data.List.Nodup

/-!
# Resolved classes are in their flat form

A resolver keeps what it has resolved and remarked on, also when it fails. None of this shows in a later
answer: every resolved class is in its flat form (`IsExact`), and a walk finds the same cycle as one that
starts with nothing resolved, because what it passes over leads to none.

* `walk_walkParents_settles`: what a walk answers, and what it adds to the resolved classes and the remarks.
* `resolve_answers`, `resolveNames_answers`: the same of resolving, in any state that earlier calls leave.
* `resolve_after_eq_answer`: the answer to a name does not depend on what was asked before.
* `resolved_flat`: all of it, with the classes and the remarks of resolving everything.
-/

namespace DocModel

namespace Resolver

open Classes

variable {own : Classes} {r : Resolver}

/-- The resolver is sound, and each class that it has resolved is in its flat form. -/
structure IsExact (own : Classes) (r : Resolver) : Prop extends IsSound own r where
  ordered : Dict.Ordered r.resolved
  flat : ∀ name c, Dict.get? r.resolved name = some c → own.flat name = some c

theorem IsExact.empty (own : Classes) : IsExact own { own } where
  own_eq := rfl
  not_leadsToCycle := by simp [Dict.contains]
  ordered := Dict.Ordered.nil
  flat := by simp

theorem IsExact.warn (h : IsExact own r) (issue : Issue) : IsExact own (r.warn issue) :=
  ⟨h.toIsSound.warn issue, h.ordered, h.flat⟩

/-- What is found of a parent is its flat form, once all known parents of a class are resolved. -/
theorem IsExact.get?_resolved (h : IsExact own r) {parent : String}
    (hparent : Dict.contains own parent = true → Dict.contains r.resolved parent = true) :
    Dict.get? r.resolved parent = own.flat parent := by
  cases hget : Dict.get? r.resolved parent with
  | some c => exact (h.flat parent c hget).symm
  | none =>
    have hunknown : Dict.contains own parent = false := by
      rw [← Bool.not_eq_true]
      intro hk
      have hres := hparent hk
      rw [Dict.get?_eq_none_iff.mp hget] at hres
      cases hres
    exact (flat_of_not_contains hunknown).symm

/-- Storing a class puts it in its flat form if all its known parents are resolved. -/
theorem IsExact.store (hown : (Dict.keys own).Nodup) (h : IsExact own r) {name : String}
    (hname : Dict.contains own name = true)
    (hparents : ∀ p, Parent own name p → Dict.contains r.resolved p = true) :
    IsExact own (r.store name) := by
  have hsound := h.toIsSound.store hname hparents
  obtain ⟨c, hc⟩ := Option.isSome_iff_exists.mp hname
  have hflat : own.flat name = some (r.flatten name c) := by
    have hnot : ¬ LeadsToCycle own name := by
      refine hsound.not_leadsToCycle name ?_
      rw [contains_store r (h.own_eq ▸ hname), beq_self_eq_true, Bool.true_or]
    have hget : ∀ p ∈ c.parents, Dict.get? r.resolved p = own.flat p := fun p hp =>
      h.get?_resolved fun hk => hparents p ⟨c, hc, hp, hk⟩
    rw [flat_eq hown hnot, hc, Option.map_some, flatten, flatOn, List.filterMap_congr hget]
  have hstore : (r.store name).resolved = Dict.insert r.resolved name (r.flatten name c) := by
    rw [Resolver.store, h.own_eq, hc]
  refine ⟨hsound, by rw [hstore]; exact h.ordered.insert _ _, fun other d hd => ?_⟩
  rw [hstore, Dict.get?_insert] at hd
  split at hd
  · next heq => rw [heq, hflat, hd]
  · exact h.flat other d hd

/-! ## Remarks -/

/-- What is remarked on parents of a class: those that no class defines. -/
def remarks (own : Classes) (name : String) (parents : List String) : List Issue :=
  (parents.filter fun p => !Dict.contains own p).map (unknownParent name)

/-- What is remarked on a class. -/
def remarksOn (own : Classes) (name : String) : List Issue := remarks own name (own.parentsOf name)

/-- The warnings are the remarks on the resolved classes and some others. -/
def Accounts (own : Classes) (others : List Issue) (r : Resolver) : Prop :=
  r.warnings.Perm (others ++ (Dict.keys r.resolved).flatMap (remarksOn own))

theorem remarks_cons_of_unknown {parent : String} (h : Dict.contains own parent = false) (name : String)
    (rest : List String) :
    remarks own name (parent :: rest) = [unknownParent name parent] ++ remarks own name rest := by
  simp [remarks, h]

theorem remarks_cons_of_known {parent : String} (h : Dict.contains own parent = true) (name : String)
    (rest : List String) : remarks own name (parent :: rest) = [] ++ remarks own name rest := by
  simp [remarks, h]

theorem Accounts.warn {others : List Issue} (h : Accounts own others r) (issue : Issue) :
    Accounts own (others ++ [issue]) (r.warn issue) := by
  rw [Accounts, List.append_assoc]
  refine (h.append_right [issue]).trans ?_
  rw [List.append_assoc]
  exact List.perm_append_comm.append_left others

/-- Storing a class makes the remarks on it those on a resolved class. -/
theorem Accounts.store {others : List Issue} {name : String} (hown : r.own = own)
    (hname : Dict.contains own name = true) (hnew : Dict.contains r.resolved name = false)
    (h : Accounts own (others ++ remarksOn own name) r) : Accounts own others (r.store name) := by
  obtain ⟨c, hc⟩ := Option.isSome_iff_exists.mp hname
  have hkeys := Dict.keys_insert_perm hnew (r.flatten name c)
  rw [Accounts, Resolver.store, hown, hc]
  refine (show r.warnings.Perm _ from h).trans ?_
  rw [List.append_assoc]
  exact (hkeys.symm.flatMap_right (remarksOn own)).append_left others

/-! ## Walks -/

/-- What a walk comes to. The resolver that it leaves is exact and knows more, but only from `scope`; the walk
finds `cycle`; and if it finds none, the warnings have grown by the remarks on what was resolved and by those
that are `due` besides. -/
structure Settles (own : Classes) (r : Resolver) (scope : List String) (cycle : Option (List String))
    (due : List Issue) (result : Resolver × Option (List String)) : Prop where
  exact : IsExact own result.1
  within : ∀ x, Dict.contains result.1.resolved x = true →
    Dict.contains r.resolved x = true ∨ x ∈ scope
  cycle : result.2 = cycle
  accounts : result.2 = none → ∀ others, Accounts own others r → Accounts own (others ++ due) result.1

variable {scope : List String} {cycle : Option (List String)} {due : List Issue}
  {result : Resolver × Option (List String)}

/-- A walk that ends at a cycle owes no account. -/
theorem Settles.of_cycle {r' : Resolver} {path : List String} (hexact : IsExact own r')
    (hwithin : ∀ x, Dict.contains r'.resolved x = true → Dict.contains r.resolved x = true ∨ x ∈ scope) :
    Settles own r scope (some path) due (r', some path) :=
  ⟨hexact, hwithin, rfl, fun h => by cases h⟩

/-- A walk after something that was done to the resolver before. -/
theorem Settles.after {r₁ r₂ : Resolver} {before : List Issue} (h : Settles own r₂ scope cycle due result)
    (hwithin : ∀ x, Dict.contains r₂.resolved x = true → Dict.contains r₁.resolved x = true ∨ x ∈ scope)
    (haccounts : ∀ others, Accounts own others r₁ → Accounts own (others ++ before) r₂) :
    Settles own r₁ scope cycle (before ++ due) result where
  exact := h.exact
  within := fun x hx => (h.within x hx).elim (hwithin x) .inr
  cycle := h.cycle
  accounts := by
    intro hnone others hothers
    rw [← List.append_assoc]
    exact h.accounts hnone _ (haccounts others hothers)

theorem walk_walkParents_settles (hown : (Dict.keys own).Nodup) :
    (∀ fresh way name r, IsExact own r → IsWay own fresh way name →
      Dict.contains r.resolved name = false →
      Settles own r (name :: fresh) (own.firstCycle fresh way name) [] (walk fresh way name r)) ∧
    ∀ fresh way name parents r, IsExact own r → IsWay own fresh way name →
      (∀ p ∈ parents, Dict.contains own p = true → Parent own name p) →
      Settles own r fresh (parents.findSome? (own.cycleThrough fresh way)) (remarks own name parents)
        (walkParents fresh way name parents r) := by
  refine walk.mutual_induct
    (fun fresh way name r => IsExact own r → IsWay own fresh way name →
      Dict.contains r.resolved name = false →
      Settles own r (name :: fresh) (own.firstCycle fresh way name) [] (walk fresh way name r))
    (fun fresh way name parents r => IsExact own r → IsWay own fresh way name →
      (∀ p ∈ parents, Dict.contains own p = true → Parent own name p) →
      Settles own r fresh (parents.findSome? (own.cycleThrough fresh way)) (remarks own name parents)
        (walkParents fresh way name parents r)) ?_ ?_ ?_ ?_ ?_ ?_ ?_ ?_
  · -- The class itself is on the way, so none of the walks to its parents has resolved it.
    intro fresh way name r r' hw ih hr hway hnew
    have hparents : r.parentsOf name = own.parentsOf name := by rw [← hr.own_eq]; rfl
    have hknown : ∀ p ∈ r.parentsOf name, Dict.contains own p = true → Parent own name p := fun p hp hk =>
      hr.parent_iff.mpr ⟨hp, hk⟩
    have hall := ih hr hway hknown
    have hdone := (walk_walkParents_spec own).2 _ _ _ _ _ hr.toIsSound hway hknown
    rw [hw] at hall hdone
    have hstill : Dict.contains r'.resolved name = false := by
      rw [← Bool.not_eq_true]
      intro hres
      rcases hall.within name hres with hres | hfresh
      · rw [hnew] at hres
        cases hres
      · exact ((hway.mem_fresh name).mp hfresh).2 (List.mem_of_getLast? hway.last)
    rw [walk, hw]
    refine ⟨?_, fun x hx => ?_, ?_, fun _ others hothers => ?_⟩
    · exact hall.exact.store hown hway.known fun p hp =>
        hdone.done rfl p (hr.parent_iff.mp hp).1 hp.contains_right
    · rw [contains_store r' (hall.exact.own_eq ▸ hway.known), Bool.or_eq_true, beq_iff_eq] at hx
      rcases hx with rfl | hx
      · exact .inr List.mem_cons_self
      · exact (hall.within x hx).imp_right (List.mem_cons_of_mem name)
    · rw [firstCycle_eq, ← hparents]
      exact hall.cycle
    · have hremarks := hall.accounts rfl others hothers
      rw [hparents] at hremarks
      rw [List.append_nil]
      exact hremarks.store hall.exact.own_eq hway.known hstill
  · intro fresh way name r r' path hw ih hr hway hnew
    have hparents : r.parentsOf name = own.parentsOf name := by rw [← hr.own_eq]; rfl
    have hall := ih hr hway fun p hp hk => hr.parent_iff.mpr ⟨hp, hk⟩
    rw [hw] at hall
    rw [walk, hw, firstCycle_eq, ← hparents, ← hall.cycle]
    exact .of_cycle hall.exact fun x hx => (hall.within x hx).imp_right (List.mem_cons_of_mem name)
  · intro fresh way name r hr hway hp
    rw [walkParents]
    refine ⟨hr, fun _ hx => .inl hx, rfl, fun _ others hothers => ?_⟩
    rw [remarks, List.filter_nil, List.map_nil, List.append_nil]
    exact hothers
  · -- An unknown parent closes no cycle and is remarked on.
    intro fresh way name r parent rest hnone ih hr hway hp
    have hunknown : Dict.contains own parent = false := by
      rw [← hr.own_eq]
      simpa using hnone
    have hthrough : own.cycleThrough fresh way parent = none := by
      rw [cycleThrough, hunknown]
      rfl
    have hrest := ih (hr.warn _) hway fun p hm => hp p (List.mem_cons_of_mem _ hm)
    rw [walkParents, if_pos hnone, List.findSome?_cons, hthrough, remarks_cons_of_unknown hunknown]
    exact hrest.after (fun _ hx => .inl hx) fun _ hothers => hothers.warn _
  · -- A resolved parent leads to no cycle, so a walk through it would find none.
    intro fresh way name r parent rest hnone hres ih hr hway hp
    have hknown : Dict.contains own parent = true := by
      rw [← hr.own_eq]
      simpa using hnone
    have hthrough : own.cycleThrough fresh way parent = none :=
      hway.cycleThrough_eq_none (hp parent List.mem_cons_self hknown) (hr.not_leadsToCycle parent hres)
    have hrest := ih hr hway fun p hm => hp p (List.mem_cons_of_mem _ hm)
    rw [walkParents, if_neg hnone, if_pos hres, List.findSome?_cons, hthrough, remarks_cons_of_known hknown]
    exact hrest.after (fun _ hx => .inl hx) fun _ hothers => by rwa [List.append_nil]
  · -- The walk to the parent found no cycle; the rest goes on from what it has resolved.
    intro fresh way name r parent rest hnone hres hfresh r' hw ihw ih hr hway hp
    have hknown := ((hway.mem_fresh parent).mp hfresh).1
    have hwalk := ihw hr (hway.step (hp parent List.mem_cons_self hknown) hfresh) (by simpa using hres)
    rw [hw] at hwalk
    have hthrough : own.cycleThrough fresh way parent = none := by
      rw [cycleThrough, hknown, if_pos hfresh]
      exact hwalk.cycle.symm
    have hwithin : ∀ x, Dict.contains r'.resolved x = true →
        Dict.contains r.resolved x = true ∨ x ∈ fresh := fun x hx =>
      (hwalk.within x hx).imp_right (List.perm_cons_erase hfresh).mem_iff.mpr
    have hrest := ih hwalk.exact hway fun p hm => hp p (List.mem_cons_of_mem _ hm)
    rw [walkParents, if_neg hnone, if_neg hres, dif_pos hfresh, hw, List.findSome?_cons, hthrough,
      remarks_cons_of_known hknown]
    exact hrest.after hwithin (hwalk.accounts rfl)
  · intro fresh way name r parent rest hnone hres hfresh r' path hw ihw hr hway hp
    have hknown := ((hway.mem_fresh parent).mp hfresh).1
    have hwalk := ihw hr (hway.step (hp parent List.mem_cons_self hknown) hfresh) (by simpa using hres)
    rw [hw] at hwalk
    have hthrough : own.cycleThrough fresh way parent = some path := by
      rw [cycleThrough, hknown, if_pos hfresh]
      exact hwalk.cycle.symm
    rw [walkParents, if_neg hnone, if_neg hres, dif_pos hfresh, hw, List.findSome?_cons, hthrough]
    exact .of_cycle hwalk.exact fun x hx =>
      (hwalk.within x hx).imp_right (List.perm_cons_erase hfresh).mem_iff.mpr
  · intro fresh way name r parent rest hnone hres hfresh hr hway hp
    have hknown : Dict.contains own parent = true := by
      rw [← hr.own_eq]
      simpa using hnone
    have hthrough : own.cycleThrough fresh way parent = some (cycleAt way parent) := by
      rw [cycleThrough, hknown, if_neg hfresh]
      rfl
    rw [walkParents, if_neg hnone, if_neg hres, dif_neg hfresh, List.findSome?_cons, hthrough]
    exact .of_cycle hr fun _ hx => .inl hx

theorem walk_settles (hown : (Dict.keys own).Nodup) (hr : IsExact own r) {fresh way : List String}
    {name : String} (hway : IsWay own fresh way name) (hnew : Dict.contains r.resolved name = false) :
    Settles own r (name :: fresh) (own.firstCycle fresh way name) [] (walk fresh way name r) :=
  (walk_walkParents_settles hown).1 fresh way name r hr hway hnew

/-! ## Resolving -/

/-- What a class resolves to: its flat form, unless it leads to a cycle. -/
def answer (own : Classes) (name : String) : Except BuildError (Option ClassDefinition) :=
  match own.firstCycle ((Dict.keys own).erase name) [name] name with
  | none => .ok (own.flat name)
  | some path => .error (.classCycle path)

theorem answer_of_not_leadsToCycle (hown : (Dict.keys own).Nodup) {name : String}
    (hnot : ¬ LeadsToCycle own name) : answer own name = .ok (own.flat name) := by
  cases hname : Dict.contains own name with
  | true => rw [answer, (IsWay.start hown hname).firstCycle_eq_none hnot]
  | false =>
    have hparents : own.parentsOf name = [] := by
      rw [Classes.parentsOf, Dict.get?_eq_none_iff.mpr hname]
    rw [answer, firstCycle_eq, hparents]
    rfl

/-- What a call of `resolve` comes to: its answer, a resolver that is exact, and if the call succeeds, one
that knows the class and accounts for its warnings. -/
structure Answers (own : Classes) (r : Resolver) (name : String)
    (result : Resolver × Except BuildError (Option ClassDefinition)) : Prop where
  exact : IsExact own result.1
  answer : result.2 = answer own name
  knows : ∀ c, result.2 = .ok c → Dict.contains own name = true →
    Dict.contains result.1.resolved name = true
  accounts : ∀ c, result.2 = .ok c → Accounts own [] r → Accounts own [] result.1

theorem resolve_answers (hown : (Dict.keys own).Nodup) (hr : IsExact own r) (name : String) :
    Answers own r name (r.resolve name) := by
  obtain rfl := hr.own_eq
  cases hname : Dict.contains r.own name with
  | false =>
    have hnot : ¬ LeadsToCycle r.own name := by
      intro hc
      obtain ⟨b, hb, -⟩ := hc.exists_parent
      rw [hb.contains_left] at hname
      cases hname
    rw [resolve_eq_ok_none hname]
    refine ⟨hr, ?_, fun _ _ hk => absurd hk (by simp [hname]), fun _ _ h => h⟩
    rw [answer_of_not_leadsToCycle hown hnot, flat_of_not_contains hname]
  | true =>
    rw [resolve, hname]
    cases hres : Dict.contains r.resolved name with
    | true =>
      refine ⟨hr, ?_, fun _ _ _ => hres, fun _ _ h => h⟩
      rw [answer_of_not_leadsToCycle hown (hr.not_leadsToCycle name hres),
        ← hr.get?_resolved fun _ => hres]
      rfl
    | false =>
      have hway := IsWay.start hown hname
      have hsettles := walk_settles hown hr hway hres
      have hdone := (walk_walkParents_spec r.own).1 _ _ _ _ hr.toIsSound hway
      cases hw : walk ((Dict.keys r.own).erase name) [name] name r with
      | mk r' cycle =>
        rw [hw] at hsettles hdone
        have hcycle := hsettles.cycle
        cases cycle with
        | none =>
          have hknows := hdone.done rfl
          refine ⟨hsettles.exact, ?_, fun _ _ _ => hknows, fun _ _ => hsettles.accounts rfl []⟩
          rw [answer, ← hcycle, ← hsettles.exact.get?_resolved fun _ => hknows]
          rfl
        | some path =>
          refine ⟨hsettles.exact, ?_, fun _ h => (by cases h), fun _ h => (by cases h)⟩
          rw [answer, ← hcycle]
          rfl

/-- What is resolved stays resolved. -/
theorem keeps_contains (name : String) : Keeps fun r => Dict.contains r.resolved name = true where
  warn := fun _ _ h => h
  store := by
    intro r other h
    rw [Resolver.store]
    split
    · show Dict.contains (Dict.insert _ _ _) name = true
      rw [Dict.contains_insert, h, Bool.or_true]
    · exact h

/-- Resolving names one after the other, if it succeeds, leaves an exact resolver that knows them all. -/
theorem resolveNames_answers (hown : (Dict.keys own).Nodup) (hr : IsExact own r) {names : List String}
    {r' : Resolver} (h : r.resolveNames names = .ok r') :
    IsExact own r' ∧
      (∀ name ∈ names, Dict.contains own name = true → Dict.contains r'.resolved name = true) ∧
      (Accounts own [] r → Accounts own [] r') := by
  induction names generalizing r with
  | nil => cases h; exact ⟨hr, by simp, id⟩
  | cons name rest ih =>
    have hanswers := resolve_answers hown hr name
    rw [resolveNames] at h
    cases hname : r.resolve name with
    | mk r₁ result =>
      rw [hname] at h hanswers
      cases result with
      | error e => cases h
      | ok c =>
        obtain ⟨hexact, hrest, haccounts⟩ := ih hanswers.exact h
        refine ⟨hexact, List.forall_mem_cons.mpr ⟨fun hk => ?_, hrest⟩, fun ha => ?_⟩
        · exact resolveNames_keeps (keeps_contains name) (hanswers.knows c rfl hk) h
        · exact haccounts (hanswers.accounts c rfl ha)

/-! ## What was asked before -/

theorem after_concat (own : Classes) (asked : List String) (name : String) :
    after own (asked ++ [name]) = ((after own asked).resolve name).1 := by
  rw [after, List.foldl_append]
  rfl

theorem isExact_after (hown : (Dict.keys own).Nodup) (asked : List String) :
    IsExact own (after own asked) := by
  induction asked using List.reverseRecOn with
  | nil => exact .empty own
  | append_singleton asked name ih =>
    rw [after_concat]
    exact (resolve_answers hown ih name).exact

/-- The answer to a name is the same in whatever state earlier calls leave the resolver. -/
theorem resolve_after_eq_answer (hown : (Dict.keys own).Nodup) (asked : List String) (name : String) :
    ((after own asked).resolve name).2 = answer own name :=
  (resolve_answers hown (isExact_after hown asked) name).answer

/-- Without a cycle no call fails, so all warnings are accounted for. -/
theorem accounts_after (hown : (Dict.keys own).Nodup) (hnot : ∀ name, ¬ LeadsToCycle own name)
    (asked : List String) : Accounts own [] (after own asked) := by
  induction asked using List.reverseRecOn with
  | nil => exact List.Perm.refl _
  | append_singleton asked name ih =>
    have hanswers := resolve_answers hown (isExact_after hown asked) name
    have hok := hanswers.answer.trans (answer_of_not_leadsToCycle hown (hnot name))
    rw [after_concat]
    exact hanswers.accounts _ hok ih

/-! ## All classes -/

theorem unknownParent_inj {a b a' b' : String} (h : unknownParent a b = unknownParent a' b') :
    a = a' ∧ b = b' := by
  have ha : a = a' := Option.some.inj (congrArg Issue.className h)
  subst ha
  have hmessage := congrArg Issue.message h
  rw [unknownParent, unknownParent, String.append_left_inj, String.append_right_inj] at hmessage
  exact ⟨rfl, hmessage⟩

theorem mem_remarksOn_iff {name : String} {issue : Issue} :
    issue ∈ remarksOn own name ↔
      ∃ parent, UnknownParent own name parent ∧ issue = unknownParent name parent := by
  rw [remarksOn, remarks, Classes.parentsOf]
  simp only [List.mem_map, List.mem_filter, Bool.not_eq_true', UnknownParent]
  cases Dict.get? own name with
  | none => simp
  | some c => simp [eq_comm (a := issue)]

theorem mem_flatMap_remarksOn_iff {issue : Issue} :
    issue ∈ (Dict.keys own).flatMap (remarksOn own) ↔
      ∃ name parent, UnknownParent own name parent ∧ issue = unknownParent name parent := by
  simp only [List.mem_flatMap, mem_remarksOn_iff]
  constructor
  · rintro ⟨name, -, parent, h, rfl⟩
    exact ⟨name, parent, h, rfl⟩
  · rintro ⟨name, parent, ⟨c, hc, h⟩, rfl⟩
    have hname : Dict.contains own name = true := by rw [Dict.contains, hc]; rfl
    exact ⟨name, Dict.contains_eq_true_iff.mp hname, parent, ⟨c, hc, h⟩, rfl⟩

/-- No remark comes twice if no class names a parent twice. -/
theorem nodup_flatMap_remarksOn (hown : (Dict.keys own).Nodup) (hparents : ∀ e ∈ own, e.2.parents.Nodup) :
    ((Dict.keys own).flatMap (remarksOn own)).Nodup := by
  refine List.nodup_flatMap.mpr ⟨fun name _ => ?_, hown.imp fun {a b} hne => ?_⟩
  · have hnodup : (own.parentsOf name).Nodup := by
      rw [Classes.parentsOf]
      cases hc : Dict.get? own name with
      | none => exact List.nodup_nil
      | some c => exact hparents _ (Dict.mem_of_get? hc)
    exact (hnodup.filter _).map fun _ _ h => (unknownParent_inj h).2
  · intro issue ha hb
    obtain ⟨p, -, rfl⟩ := mem_remarksOn_iff.mp ha
    obtain ⟨q, -, heq⟩ := mem_remarksOn_iff.mp hb
    exact hne (unknownParent_inj heq).1

/-- Resolving all classes, if it succeeds, gives their flat forms, and remarks once on each class and each of
its parents that there is not. -/
theorem resolveAll_flat (hown : (Dict.keys own).Nodup) (hr : IsExact own r) {all : ResolvedClasses}
    (h : r.resolveAll = .ok all) :
    Dict.keys all.classes = Dict.keys own ∧ (∀ name, Dict.get? all.classes name = own.flat name) ∧
      (Accounts own [] r → all.warnings.Perm ((Dict.keys own).flatMap (remarksOn own))) := by
  obtain ⟨r', hnames, hall⟩ := Except.bind_eq_ok_iff.mp h
  rw [hr.own_eq] at hnames
  obtain ⟨hexact, hresolved, haccounts⟩ := resolveNames_answers hown hr hnames
  cases hall
  rw [hexact.own_eq]
  have hknown : ∀ name, Dict.contains own name = true → Dict.contains r'.resolved name = true :=
    fun name hk => hresolved name (Dict.contains_eq_true_iff.mp hk) hk
  have hget : ∀ name, Dict.get? r'.resolved name = own.flat name := fun name =>
    hexact.get?_resolved (hknown name)
  refine ⟨Dict.keys_filterMap fun name hm => hknown name (Dict.contains_eq_true_iff.mpr hm), ?_, ?_⟩
  · intro name
    rw [Dict.get?_filterMap, hget]
    split
    · rfl
    · next hm =>
      rw [← Dict.contains_eq_true_iff, Bool.not_eq_true] at hm
      exact (flat_of_not_contains hm).symm
  · intro ha
    have hkeys : (Dict.keys r'.resolved).Perm (Dict.keys own) := by
      refine (List.perm_ext_iff_of_nodup hexact.ordered.nodup hown).mpr fun name => ?_
      rw [← Dict.contains_eq_true_iff, ← Dict.contains_eq_true_iff]
      refine ⟨fun hres => ?_, hknown name⟩
      rw [← Bool.not_eq_false]
      intro hnot
      rw [Dict.contains, hget, flat_of_not_contains hnot] at hres
      cases hres
    exact (haccounts ha).trans (hkeys.flatMap_right (remarksOn own))

/-- What a resolver has resolved and remarked on before never shows in its answers. For classes that lead to
no cycle `flat` puts each class on top of the flat forms of its known parents; whatever names were asked for
before, with or without success, a name is answered as by a resolver that was asked nothing, with its flat
form if that succeeds; and resolving everything, if it succeeds, gives the flat forms of all classes and, if
no class names a parent twice, one remark for each class and each of its parents that there is not. -/
theorem resolved_flat (hown : (Dict.keys own).Nodup) (asked : List String) :
    (∀ name, ¬ LeadsToCycle own name → own.flat name =
      (Dict.get? own name).map fun c => flatOn name (c.parents.filterMap own.flat) c) ∧
    (∀ name, ¬ LeadsToCycle own name → ((after own asked).resolve name).2 = .ok (own.flat name)) ∧
    (∀ name c, ((after own asked).resolve name).2 = .ok (some c) → own.flat name = some c) ∧
    (∀ name, ((after own asked).resolve name).2 = (resolve { own } name).2) ∧
    ∀ all, (after own asked).resolveAll = .ok all →
      Dict.keys all.classes = Dict.keys own ∧ (∀ name, Dict.get? all.classes name = own.flat name) ∧
      ((∀ e ∈ own, e.2.parents.Nodup) →
        (∀ name parent, UnknownParent own name parent →
          all.warnings.count (unknownParent name parent) = 1) ∧
        ∀ issue ∈ all.warnings, ∃ name parent, UnknownParent own name parent ∧
          issue = unknownParent name parent) := by
  have hanswer : ∀ name, ((after own asked).resolve name).2 = answer own name :=
    resolve_after_eq_answer hown asked
  refine ⟨fun name hnot => flat_eq hown hnot, fun name hnot => ?_, fun name c hok => ?_, fun name => ?_,
    fun all hall => ?_⟩
  · rw [hanswer, answer_of_not_leadsToCycle hown hnot]
  · rw [hanswer, answer] at hok
    split at hok
    · exact Except.ok.inj hok
    · cases hok
  · exact (hanswer name).trans (resolve_after_eq_answer hown [] name).symm
  · obtain ⟨hkeys, hget, hwarnings⟩ := resolveAll_flat hown (isExact_after hown asked) hall
    refine ⟨hkeys, hget, fun hparents => ?_⟩
    have hnot : ∀ name, ¬ LeadsToCycle own name := by
      rintro name ⟨b, -, hb⟩
      obtain ⟨e, he⟩ := (exists_resolveAll_eq_error_iff hown asked).mpr ⟨b, hb⟩
      cases he.symm.trans hall
    have hperm := hwarnings (accounts_after hown hnot asked)
    refine ⟨fun name parent hp => ?_, fun issue hi => ?_⟩
    · rw [hperm.count_eq]
      exact List.count_eq_one_of_mem (nodup_flatMap_remarksOn hown hparents)
        (mem_flatMap_remarksOn_iff.mpr ⟨name, parent, hp, rfl⟩)
    · exact mem_flatMap_remarksOn_iff.mp (hperm.mem_iff.mp hi)

/-- Two classes, of which the upper one names a parent that there is not, after both were asked for. -/
theorem resolved_flat_two :
    (Dict.keys ([("a", { name := "a", parents := ["ghost"] }),
        ("b", { name := "b", parents := ["a"] })] : Classes)).Nodup ∧
      ((after [("a", { name := "a", parents := ["ghost"] }), ("b", { name := "b", parents := ["a"] })]
          ["ghost", "b", "a"]).resolve "b").2 =
        .ok (flat [("a", { name := "a", parents := ["ghost"] }), ("b", { name := "b", parents := ["a"] })]
          "b") ∧
      ∃ all, (after [("a", { name := "a", parents := ["ghost"] }), ("b", { name := "b", parents := ["a"] })]
          ["ghost", "b", "a"]).resolveAll = .ok all ∧
        all.warnings.count (unknownParent "a" "ghost") = 1 := by
  have hown : (Dict.keys ([("a", { name := "a", parents := ["ghost"] }),
      ("b", { name := "b", parents := ["a"] })] : Classes)).Nodup := by decide
  have hnot : ¬ ∃ name, Relation.TransGen (Parent [("a", { name := "a", parents := ["ghost"] }),
      ("b", { name := "b", parents := ["a"] })]) name name := by
    refine not_exists_transGen_of_rank (fun name => if name = "b" then 1 else 0) ?_
    rintro a b ⟨c, hc, hb, hk⟩
    have hmem := Dict.mem_of_get? hc
    simp only [List.mem_cons, Prod.mk.injEq, List.not_mem_nil, or_false] at hmem
    rcases hmem with ⟨rfl, rfl⟩ | ⟨rfl, rfl⟩
    · rw [List.mem_singleton.mp hb] at hk
      cases hk
    · rw [List.mem_singleton.mp hb]
      decide
  obtain ⟨-, hanswer, -, -, hall⟩ := resolved_flat hown ["ghost", "b", "a"]
  refine ⟨hown, hanswer "b" fun ⟨a, _, ha⟩ => hnot ⟨a, ha⟩, ?_⟩
  rcases resolveAll_spec hown (isSound_after hown ["ghost", "b", "a"]) with ⟨all, hok, -⟩ | ⟨_, -, -, hcycle⟩
  · have hunknown : UnknownParent [("a", { name := "a", parents := ["ghost"] }),
        ("b", { name := "b", parents := ["a"] })] "a" "ghost" := ⟨_, rfl, by decide, rfl⟩
    exact ⟨all, hok, ((hall all hok).2.2 (by decide)).1 "a" "ghost" hunknown⟩
  · exact absurd hcycle hnot

end Resolver

end DocModel
