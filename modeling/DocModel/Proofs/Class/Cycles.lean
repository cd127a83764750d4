import DocModel.Proofs.Class.Parents
import DocModel.Proofs.Class.Walk

/-!
# Cycle detection is exact

Resolving a class fails if and only if a cycle of known parents can be reached from it. The invariant of a
walk is that no resolved class leads to a cycle (`IsSound`) and that the way to the class it is at is one
along parents, with the classes that are not on it still fresh (`Classes.IsWay`).

* `walk_spec`: a walk resolves its class or finds a cycle that it leads to.
* `resolve_spec`, `resolveNames_spec`: so does resolving, in any state that earlier calls leave.
* `cycle_detection_exact`: what fails, with which path, and that parents without a definition never matter.
-/

namespace DocModel

namespace Resolver

open Classes

variable {own : Classes} {r : Resolver}

/-- The resolver is for these definitions, and no resolved class leads to a cycle. -/
structure IsSound (own : Classes) (r : Resolver) : Prop where
  own_eq : r.own = own
  not_leadsToCycle : ∀ name, Dict.contains r.resolved name = true → ¬ LeadsToCycle own name

/-- Every class that is resolved before is resolved after. -/
def Extends (r r' : Resolver) : Prop :=
  ∀ name, Dict.contains r.resolved name = true → Dict.contains r'.resolved name = true

theorem IsSound.parent_iff (h : IsSound own r) {a b : String} :
    Parent own a b ↔ b ∈ r.parentsOf a ∧ Dict.contains own b = true := by
  obtain ⟨rfl, -⟩ := h
  rw [Parent, parentsOf]
  cases Dict.get? r.own a <;> simp

theorem IsSound.warn (h : IsSound own r) (issue : Issue) : IsSound own (r.warn issue) :=
  ⟨h.own_eq, h.not_leadsToCycle⟩

theorem contains_store (r : Resolver) {name : String} (h : Dict.contains r.own name = true) (other : String) :
    Dict.contains (r.store name).resolved other = (other == name || Dict.contains r.resolved other) := by
  rw [Dict.contains] at h
  obtain ⟨c, hc⟩ := Option.isSome_iff_exists.mp h
  rw [store, hc]
  exact Dict.contains_insert r.resolved name other _

/-- Storing a class keeps a resolver sound if all its known parents are resolved. -/
theorem IsSound.store (h : IsSound own r) {name : String} (hname : Dict.contains own name = true)
    (hparents : ∀ p, Parent own name p → Dict.contains r.resolved p = true) :
    IsSound own (r.store name) := by
  have hcontains := contains_store r (h.own_eq ▸ hname : Dict.contains r.own name = true)
  refine ⟨(keeps_own own).store r name h.own_eq, fun other hother hcycle => ?_⟩
  rw [hcontains, Bool.or_eq_true, beq_iff_eq] at hother
  rcases hother with rfl | hother
  · obtain ⟨p, hp, hpcycle⟩ := hcycle.exists_parent
    exact h.not_leadsToCycle p (hparents p hp) hpcycle
  · exact h.not_leadsToCycle other hother hcycle

/-! ## Walks -/

/-- What a walk from `name` comes to: the resolver that it leaves is sound, knows more and is `done`, or the
walk reports a cycle that the name leads to. -/
structure Walked (own : Classes) (r : Resolver) (name : String) (done : Resolver → Prop)
    (result : Resolver × Option (List String)) : Prop where
  sound : IsSound own result.1
  more : Extends r result.1
  done : result.2 = none → done result.1
  cycle : ∀ path, result.2 = some path → IsCycle own path ∧ LeadsToCycle own name

theorem Walked.of_done {name : String} {done : Resolver → Prop} {r' : Resolver} (hs : IsSound own r')
    (hm : Extends r r') (hd : done r') : Walked own r name done (r', none) :=
  ⟨hs, hm, fun _ => hd, fun _ h => by cases h⟩

theorem Walked.of_cycle {name : String} {done : Resolver → Prop} {r' : Resolver} {path : List String}
    (hs : IsSound own r') (hm : Extends r r') (hp : IsCycle own path) (hc : LeadsToCycle own name) :
    Walked own r name done (r', some path) :=
  ⟨hs, hm, fun h => (by cases h), fun _ h => by cases h; exact ⟨hp, hc⟩⟩

/-- A walk after another one, for what is done once the later one is. -/
theorem Walked.after {name : String} {done done' : Resolver → Prop} {r₁ r₂ : Resolver}
    {result : Resolver × Option (List String)} (h : Walked own r₂ name done result) (hm : Extends r₁ r₂)
    (hd : ∀ r', Extends r₂ r' → done r' → done' r') : Walked own r₁ name done' result :=
  ⟨h.sound, fun x hx => h.more x (hm x hx), fun hn => hd _ h.more (h.done hn), h.cycle⟩

theorem walk_walkParents_spec (own : Classes) :
    (∀ fresh way name r, IsSound own r → IsWay own fresh way name →
      Walked own r name (fun r' => Dict.contains r'.resolved name = true) (walk fresh way name r)) ∧
    ∀ fresh way name parents r, IsSound own r → IsWay own fresh way name →
      (∀ p ∈ parents, Dict.contains own p = true → Parent own name p) →
      Walked own r name
        (fun r' => ∀ p ∈ parents, Dict.contains own p = true → Dict.contains r'.resolved p = true)
        (walkParents fresh way name parents r) := by
  refine walk.mutual_induct
    (fun fresh way name r => IsSound own r → IsWay own fresh way name →
      Walked own r name (fun r' => Dict.contains r'.resolved name = true) (walk fresh way name r))
    (fun fresh way name parents r => IsSound own r → IsWay own fresh way name →
      (∀ p ∈ parents, Dict.contains own p = true → Parent own name p) →
      Walked own r name
        (fun r' => ∀ p ∈ parents, Dict.contains own p = true → Dict.contains r'.resolved p = true)
        (walkParents fresh way name parents r)) ?_ ?_ ?_ ?_ ?_ ?_ ?_ ?_
  · -- All parents are resolved, so the class can be stored.
    intro fresh way name r r' hw ih hs hway
    have hall := ih hs hway fun p hp hk => hs.parent_iff.mpr ⟨hp, hk⟩
    rw [hw] at hall
    have hparents : ∀ p, Parent own name p → Dict.contains r'.resolved p = true := fun p hp =>
      hall.done rfl p (hs.parent_iff.mp hp).1 hp.contains_right
    have hstore := contains_store r' (hall.sound.own_eq ▸ hway.known : Dict.contains r'.own name = true)
    rw [walk, hw]
    refine .of_done (hall.sound.store hway.known hparents) (fun x hx => ?_) ?_
    · rw [hstore, hall.more x hx, Bool.or_true]
    · rw [hstore, beq_self_eq_true, Bool.true_or]
  · intro fresh way name r r' path hw ih hs hway
    have hall := ih hs hway fun p hp hk => hs.parent_iff.mpr ⟨hp, hk⟩
    rw [hw] at hall
    rw [walk, hw]
    obtain ⟨hpath, hcycle⟩ := hall.cycle path rfl
    exact .of_cycle hall.sound hall.more hpath hcycle
  · intro fresh way name r hs hway hp
    rw [walkParents]
    exact .of_done hs (fun _ hx => hx) (by simp)
  · -- An unknown parent is remarked on and passed over.
    intro fresh way name r parent rest hown ih hs hway hp
    rw [walkParents, if_pos hown]
    have hrest := ih (hs.warn _) hway fun p hm => hp p (List.mem_cons_of_mem _ hm)
    refine hrest.after (fun _ hx => hx) fun r' _ hdone p hm hk => ?_
    rcases List.mem_cons.mp hm with rfl | hm
    · rw [hs.own_eq, hk] at hown
      cases hown
    · exact hdone p hm hk
  · intro fresh way name r parent rest hown hres ih hs hway hp
    rw [walkParents, if_neg hown, if_pos hres]
    have hrest := ih hs hway fun p hm => hp p (List.mem_cons_of_mem _ hm)
    refine hrest.after (fun _ hx => hx) fun r' hmore hdone p hm hk => ?_
    rcases List.mem_cons.mp hm with rfl | hm
    · exact hmore p hres
    · exact hdone p hm hk
  · intro fresh way name r parent rest hown hres hfresh r' hw ihw ih hs hway hp
    have hknown := ((hway.mem_fresh parent).mp hfresh).1
    have hwalk := ihw hs (hway.step (hp parent List.mem_cons_self hknown) hfresh)
    rw [hw] at hwalk
    rw [walkParents, if_neg hown, if_neg hres, dif_pos hfresh, hw]
    have hrest := ih hwalk.sound hway fun p hm => hp p (List.mem_cons_of_mem _ hm)
    refine hrest.after hwalk.more fun r'' hmore hdone p hm hk => ?_
    rcases List.mem_cons.mp hm with rfl | hm
    · exact hmore p (hwalk.done rfl)
    · exact hdone p hm hk
  · intro fresh way name r parent rest hown hres hfresh r' path hw ihw hs hway hp
    have hknown := ((hway.mem_fresh parent).mp hfresh).1
    have hparent := hp parent List.mem_cons_self hknown
    have hwalk := ihw hs (hway.step hparent hfresh)
    rw [hw] at hwalk
    rw [walkParents, if_neg hown, if_neg hres, dif_pos hfresh, hw]
    obtain ⟨hpath, hcycle⟩ := hwalk.cycle path rfl
    exact .of_cycle hwalk.sound hwalk.more hpath (hcycle.of_parent hparent)
  · -- A known parent that is not fresh is on the way, and closes a cycle.
    intro fresh way name r parent rest hown hres hfresh hs hway hp
    have hknown : Dict.contains own parent = true := by
      rw [hs.own_eq] at hown
      simpa using hown
    have hparent := hp parent List.mem_cons_self hknown
    have hmem : parent ∈ way := by
      by_contra hnot
      exact hfresh ((hway.mem_fresh parent).mpr ⟨hknown, hnot⟩)
    rw [walkParents, if_neg hown, if_neg hres, dif_neg hfresh]
    exact .of_cycle hs (fun _ hx => hx) (hway.isCycle_cycleAt hparent hmem) (hway.leadsToCycle hparent hmem)

/-! ## Resolving -/

theorem resolve_eq_ok_none {name : String} (h : Dict.contains r.own name = false) :
    r.resolve name = (r, .ok none) := by
  rw [resolve, h]
  rfl

/-- Resolving a known class gives it, or reports a cycle that it leads to. -/
theorem resolve_spec (hown : (Dict.keys own).Nodup) (hs : IsSound own r) {name : String}
    (hname : Dict.contains own name = true) :
    IsSound own (r.resolve name).1 ∧
      ((∃ c, (r.resolve name).2 = .ok (some c) ∧ ¬ LeadsToCycle own name) ∨
        ∃ path, (r.resolve name).2 = .error (.classCycle path) ∧ IsCycle own path ∧
          LeadsToCycle own name) := by
  obtain ⟨rfl, -⟩ := id hs
  have hwalk := (walk_walkParents_spec r.own).1 _ _ _ _ hs (IsWay.start hown hname)
  rw [resolve, hname]
  by_cases hres : Dict.contains r.resolved name = true
  · obtain ⟨c, hc⟩ := Option.isSome_iff_exists.mp hres
    refine ⟨by rw [hres]; exact hs, .inl ⟨c, ?_, hs.not_leadsToCycle name hres⟩⟩
    rw [hres, ← hc]
    rfl
  · rw [Bool.not_eq_true] at hres
    rw [hres]
    cases hw : walk ((Dict.keys r.own).erase name) [name] name r with
    | mk r' result =>
      rw [hw] at hwalk
      cases result with
      | none =>
        have hdone := hwalk.done rfl
        obtain ⟨c, hc⟩ := Option.isSome_iff_exists.mp hdone
        exact ⟨hwalk.sound, .inl ⟨c, congrArg _ hc, hwalk.sound.not_leadsToCycle name hdone⟩⟩
      | some path =>
        obtain ⟨hpath, hcycle⟩ := hwalk.cycle path rfl
        exact ⟨hwalk.sound, .inr ⟨path, rfl, hpath, hcycle⟩⟩

theorem resolveNames_spec (hown : (Dict.keys own).Nodup) {names : List String}
    (hnames : ∀ name ∈ names, Dict.contains own name = true) (hs : IsSound own r) :
    (∃ r', r.resolveNames names = .ok r' ∧ ∀ name ∈ names, ¬ LeadsToCycle own name) ∨
      ∃ path, r.resolveNames names = .error (.classCycle path) ∧ IsCycle own path ∧
        ∃ name ∈ names, LeadsToCycle own name := by
  induction names generalizing r with
  | nil => exact .inl ⟨r, rfl, by simp⟩
  | cons name rest ih =>
    obtain ⟨hname, hrest⟩ := List.forall_mem_cons.mp hnames
    obtain ⟨hsound, hresult⟩ := resolve_spec hown hs hname
    rw [resolveNames]
    cases hr : r.resolve name with
    | mk r' result =>
      rw [hr] at hsound hresult
      rcases hresult with ⟨c, rfl, hnot⟩ | ⟨path, rfl, hpath, hcycle⟩
      · rcases ih hrest hsound with ⟨r'', hok, hall⟩ | ⟨path, herr, hpath, other, hm, hcycle⟩
        · exact .inl ⟨r'', hok, List.forall_mem_cons.mpr ⟨hnot, hall⟩⟩
        · exact .inr ⟨path, herr, hpath, other, List.mem_cons_of_mem _ hm, hcycle⟩
      · exact .inr ⟨path, rfl, hpath, name, List.mem_cons_self, hcycle⟩

/-- Resolving all classes succeeds, or reports a cycle; it does the latter if there is one. -/
theorem resolveAll_spec (hown : (Dict.keys own).Nodup) (hs : IsSound own r) :
    (∃ all, r.resolveAll = .ok all ∧ ¬ ∃ name, Relation.TransGen (Parent own) name name) ∨
      ∃ path, r.resolveAll = .error (.classCycle path) ∧ IsCycle own path ∧
        ∃ name, Relation.TransGen (Parent own) name name := by
  have hkeys : ∀ name, name ∈ Dict.keys own ↔ Dict.contains own name = true := fun name =>
    Dict.contains_eq_true_iff.symm
  obtain ⟨rfl, -⟩ := id hs
  rw [resolveAll, ← exists_leadsToCycle_iff]
  rcases resolveNames_spec hown (fun name hm => (hkeys name).mp hm) hs with
    ⟨r', hok, hall⟩ | ⟨path, herr, hpath, name, hm, hcycle⟩
  · rw [hok]
    refine .inl ⟨_, rfl, ?_⟩
    rintro ⟨name, hname, hcycle⟩
    exact hall name ((hkeys name).mpr hname) hcycle
  · rw [herr]
    exact .inr ⟨path, rfl, hpath, name, (hkeys name).mp hm, hcycle⟩

/-! ## States that earlier calls leave -/

/-- The resolver for these definitions after it was asked for some names, with or without success. -/
def after (own : Classes) (asked : List String) : Resolver :=
  asked.foldl (fun r name => (r.resolve name).1) { own }

theorem isSound_after (hown : (Dict.keys own).Nodup) (asked : List String) :
    IsSound own (after own asked) := by
  have hstart : IsSound own { own } := ⟨rfl, by simp [Dict.contains]⟩
  rw [after]
  generalize ({ own } : Resolver) = r at hstart
  induction asked generalizing r with
  | nil => exact hstart
  | cons name rest ih =>
    refine ih _ ?_
    show IsSound own (r.resolve name).1
    by_cases hname : Dict.contains own name = true
    · exact (resolve_spec hown hstart hname).1
    · rw [resolve_eq_ok_none (by rw [hstart.own_eq]; simpa using hname)]
      exact hstart

theorem exists_resolve_eq_error_iff (hown : (Dict.keys own).Nodup) (asked : List String) (name : String) :
    (∃ e, ((after own asked).resolve name).2 = .error e) ↔
      Dict.contains own name = true ∧ LeadsToCycle own name := by
  have hs := isSound_after hown asked
  by_cases hname : Dict.contains own name = true
  · rcases (resolve_spec hown hs hname).2 with ⟨c, hok, hnot⟩ | ⟨path, herr, -, hcycle⟩
    · simp [hok, hnot]
    · simp [herr, hname, hcycle]
  · rw [resolve_eq_ok_none (by rw [hs.own_eq]; simpa using hname)]
    simp [hname]

theorem exists_resolveAll_eq_error_iff (hown : (Dict.keys own).Nodup) (asked : List String) :
    (∃ e, (after own asked).resolveAll = .error e) ↔
      ∃ name, Relation.TransGen (Parent own) name name := by
  rcases resolveAll_spec hown (isSound_after hown asked) with ⟨all, hok, hnot⟩ | ⟨path, herr, -, hcycle⟩
  · simp only [hok, hnot, reduceCtorEq, exists_false]
  · simp only [herr, hcycle, iff_true]
    exact ⟨_, rfl⟩

/-- Cycle detection is exact: in whatever state earlier calls leave a resolver, resolving a known class fails
if and only if a cycle of known parents can be reached from it, resolving all fails if and only if there is
such a cycle, and either reports a cycle. Parents that no class defines make nothing fail. -/
theorem cycle_detection_exact (hown : (Dict.keys own).Nodup) (asked : List String) :
    (∀ name, Dict.contains own name = true →
      ((∃ e, ((after own asked).resolve name).2 = .error e) ↔ LeadsToCycle own name) ∧
        (¬ LeadsToCycle own name → ∃ c, ((after own asked).resolve name).2 = .ok (some c))) ∧
    ((∃ e, (after own asked).resolveAll = .error e) ↔
      ∃ name, Relation.TransGen (Parent own) name name) ∧
    (∀ e, (∃ name, ((after own asked).resolve name).2 = .error e) ∨
        (after own asked).resolveAll = .error e →
      ∃ path, e = .classCycle path ∧ IsCycle own path) ∧
    (∀ name, (∃ e, ((after own.withKnownParents asked).resolve name).2 = .error e) ↔
      ∃ e, ((after own asked).resolve name).2 = .error e) ∧
    ((∃ e, (after own.withKnownParents asked).resolveAll = .error e) ↔
      ∃ e, (after own asked).resolveAll = .error e) := by
  have hs := isSound_after hown asked
  have hown' : (Dict.keys own.withKnownParents).Nodup := by rw [keys_withKnownParents]; exact hown
  refine ⟨fun name hname => ?_, exists_resolveAll_eq_error_iff hown asked, ?_, fun name => ?_, ?_⟩
  · refine ⟨(exists_resolve_eq_error_iff hown asked name).trans (and_iff_right hname), fun hnot => ?_⟩
    rcases (resolve_spec hown hs hname).2 with ⟨c, hok, -⟩ | ⟨path, -, -, hcycle⟩
    · exact ⟨c, hok⟩
    · exact absurd hcycle hnot
  · rintro e (⟨name, he⟩ | he)
    · have hname := ((exists_resolve_eq_error_iff hown asked name).mp ⟨e, he⟩).1
      rcases (resolve_spec hown hs hname).2 with ⟨c, hok, -⟩ | ⟨path, herr, hpath, -⟩
      · cases hok.symm.trans he
      · cases herr.symm.trans he
        exact ⟨path, rfl, hpath⟩
    · rcases resolveAll_spec hown hs with ⟨all, hok, -⟩ | ⟨path, herr, hpath, -⟩
      · cases hok.symm.trans he
      · cases herr.symm.trans he
        exact ⟨path, rfl, hpath⟩
  · rw [exists_resolve_eq_error_iff hown', exists_resolve_eq_error_iff hown, contains_withKnownParents,
      LeadsToCycle, LeadsToCycle, parent_withKnownParents]
  · rw [exists_resolveAll_eq_error_iff hown', exists_resolveAll_eq_error_iff hown,
      parent_withKnownParents]

/-- Two classes that are each other's parents, one of which names a parent that there is not. -/
theorem cycle_detection_exact_two :
    (Dict.keys ([("a", { name := "a", parents := ["ghost", "b"] }),
        ("b", { name := "b", parents := ["a"] })] : Classes)).Nodup ∧
      ∃ e, ((after [("a", { name := "a", parents := ["ghost", "b"] }),
        ("b", { name := "b", parents := ["a"] })] []).resolve "a").2 = .error e := by
  have hab : Parent [("a", { name := "a", parents := ["ghost", "b"] }),
      ("b", { name := "b", parents := ["a"] })] "a" "b" := ⟨_, rfl, by decide, rfl⟩
  have hba : Parent [("a", { name := "a", parents := ["ghost", "b"] }),
      ("b", { name := "b", parents := ["a"] })] "b" "a" := ⟨_, rfl, by decide, rfl⟩
  refine ⟨by decide, ?_⟩
  exact ((cycle_detection_exact (by decide) []).1 "a" rfl).1.mpr ⟨"a", .refl, .head hab (.single hba)⟩

end Resolver

end DocModel
