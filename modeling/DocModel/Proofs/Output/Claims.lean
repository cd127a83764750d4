import Mathlib.Data.List.Induction
import DocModel.Output.Plan
import DocModel.Proofs.Path.Steps

/-!
# Claims on paths

A table of claims is built by adding one claim after the other. Its paths are in order and stand once each,
and on every path are the claims that were made on it, in the order in which they were made.

* `on_ofClaims`: what a table of claims has on a path.
* `exists_collision_iff`: the paths of its collisions are those with more than one claim.
* `claims_of_mem_collisions`, `pairwise_collisions`: the claims of collisions, and their order.
-/

namespace DocModel

/-- The claims among these that are on a path, in their order. -/
def claimsOn (made : List (Path × Claim)) (p : Path) : List Claim :=
  (made.filter fun m => m.1.same p).map Prod.snd

theorem claimsOn_append (made others : List (Path × Claim)) (p : Path) :
    claimsOn (made ++ others) p = claimsOn made p ++ claimsOn others p := by
  rw [claimsOn, List.filter_append, List.map_append]
  rfl

theorem claimsOn_singleton (m : Path × Claim) (p : Path) :
    claimsOn [m] p = if m.1.same p then [m.2] else [] := by
  rw [claimsOn, List.filter_cons]
  split <;> rfl

theorem claimsOn_congr {p q : Path} (h : p.same q = true) (made : List (Path × Claim)) :
    claimsOn made p = claimsOn made q := by
  have hpred : (fun m : Path × Claim => m.1.same p) = fun m => m.1.same q := funext fun m => by
    rw [Path.same_comm, Path.same_congr h, Path.same_comm]
  rw [claimsOn, hpred]
  rfl

theorem length_claimsOn (made : List (Path × Claim)) (p : Path) :
    (claimsOn made p).length = made.countP fun m => m.1.same p := by
  rw [claimsOn, List.length_map, List.countP_eq_length_filter]

namespace ClaimTable

/-- Paths increase strictly, so none of them stands twice. -/
def IsOrdered (table : ClaimTable) : Prop := table.Pairwise fun a b => a.1.before b.1 = true

/-- The table of claims made one after the other. -/
def ofClaims (made : List (Path × Claim)) : ClaimTable := made.foldl (fun table m => table.add m.1 m.2) []

variable {table : ClaimTable}

theorem on_cons (p : Path) (claims : List Claim) (rest : ClaimTable) (q : Path) :
    on ((p, claims) :: rest) q = if p.same q then claims else on rest q := rfl

theorem on_eq_nil {q : Path} (h : ∀ e ∈ table, e.1.same q = false) : table.on q = [] := by
  induction table with
  | nil => rfl
  | cons e rest ih =>
    obtain ⟨he, hrest⟩ := List.forall_mem_cons.mp h
    rw [on_cons, he]
    exact ih hrest

theorem on_of_mem (h : table.IsOrdered) {e : Path × List Claim} (he : e ∈ table) : table.on e.1 = e.2 := by
  induction table with
  | nil => cases he
  | cons first rest ih =>
    obtain ⟨hfirst, hrest⟩ := List.pairwise_cons.mp h
    rw [on_cons]
    rcases List.mem_cons.mp he with rfl | he
    · rw [Path.same_self, if_pos rfl]
    · rw [Path.not_same_of_before (hfirst e he)]
      exact ih hrest he

theorem exists_mem_of_on_ne_nil {q : Path} (h : table.on q ≠ []) :
    ∃ e ∈ table, e.1.same q = true ∧ e.2 = table.on q := by
  induction table with
  | nil => exact absurd rfl h
  | cons first rest ih =>
    rw [on_cons] at h ⊢
    by_cases hfirst : first.1.same q = true
    · exact ⟨first, List.mem_cons_self, hfirst, by rw [if_pos hfirst]⟩
    · rw [if_neg hfirst] at h ⊢
      obtain ⟨e, he, hsame, heq⟩ := ih h
      exact ⟨e, List.mem_cons_of_mem _ he, hsame, heq⟩

theorem fst_of_mem_add {p : Path} {c : Claim} {e : Path × List Claim} (h : e ∈ table.add p c) :
    e.1 = p ∨ ∃ e' ∈ table, e'.1 = e.1 := by
  induction table with
  | nil =>
    rw [List.mem_singleton.mp h]
    exact .inl rfl
  | cons first rest ih =>
    rw [add] at h
    split at h
    · rcases List.mem_cons.mp h with rfl | h
      · exact .inr ⟨first, List.mem_cons_self, rfl⟩
      · exact .inr ⟨e, List.mem_cons_of_mem _ h, rfl⟩
    split at h
    · rcases List.mem_cons.mp h with rfl | h
      · exact .inl rfl
      · exact .inr ⟨e, h, rfl⟩
    · rcases List.mem_cons.mp h with rfl | h
      · exact .inr ⟨_, List.mem_cons_self, rfl⟩
      · rcases ih h with heq | ⟨e', he', heq⟩
        · exact .inl heq
        · exact .inr ⟨e', List.mem_cons_of_mem _ he', heq⟩

theorem IsOrdered.add (h : table.IsOrdered) (p : Path) (c : Claim) : (table.add p c).IsOrdered := by
  induction table with
  | nil => exact List.pairwise_singleton _ _
  | cons first rest ih =>
    obtain ⟨hfirst, hrest⟩ := List.pairwise_cons.mp h
    rw [ClaimTable.add]
    split
    · exact List.pairwise_cons.mpr ⟨hfirst, hrest⟩
    next hsame =>
    split
    · next hbefore =>
      refine List.pairwise_cons.mpr ⟨fun e he => ?_, h⟩
      rcases List.mem_cons.mp he with rfl | he
      · exact hbefore
      · exact Path.before_trans hbefore (hfirst e he)
    · next hnot =>
      have hp : first.1.before p = true :=
        ((Path.before_trichotomy first.1 p).resolve_right fun h => h.elim hsame hnot)
      refine List.pairwise_cons.mpr ⟨fun e he => ?_, ih hrest⟩
      rcases fst_of_mem_add he with heq | ⟨e', he', heq⟩
      · exact heq ▸ hp
      · exact heq ▸ hfirst e' he'

/-- Adding a claim adds it to those on its path and to no others. -/
theorem on_add (h : table.IsOrdered) (p : Path) (c : Claim) (q : Path) :
    (table.add p c).on q = table.on q ++ if p.same q then [c] else [] := by
  induction table with
  | nil =>
    rw [add, on_cons]
    rfl
  | cons first rest ih =>
    obtain ⟨hfirst, hrest⟩ := List.pairwise_cons.mp h
    rw [add]
    split
    · next hsame =>
      rw [on_cons, on_cons, ← Path.same_congr hsame q]
      cases first.1.same q with
      | true => rfl
      | false => exact (List.append_nil _).symm
    next hsame =>
    split
    · next hbefore =>
      rw [on_cons]
      cases hq : p.same q with
      | false => exact (List.append_nil _).symm
      | true =>
        have hnone : on (first :: rest) q = [] := on_eq_nil fun e he => by
          rw [Path.same_comm, ← Path.same_congr hq, Path.not_same_of_before]
          rcases List.mem_cons.mp he with rfl | he
          · exact hbefore
          · exact Path.before_trans hbefore (hfirst e he)
        rw [hnone]
        rfl
    · rw [on_cons, on_cons, ih hrest]
      cases hq : first.1.same q with
      | false => rfl
      | true =>
        have hp : p.same q = false := by
          rw [← Bool.not_eq_true]
          intro hp
          exact hsame (Path.same_iff.mpr ((Path.same_iff.mp hq).trans (Path.same_iff.mp hp).symm))
        rw [hp]
        exact (List.append_nil _).symm

/-! ## Tables of claims -/

theorem ofClaims_concat (made : List (Path × Claim)) (m : Path × Claim) :
    ofClaims (made ++ [m]) = (ofClaims made).add m.1 m.2 := by
  rw [ofClaims, List.foldl_append]
  rfl

theorem isOrdered_ofClaims (made : List (Path × Claim)) : (ofClaims made).IsOrdered := by
  induction made using List.reverseRecOn with
  | nil => exact List.Pairwise.nil
  | append_singleton made m ih =>
    rw [ofClaims_concat]
    exact ih.add m.1 m.2

/-- On a path are the claims that were made on it, in their order. -/
theorem on_ofClaims (made : List (Path × Claim)) (p : Path) : (ofClaims made).on p = claimsOn made p := by
  induction made using List.reverseRecOn with
  | nil => rfl
  | append_singleton made m ih =>
    rw [ofClaims_concat, on_add (isOrdered_ofClaims made), ih, claimsOn_append, claimsOn_singleton]

/-- Every path of the table is written as in one of the claims. -/
theorem exists_of_mem_ofClaims {made : List (Path × Claim)} {e : Path × List Claim}
    (h : e ∈ ofClaims made) : ∃ m ∈ made, m.1 = e.1 := by
  induction made using List.reverseRecOn generalizing e with
  | nil => cases h
  | append_singleton made m ih =>
    rw [ofClaims_concat] at h
    rcases fst_of_mem_add h with heq | ⟨e', he', heq⟩
    · exact ⟨m, by simp, heq.symm⟩
    · obtain ⟨m', hm', heq'⟩ := ih he'
      exact ⟨m', List.mem_append_left _ hm', heq'.trans heq⟩

/-! ## Collisions -/

theorem mem_collisions_iff {c : Collision} :
    c ∈ table.collisions ↔ (c.path, c.claims) ∈ table ∧ 1 < c.claims.length := by
  rw [collisions, List.mem_map]
  constructor
  · rintro ⟨e, he, rfl⟩
    rw [List.mem_filter, decide_eq_true_eq] at he
    exact he
  · rintro ⟨hmem, hlen⟩
    exact ⟨(c.path, c.claims), List.mem_filter.mpr ⟨hmem, by simpa using hlen⟩, rfl⟩

/-- The claims of a collision are those made on its path, in their order. -/
theorem claims_of_mem_collisions {made : List (Path × Claim)} {c : Collision}
    (h : c ∈ (ofClaims made).collisions) : c.claims = claimsOn made c.path := by
  rw [← on_ofClaims]
  exact (on_of_mem (isOrdered_ofClaims made) (mem_collisions_iff.mp h).1).symm

/-- The paths of the collisions are those with more than one claim. -/
theorem exists_collision_iff {made : List (Path × Claim)} {p : Path} :
    (∃ c ∈ (ofClaims made).collisions, c.path.same p = true) ↔ 1 < (claimsOn made p).length := by
  constructor
  · rintro ⟨c, hc, hsame⟩
    rw [← claimsOn_congr hsame, ← claims_of_mem_collisions hc]
    exact (mem_collisions_iff.mp hc).2
  · intro hlen
    have hne : (ofClaims made).on p ≠ [] := by
      rw [on_ofClaims]
      exact List.ne_nil_of_length_pos (Nat.lt_of_succ_lt hlen)
    obtain ⟨e, he, hsame, hclaims⟩ := exists_mem_of_on_ne_nil hne
    refine ⟨⟨e.1, e.2⟩, mem_collisions_iff.mpr ⟨he, ?_⟩, hsame⟩
    rw [hclaims, on_ofClaims]
    exact hlen

/-- Collisions come in the order of their paths, and no path has two of them. -/
theorem pairwise_collisions (made : List (Path × Claim)) :
    (ofClaims made).collisions.Pairwise fun a b => a.path.before b.path = true := by
  rw [collisions, List.pairwise_map]
  exact (isOrdered_ofClaims made).filter _

end ClaimTable

end DocModel
