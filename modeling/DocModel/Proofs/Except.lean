import Mathlib.Data.List.Forall2

/-!
# Computations that succeed

What the success of a sequence of steps says about each of them, for steps that may fail.

* `bind_eq_ok_iff`, `foldlM_cons_eq_ok_iff`: a sequence succeeds if its steps do.
* `foldlM_of_ok`: where every step that succeeds does the same elsewhere, so does a fold that succeeds.
* `foldlM_keeps`: what every successful step keeps is kept by a successful fold.
* `FailsBy`: steps that fail by their element alone, whose fold fails with the first of these errors.
* `mapM_eq_ok_iff`, `mapM_eq_error_iff`: a map succeeds with the results of its function one by one, or fails
  with the first error.
* `exists_of_mapM`, `mem_iff_of_mapM`, `pairwise_of_mapM`: a successful map has a result for each element, and no
  others, in the order of the elements.
* `FailsOnly`: errors of one kind, put together along a computation.
* `Alike`: two computations with related results or related errors, step by step.
-/

namespace DocModel

namespace Except

variable {ε α β : Type}

theorem bind_eq_ok_iff {x : Except ε α} {f : α → Except ε β} {b : β} :
    x >>= f = .ok b ↔ ∃ a, x = .ok a ∧ f a = .ok b := by
  constructor
  · intro h
    cases x with
    | error e => cases h
    | ok a => exact ⟨a, rfl, h⟩
  · rintro ⟨a, rfl, hf⟩
    exact hf

theorem toOption_eq_some_iff {x : Except ε α} {a : α} : x.toOption = some a ↔ x = .ok a := by
  cases x <;> simp [Except.toOption]

/-- What is done to a result does not change an error. -/
theorem map_eq_error_iff {x : Except ε α} {f : α → β} {e : ε} :
    (do let a ← x; return f a : Except ε β) = .error e ↔ x = .error e := by
  cases x with
  | error e' => exact ⟨fun h => congrArg _ (Except.error.inj h), fun h => congrArg _ (Except.error.inj h)⟩
  | ok a => exact ⟨nofun, nofun⟩

theorem foldlM_cons_eq_ok_iff {f : β → α → Except ε β} {s t : β} {x : α} {xs : List α} :
    (x :: xs).foldlM f s = .ok t ↔ ∃ m, f s x = .ok m ∧ xs.foldlM f m = .ok t := by
  rw [List.foldlM_cons, bind_eq_ok_iff]

theorem foldlM_keeps {f : β → α → Except ε β} {P : β → Prop} {xs : List α}
    (hf : ∀ x ∈ xs, ∀ s t, P s → f s x = .ok t → P t) {s t : β} (hs : P s)
    (h : xs.foldlM f s = .ok t) : P t := by
  induction xs generalizing s with
  | nil => cases h; exact hs
  | cons x xs ih =>
    obtain ⟨m, hm, hrest⟩ := foldlM_cons_eq_ok_iff.mp h
    have hpm := hf x List.mem_cons_self s m hs hm
    exact ih (fun y hy => hf y (List.mem_cons_of_mem x hy)) hpm hrest

/-- Whether a step fails, and with which error, depends on its element alone. -/
structure FailsBy (f : β → α → Except ε β) (fault : α → Option ε) : Prop where
  exists_ok : ∀ s x, fault x = none → ∃ t, f s x = .ok t
  error : ∀ s x e, fault x = some e → f s x = .error e

theorem FailsBy.exists_foldlM_eq_ok {f : β → α → Except ε β} {fault : α → Option ε} (h : FailsBy f fault)
    {xs : List α} (hxs : ∀ x ∈ xs, fault x = none) (s : β) : ∃ t, xs.foldlM f s = .ok t := by
  induction xs generalizing s with
  | nil => exact ⟨s, rfl⟩
  | cons x xs ih =>
    obtain ⟨hx, hrest⟩ := List.forall_mem_cons.mp hxs
    obtain ⟨m, hm⟩ := h.exists_ok s x hx
    obtain ⟨t, ht⟩ := ih hrest m
    exact ⟨t, foldlM_cons_eq_ok_iff.mpr ⟨m, hm, ht⟩⟩

/-- The fold fails with the error of the first element that has one. -/
theorem FailsBy.foldlM_eq_error_iff {f : β → α → Except ε β} {fault : α → Option ε} (h : FailsBy f fault)
    {xs : List α} {s : β} {e : ε} : xs.foldlM f s = .error e ↔ xs.findSome? fault = some e := by
  induction xs generalizing s with
  | nil => exact ⟨nofun, nofun⟩
  | cons x xs ih =>
    rw [List.foldlM_cons, List.findSome?_cons]
    cases hx : fault x with
    | none =>
      obtain ⟨m, hm⟩ := h.exists_ok s x hx
      rw [hm]
      exact ih
    | some e' =>
      rw [h.error s x e' hx]
      exact ⟨fun he => congrArg some (Except.error.inj he), fun he => congrArg Except.error (Option.some.inj he)⟩

/-- It succeeds if no element has an error. -/
theorem FailsBy.exists_foldlM_eq_ok_iff {f : β → α → Except ε β} {fault : α → Option ε} (h : FailsBy f fault)
    {xs : List α} {s : β} : (∃ t, xs.foldlM f s = .ok t) ↔ ∀ x ∈ xs, fault x = none := by
  refine ⟨fun ⟨t, ht⟩ => List.findSome?_eq_none_iff.mp ?_, fun hxs => h.exists_foldlM_eq_ok hxs s⟩
  rw [Option.eq_none_iff_forall_ne_some]
  intro e he
  exact nomatch ht.symm.trans (h.foldlM_eq_error_iff.mpr he)

/-- A map succeeds with the results of its function, one by one. -/
theorem mapM_eq_ok_iff {f : α → Except ε β} {xs : List α} {ys : List β} :
    xs.mapM f = .ok ys ↔ List.Forall₂ (fun x y => f x = .ok y) xs ys := by
  induction xs generalizing ys with
  | nil =>
    rw [List.forall₂_nil_left_iff]
    exact ⟨fun h => (Except.ok.inj h).symm, fun h => h ▸ rfl⟩
  | cons x xs ih =>
    rw [List.mapM_cons, bind_eq_ok_iff, List.forall₂_cons_left_iff]
    constructor
    · rintro ⟨y, hy, h⟩
      obtain ⟨rest, hrest, heq⟩ := bind_eq_ok_iff.mp h
      exact ⟨y, rest, hy, ih.mp hrest, (Except.ok.inj heq).symm⟩
    · rintro ⟨y, rest, hy, hrest, rfl⟩
      exact ⟨y, hy, bind_eq_ok_iff.mpr ⟨rest, ih.mpr hrest, rfl⟩⟩

theorem exists_of_forall₂ {R : α → β → Prop} {xs : List α} {ys : List β} (h : List.Forall₂ R xs ys) {x : α}
    (hx : x ∈ xs) : ∃ y, R x y := by
  induction h with
  | nil => cases hx
  | @cons x' y' xs ys hxy _ ih =>
    rcases List.mem_cons.mp hx with rfl | hx
    · exact ⟨y', hxy⟩
    · exact ih hx

/-- A successful map has a result for each of its elements. -/
theorem exists_of_mapM {f : α → Except ε β} {xs : List α} {ys : List β} (h : xs.mapM f = .ok ys) {x : α}
    (hx : x ∈ xs) : ∃ y, f x = .ok y := exists_of_forall₂ (mapM_eq_ok_iff.mp h) hx

theorem mem_iff_of_mapM {f : α → Except ε β} {xs : List α} {ys : List β} (h : xs.mapM f = .ok ys) {y : β} :
    y ∈ ys ↔ ∃ x ∈ xs, f x = .ok y := by
  have hall := mapM_eq_ok_iff.mp h
  clear h
  induction hall with
  | nil => simp
  | @cons x z xs ys hx _ ih =>
    have hhead : y = z ↔ f x = .ok y := by rw [hx, Except.ok.injEq, eq_comm]
    rw [List.exists_mem_cons_iff]
    exact List.mem_cons.trans (or_congr hhead ih)

/-- The results of a successful map come in an order that the order of the elements gives them. -/
theorem pairwise_of_mapM {f : α → Except ε β} {S : α → α → Prop} {T : β → β → Prop} {xs : List α} {ys : List β}
    (h : xs.mapM f = .ok ys) (hxs : xs.Pairwise S)
    (hT : ∀ x ∈ xs, ∀ x' ∈ xs, S x x' → ∀ y y', f x = .ok y → f x' = .ok y' → T y y') : ys.Pairwise T := by
  induction xs generalizing ys with
  | nil => cases h; exact .nil
  | cons x xs ih =>
    obtain ⟨y, rest, hy, hrest, rfl⟩ := List.forall₂_cons_left_iff.mp (mapM_eq_ok_iff.mp h)
    have hrest := mapM_eq_ok_iff.mpr hrest
    obtain ⟨hx, hxs⟩ := List.pairwise_cons.mp hxs
    refine .cons (fun y' hy' => ?_) (ih hrest hxs fun x hx x' hx' => ?_)
    · obtain ⟨x', hx', hfx'⟩ := (mem_iff_of_mapM hrest).mp hy'
      exact hT x List.mem_cons_self x' (List.mem_cons_of_mem x hx') (hx x' hx') y y' hy hfx'
    · exact hT x (List.mem_cons_of_mem _ hx) x' (List.mem_cons_of_mem _ hx')

/-- A map fails with the error of the first element that has one. -/
theorem mapM_eq_error_iff {f : α → Except ε β} {xs : List α} {e : ε} :
    xs.mapM f = .error e ↔ ∃ before x after, xs = before ++ x :: after ∧
      (∀ y ∈ before, ∃ z, f y = .ok z) ∧ f x = .error e := by
  induction xs with
  | nil => exact ⟨nofun, fun ⟨_, _, _, h, _⟩ => by simp at h⟩
  | cons x xs ih =>
    rw [List.mapM_cons]
    cases hx : f x with
    | error e' =>
      constructor
      · intro h
        cases h
        exact ⟨[], x, xs, rfl, by simp, hx⟩
      · rintro ⟨before, y, after, hxs, hbefore, hy⟩
        cases before with
        | nil =>
          obtain ⟨rfl, rfl⟩ := List.cons.inj hxs
          exact congrArg _ (Except.error.inj (hx.symm.trans hy))
        | cons z before =>
          obtain ⟨rfl, -⟩ := List.cons.inj hxs
          obtain ⟨v, hv⟩ := hbefore x List.mem_cons_self
          exact nomatch hx.symm.trans hv
    | ok v =>
      have hrest : (do let rest ← xs.mapM f; return v :: rest : Except ε (List β)) = .error e ↔
          xs.mapM f = .error e := map_eq_error_iff
      refine hrest.trans (ih.trans ⟨?_, ?_⟩)
      · rintro ⟨before, y, after, rfl, hbefore, hy⟩
        exact ⟨x :: before, y, after, rfl, List.forall_mem_cons.mpr ⟨⟨v, hx⟩, hbefore⟩, hy⟩
      · rintro ⟨before, y, after, hxs, hbefore, hy⟩
        cases before with
        | nil =>
          obtain ⟨rfl, -⟩ := List.cons.inj hxs
          exact nomatch hx.symm.trans hy
        | cons z before =>
          obtain ⟨rfl, rfl⟩ := List.cons.inj hxs
          exact ⟨before, y, after, rfl, (List.forall_mem_cons.mp hbefore).2, hy⟩

/-! ## Kinds of errors -/

/-- If a computation fails, then with an error of this kind. -/
def FailsOnly (P : ε → Prop) (x : Except ε α) : Prop := ∀ e, x = .error e → P e

variable {P : ε → Prop}

theorem FailsOnly.ok (a : α) : FailsOnly P (.ok a : Except ε α) := nofun

theorem FailsOnly.error {e : ε} (h : P e) : FailsOnly P (.error e : Except ε α) := by
  rintro _ ⟨⟩
  exact h

theorem FailsOnly.bind {x : Except ε α} {f : α → Except ε β} (hx : FailsOnly P x)
    (hf : ∀ a, FailsOnly P (f a)) : FailsOnly P (x >>= f) := by
  intro e he
  cases x with
  | error e' => cases he; exact hx e rfl
  | ok a => exact hf a e he

theorem FailsOnly.foldlM {f : β → α → Except ε β} (hf : ∀ s x, FailsOnly P (f s x)) (xs : List α) (s : β) :
    FailsOnly P (xs.foldlM f s) := by
  induction xs generalizing s with
  | nil => exact .ok s
  | cons x xs ih => exact .bind (hf s x) ih

theorem FailsOnly.mapM {f : α → Except ε β} (hf : ∀ x, FailsOnly P (f x)) (xs : List α) :
    FailsOnly P (xs.mapM f) := by
  intro e he
  obtain ⟨_, x, _, _, _, hx⟩ := mapM_eq_error_iff.mp he
  exact hf x e hx

/-! ## Two computations side by side -/

/-- Both computations succeed, with results that stand in a relation, or both fail, with errors that do. -/
inductive Alike (E : ε → ε → Prop) (P : α → β → Prop) : Except ε α → Except ε β → Prop where
  | ok {a : α} {b : β} (h : P a b) : Alike E P (.ok a) (.ok b)
  | error {e e' : ε} (h : E e e') : Alike E P (.error e) (.error e')

variable {α' β' : Type} {E : ε → ε → Prop} {Q : α → β → Prop}

theorem Alike.of_ok {a : α} {b : β} (h : Alike E Q (.ok a) (.ok b)) : Q a b := by
  cases h
  assumption

theorem Alike.bind {x : Except ε α} {y : Except ε β} (h : Alike E Q x y) {R : α' → β' → Prop}
    {f : α → Except ε α'} {g : β → Except ε β'} (hf : ∀ a b, Q a b → Alike E R (f a) (g b)) :
    Alike E R (x >>= f) (y >>= g) := by
  cases h with
  | ok h => exact hf _ _ h
  | error h => exact .error h

/-- Related steps along related lists make related folds. -/
theorem Alike.foldlM {R : α' → β' → Prop} {f : α → α' → Except ε α} {g : β → β' → Except ε β}
    (hf : ∀ s t x y, Q s t → R x y → Alike E Q (f s x) (g t y)) {xs : List α'} {ys : List β'}
    (hxs : List.Forall₂ R xs ys) {s : α} {t : β} (hs : Q s t) : Alike E Q (xs.foldlM f s) (ys.foldlM g t) := by
  induction hxs generalizing s t with
  | nil => exact .ok hs
  | cons hxy _ ih =>
    rw [List.foldlM_cons, List.foldlM_cons]
    exact (hf s t _ _ hs hxy).bind fun _ _ h => ih h

/-- Computations that come to the same under a map are alike. -/
theorem Alike.of_map_eq (hE : ∀ e, E e e) {f : α → α'} {x y : Except ε α} (h : x.map f = y.map f) :
    Alike E (fun a b => f a = f b) x y := by
  cases x with
  | ok a =>
    cases y with
    | ok b => exact .ok (Except.ok.inj h)
    | error e => cases h
  | error e =>
    cases y with
    | ok b => cases h
    | error e' =>
      obtain rfl : e = e' := Except.error.inj h
      exact .error (hE e)

theorem Alike.imp {x : Except ε α} {y : Except ε β} (h : Alike E Q x y) {E' : ε → ε → Prop} {R : α → β → Prop}
    (hE : ∀ e e', E e e' → E' e e') (hQ : ∀ a b, Q a b → R a b) : Alike E' R x y := by
  cases h with
  | ok h => exact .ok (hQ _ _ h)
  | error h => exact .error (hE _ _ h)

end Except

end DocModel
