import Mathlib.Data.List.Forall2
import DocModel.Document
import DocModel.Error
import DocModel.Proofs.Except
import DocModel.Proofs.Path.Steps

/-!
# The order of documents

Documents are sorted by where they came from. Where no two came from the same place this order is strict, so
that sorting them gives one list in whatever order they arrive.

* `before_trans`, `before_trichotomy`: the order of provenances is strict, and total up to those of one place.
* `sorted_eq_of_perm`: documents sort to the same list in every arrival.
* `forall₂_sorted`: lists that are related one by one are so when they are sorted.
* `findSome?_sorted_eq_some_iff`, `getLast?_filterMap_sorted_eq_some_iff`: the first and the last document
  that something can be read off.
* `failsBy_refusal?`: a step that reads a document first fails by what it reads.
-/

namespace DocModel

namespace Provenance

/-- The same root, and paths with the same steps. -/
def Same (a b : Provenance) : Prop := a.rootIndex = b.rootIndex ∧ a.path.same b.path = true

instance (a b : Provenance) : Decidable (a.Same b) := inferInstanceAs (Decidable (_ ∧ _))

variable {a b c : Provenance}

theorem before_iff : a.before b = true ↔
    a.rootIndex < b.rootIndex ∨ a.rootIndex = b.rootIndex ∧ a.path.before b.path = true := by
  simp [before]

theorem before_irrefl (a : Provenance) : ¬ a.before a = true := by
  rw [before_iff]
  rintro (hlt | ⟨-, hlt⟩)
  · exact Nat.lt_irrefl _ hlt
  · exact PathStep.listBefore_irrefl _ hlt

theorem before_trans (hab : a.before b = true) (hbc : b.before c = true) : a.before c = true := by
  rw [before_iff] at *
  rcases hab with hab | ⟨hab, hpath⟩ <;> rcases hbc with hbc | ⟨hbc, hpath'⟩
  · exact .inl (Nat.lt_trans hab hbc)
  · exact .inl (hbc ▸ hab)
  · exact .inl (hab ▸ hbc)
  · exact .inr ⟨hab.trans hbc, PathStep.listBefore_trans hpath hpath'⟩

theorem before_trichotomy (a b : Provenance) : a.before b = true ∨ a.Same b ∨ b.before a = true := by
  rw [before_iff, before_iff, Same]
  rcases Nat.lt_trichotomy a.rootIndex b.rootIndex with hroot | hroot | hroot
  · exact .inl (.inl hroot)
  · rcases PathStep.listBefore_trichotomy a.path.steps b.path.steps with hpath | hpath | hpath
    · exact .inl (.inr ⟨hroot, hpath⟩)
    · exact .inr (.inl ⟨hroot, SourcePath.same_iff.mpr hpath⟩)
    · exact .inr (.inr (.inr ⟨hroot.symm, hpath⟩))
  · exact .inr (.inr (.inl hroot))

/-- A provenance can be replaced by one of the same place. -/
theorem before_congr_right (h : a.Same b) : c.before a = c.before b := by
  rw [before, before, h.1, SourcePath.before, SourcePath.before, SourcePath.same_iff.mp h.2]

end Provenance

namespace Document

/-- The order of documents is that of where they came from. -/
def Before (a b : Document) : Prop := a.provenance.before b.provenance = true

instance (a b : Document) : Decidable (a.Before b) := inferInstanceAs (Decidable (_ = true))

theorem Before.irrefl (a : Document) : ¬ a.Before a := Provenance.before_irrefl a.provenance

theorem Before.trans {a b c : Document} (hab : a.Before b) (hbc : b.Before c) : a.Before c :=
  Provenance.before_trans hab hbc

theorem not_before_trans (a b c : Document) (hab : (!b.provenance.before a.provenance) = true)
    (hbc : (!c.provenance.before b.provenance) = true) : (!c.provenance.before a.provenance) = true := by
  rw [Bool.not_eq_true', ← Bool.not_eq_true] at *
  intro hca
  rcases Provenance.before_trichotomy a.provenance b.provenance with hab' | hab' | hab'
  · exact hbc (Provenance.before_trans hca hab')
  · exact hbc (Provenance.before_congr_right hab' ▸ hca)
  · exact hab hab'

theorem not_before_total (a b : Document) :
    (!b.provenance.before a.provenance || !a.provenance.before b.provenance) = true := by
  cases hba : b.provenance.before a.provenance with
  | false => rfl
  | true =>
    have hab : ¬ a.Before b := fun hab => Before.irrefl a (hab.trans hba)
    simpa [Before] using hab

/-- No two documents came from the same place. -/
def Apart (docs : List Document) : Prop := docs.Pairwise fun a b => ¬ a.provenance.Same b.provenance

instance (docs : List Document) : Decidable (Apart docs) := inferInstanceAs (Decidable (docs.Pairwise _))

variable {docs docs' : List Document}

theorem mem_sorted {doc : Document} : doc ∈ sorted docs ↔ doc ∈ docs := List.mem_mergeSort

theorem Apart.perm (h : Apart docs) (hperm : docs'.Perm docs) : Apart docs' := by
  refine (hperm.pairwise_iff fun {a b} hab hba => hab ?_).mpr h
  rw [Provenance.Same, SourcePath.same_comm] at hba
  exact ⟨hba.1.symm, hba.2⟩

theorem Apart.pairwise_sorted (h : Apart docs) : (sorted docs).Pairwise Before := by
  have happart : Apart (sorted docs) := h.perm (List.mergeSort_perm _ _)
  have hle : (sorted docs).Pairwise fun a b => (!b.provenance.before a.provenance) = true :=
    List.pairwise_mergeSort not_before_trans not_before_total docs
  refine (hle.and happart).imp fun {a b} ⟨hnot, hne⟩ => ?_
  rw [Bool.not_eq_true', ← Bool.not_eq_true] at hnot
  rcases Provenance.before_trichotomy a.provenance b.provenance with hlt | hsame | hgt
  · exact hlt
  · exact absurd hsame hne
  · exact absurd hgt hnot

/-- Documents sort to the same list in whatever order they arrive. -/
theorem sorted_eq_of_perm (h : Apart docs) (hperm : docs'.Perm docs) : sorted docs' = sorted docs := by
  have hsorted : (sorted docs').Perm (sorted docs) :=
    (List.mergeSort_perm _ _).trans (hperm.trans (List.mergeSort_perm _ _).symm)
  exact List.Perm.eq_of_pairwise
    (fun a b _ _ hab hba => absurd (hab.trans hba) (Before.irrefl a))
    (h.perm hperm).pairwise_sorted h.pairwise_sorted hsorted

/-- Documents in one order stay one by one related when they are sorted. -/
theorem forall₂_sorted {R : Document → Document → Prop} (h : List.Forall₂ R docs docs')
    (hR : ∀ a a' b b', R a a' → R b b' → b.provenance.before a.provenance = b'.provenance.before a'.provenance) :
    List.Forall₂ R (sorted docs) (sorted docs') := by
  obtain ⟨hlength, hzip⟩ := List.forall₂_iff_zip.mp h
  have hfst : (docs.zip docs').map Prod.fst = docs := List.map_fst_zip (Nat.le_of_eq hlength)
  have hsnd : (docs.zip docs').map Prod.snd = docs' := List.map_snd_zip (Nat.le_of_eq hlength.symm)
  -- Both lists are the two sides of one sorted list of pairs.
  let pairs := (docs.zip docs').mergeSort fun a b => !b.1.provenance.before a.1.provenance
  have hpairs : ∀ pair ∈ pairs, R pair.1 pair.2 := fun pair hpair => hzip (List.mem_mergeSort.mp hpair)
  have hleft : pairs.map Prod.fst = sorted docs := by
    rw [sorted, ← hfst]
    exact List.map_mergeSort fun a _ b _ => rfl
  have hright : pairs.map Prod.snd = sorted docs' := by
    rw [sorted, ← hsnd]
    exact List.map_mergeSort fun a ha b hb => congrArg (!·) (hR _ _ _ _ (hzip ha) (hzip hb))
  rw [← hleft, ← hright, List.forall₂_map_left_iff, List.forall₂_map_right_iff, List.forall₂_same]
  exact hpairs

/-! ## First and last -/

/-- In a list in a strict order, what is found first is found at the least element that has something. -/
theorem findSome?_eq_some_iff_of_pairwise {α β : Type} {R : α → α → Prop} (hirrefl : ∀ a, ¬ R a a)
    (htrans : ∀ a b c, R a b → R b c → R a c) {xs : List α} (hxs : xs.Pairwise R) {f : α → Option β} {b : β} :
    xs.findSome? f = some b ↔
      ∃ x ∈ xs, f x = some b ∧ ∀ y ∈ xs, (f y).isSome = true → y = x ∨ R x y := by
  constructor
  · intro h
    obtain ⟨before, x, after, rfl, hx, hbefore⟩ := List.findSome?_eq_some_iff.mp h
    refine ⟨x, by simp, hx, fun y hy hsome => ?_⟩
    rcases List.mem_append.mp hy with hy | hy
    · rw [hbefore y hy] at hsome
      cases hsome
    · rcases List.mem_cons.mp hy with rfl | hy
      · exact .inl rfl
      · exact .inr ((List.pairwise_cons.mp (List.pairwise_append.mp hxs).2.1).1 y hy)
  · rintro ⟨x, hx, hsome, hleast⟩
    obtain ⟨before, after, rfl⟩ := List.append_of_mem hx
    refine List.findSome?_eq_some_iff.mpr ⟨before, x, after, rfl, hsome, fun y hy => ?_⟩
    have hyx : R y x := (List.pairwise_append.mp hxs).2.2 y hy x List.mem_cons_self
    rw [← Option.not_isSome_iff_eq_none]
    intro hsome
    rcases hleast y (List.mem_append_left _ hy) hsome with rfl | hxy
    · exact hirrefl y hyx
    · exact hirrefl x (htrans x y x hxy hyx)

variable {β : Type} {f : Document → Option β} {b : β}

theorem findSome?_sorted_eq_some_iff (h : Apart docs) :
    (sorted docs).findSome? f = some b ↔ ∃ doc ∈ docs, f doc = some b ∧ ∀ other ∈ docs,
      (f other).isSome = true → other = doc ∨ doc.Before other := by
  rw [findSome?_eq_some_iff_of_pairwise Before.irrefl (fun a b c => Before.trans) h.pairwise_sorted]
  simp only [mem_sorted]

theorem getLast?_filterMap_sorted_eq_some_iff (h : Apart docs) :
    ((sorted docs).filterMap f).getLast? = some b ↔ ∃ doc ∈ docs, f doc = some b ∧ ∀ other ∈ docs,
      (f other).isSome = true → other = doc ∨ other.Before doc := by
  have hreverse : (sorted docs).reverse.Pairwise fun a b => b.Before a :=
    List.pairwise_reverse.mpr h.pairwise_sorted
  rw [← List.head?_reverse, ← List.filterMap_reverse, List.head?_filterMap,
    findSome?_eq_some_iff_of_pairwise (R := fun a b => b.Before a) Before.irrefl
      (fun _ _ _ hba hcb => hcb.trans hba) hreverse]
  simp only [List.mem_reverse, mem_sorted]

/-! ## Documents that stop a fold -/

/-- The error that a document stops a fold with if it cannot be read. -/
def refusal? {ρ : Type} (read : Document → Except DocumentFault ρ) (doc : Document) : Option BuildError :=
  match read doc with
  | .ok _ => none
  | .error fault => some (.document doc.provenance.path fault)

variable {ρ σ : Type} {read : Document → Except DocumentFault ρ} {doc : Document}

theorem refusal?_eq_none_iff : refusal? read doc = none ↔ ∃ said, read doc = .ok said := by
  rw [refusal?]
  cases read doc <;> simp

theorem refusal?_eq_some_iff {e : BuildError} : refusal? read doc = some e ↔
    ∃ fault, read doc = .error fault ∧ e = .document doc.provenance.path fault := by
  rw [refusal?]
  cases read doc <;> simp [eq_comm]

theorem failsBy_refusal? {step : σ → Document → Except BuildError σ}
    (hok : ∀ s doc said, read doc = .ok said → ∃ t, step s doc = .ok t)
    (herror : ∀ s doc fault, read doc = .error fault →
      step s doc = .error (.document doc.provenance.path fault)) :
    Except.FailsBy step (refusal? read) where
  exists_ok s doc h := by
    obtain ⟨said, hsaid⟩ := refusal?_eq_none_iff.mp h
    exact hok s doc said hsaid
  error s doc e h := by
    obtain ⟨fault, hfault, rfl⟩ := refusal?_eq_some_iff.mp h
    exact herror s doc fault hfault

end Document

end DocModel
