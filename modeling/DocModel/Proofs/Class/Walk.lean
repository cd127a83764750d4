import DocModel.Class.Inheritance
import DocModel.Proofs.Dict.Insertion
import DocModel.Proofs.Except

/-!
# What resolving keeps

Resolving changes a resolver only by warnings and by storing resolved classes. What both keep, every walk
keeps, also one that ends at a cycle (`walk_keeps`), and so does resolving names one after the other
(`resolve_keeps`, `resolveNames_keeps`). So what flattening brings about, all resolved classes have
(`forall_mem_resolveAll`).
-/

namespace DocModel

namespace Resolver

/-- What holds after a warning or after a class is stored if it held before. -/
structure Keeps (P : Resolver → Prop) : Prop where
  warn : ∀ r issue, P r → P (r.warn issue)
  store : ∀ r name, P r → P (r.store name)

variable {P : Resolver → Prop}

theorem walk_walkParents_keep (hP : Keeps P) :
    (∀ fresh way name r, P r → P (walk fresh way name r).1) ∧
      ∀ fresh way name parents r, P r → P (walkParents fresh way name parents r).1 := by
  refine walk.mutual_induct (fun fresh way name r => P r → P (walk fresh way name r).1)
    (fun fresh way name parents r => P r → P (walkParents fresh way name parents r).1)
    ?_ ?_ ?_ ?_ ?_ ?_ ?_ ?_
  · intro fresh way name r r' hw ih hr
    rw [walk, hw]
    rw [hw] at ih
    exact hP.store _ _ (ih hr)
  · intro fresh way name r r' cycle hw ih hr
    rw [walk, hw]
    rw [hw] at ih
    exact ih hr
  · intro fresh way name r hr
    rw [walkParents]
    exact hr
  · intro fresh way name r parent rest hown ih hr
    rw [walkParents, if_pos hown]
    exact ih (hP.warn _ _ hr)
  · intro fresh way name r parent rest hown hres ih hr
    rw [walkParents, if_neg hown, if_pos hres]
    exact ih hr
  · intro fresh way name r parent rest hown hres hfresh r' hw ihw ih hr
    rw [walkParents, if_neg hown, if_neg hres, dif_pos hfresh, hw]
    rw [hw] at ihw
    exact ih (ihw hr)
  · intro fresh way name r parent rest hown hres hfresh r' cycle hw ihw hr
    rw [walkParents, if_neg hown, if_neg hres, dif_pos hfresh, hw]
    rw [hw] at ihw
    exact ihw hr
  · intro fresh way name r parent rest hown hres hfresh hr
    rw [walkParents, if_neg hown, if_neg hres, dif_neg hfresh]
    exact hr

theorem walk_keeps (hP : Keeps P) {fresh way : List String} {name : String} {r : Resolver} (hr : P r) :
    P (walk fresh way name r).1 :=
  (walk_walkParents_keep hP).1 fresh way name r hr

theorem resolve_keeps (hP : Keeps P) {r : Resolver} (hr : P r) (name : String) :
    P (r.resolve name).1 := by
  have hwalk : P (r.walk ((Dict.keys r.own).erase name) [name] name).1 := walk_keeps hP hr
  rw [resolve]
  split
  · exact hr
  split
  · exact hr
  split
  · next heq => rw [heq] at hwalk; exact hwalk
  · next heq => rw [heq] at hwalk; exact hwalk

theorem resolveNames_keeps (hP : Keeps P) {names : List String} {r r' : Resolver} (hr : P r)
    (h : r.resolveNames names = .ok r') : P r' := by
  induction names generalizing r with
  | nil => cases h; exact hr
  | cons name rest ih =>
    have hstep := resolve_keeps hP hr name
    rw [resolveNames] at h
    split at h
    · next heq => rw [heq] at hstep; exact ih hstep h
    · cases h

/-! ## The definitions -/

/-- Whatever flattening makes of a definition on resolved parents, it has made of each resolved class. -/
theorem forall_mem_resolveAll {O Q : ClassDefinition → Prop}
    (hflatten : ∀ r name own, (∀ e ∈ r.resolved, Q e.2) → O own → Q (flatten r name own)) {own : Classes}
    (hown : ∀ e ∈ own, O e.2) {all : ResolvedClasses} (h : resolveAll { own } = .ok all) :
    ∀ e ∈ all.classes, Q e.2 := by
  have hkeeps : Keeps fun r => (∀ e ∈ r.own, O e.2) ∧ ∀ e ∈ r.resolved, Q e.2 := by
    refine ⟨fun _ _ h => h, fun r name ⟨hown, hres⟩ => ?_⟩
    rw [store]
    split
    · next c hc =>
      exact ⟨hown, Dict.forall_mem_insert (P := Q) hres (hflatten r name c hres (hown _ (Dict.mem_of_get? hc)))⟩
    · exact ⟨hown, hres⟩
  obtain ⟨r, hnames, hr⟩ := Except.bind_eq_ok_iff.mp h
  have hkept := resolveNames_keeps hkeeps ⟨hown, by simp⟩ hnames
  cases hr
  intro e he
  obtain ⟨name, -, hname⟩ := List.mem_filterMap.mp he
  obtain ⟨c, hc, rfl⟩ := Option.map_eq_some_iff.mp hname
  exact hkept.2 _ (Dict.mem_of_get? hc)

theorem keeps_own (own : Classes) : Keeps fun r => r.own = own where
  warn := fun _ _ h => h
  store := by
    intro r name h
    rw [store]
    split <;> exact h

/-! ## A class without parents -/

theorem walk_of_parentsOf_eq_nil {r : Resolver} {name : String} (h : r.parentsOf name = [])
    (fresh way : List String) : walk fresh way name r = (r.store name, none) := by
  rw [walk, h, walkParents]

/-- A class that is alone and names no parent is resolved without a remark. -/
theorem resolveAll_singleton (name : String) {c : ClassDefinition} (h : c.parents = []) :
    resolveAll { own := [(name, c)] } =
      .ok ⟨[(name, flatten { own := [(name, c)] } name c)], []⟩ := by
  have hget : ∀ d : ClassDefinition, Dict.get? [(name, d)] name = some d := fun d => if_pos rfl
  have hparents : parentsOf { own := [(name, c)] } name = [] := by
    rw [parentsOf, hget]
    exact h
  have hstore : store { own := [(name, c)] } name =
      ⟨[(name, c)], [(name, flatten { own := [(name, c)] } name c)], []⟩ := by
    rw [store, hget]
    rfl
  have hnames : resolveNames { own := [(name, c)] } [name] =
      .ok ⟨[(name, c)], [(name, flatten { own := [(name, c)] } name c)], []⟩ := by
    rw [resolveNames, resolve, Dict.contains, hget, walk_of_parentsOf_eq_nil hparents, hstore]
    rfl
  rw [resolveAll]
  show (resolveNames _ [name] >>= _) = _
  rw [hnames]
  show Except.ok (ResolvedClasses.mk (([name] : List String).filterMap _) []) = _
  simp [hget]

end Resolver

theorem resolveClasses_nil : resolveClasses [] = .ok ⟨[], []⟩ := by
  rw [resolveClasses, ClassDefinition.foldDocuments, Document.sorted, List.mergeSort_nil]
  rfl

/-- So is the class of a single document that names no parent. -/
theorem resolveClasses_singleton {doc : Document} {name : String} {fields : Fields}
    (hfragment : ClassDefinition.fragment doc.provenance.path doc.value = .ok (name, fields))
    (hparents : (ClassDefinition.ofFields name (Fields.layer [] fields) doc.provenance).parents = []) :
    let own := ClassDefinition.ofFields name (Fields.layer [] fields) doc.provenance
    resolveClasses [doc] = .ok ⟨[(name, Resolver.flatten { own := [(name, own)] } name own)], []⟩ := by
  have hfold : ClassDefinition.foldDocuments [doc] =
      .ok [(name, ClassDefinition.ofFields name (Fields.layer [] fields) doc.provenance)] := by
    rw [ClassDefinition.foldDocuments, Document.sorted, List.mergeSort_singleton, List.foldlM_cons,
      ClassDefinition.foldStep, hfragment]
    rfl
  rw [resolveClasses, hfold]
  exact Resolver.resolveAll_singleton name hparents

end DocModel
