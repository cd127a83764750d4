import DocModel.Proofs.Class.Fragments
import DocModel.Proofs.Class.Requirements
import DocModel.Proofs.Merging.Sources

/-!
# The defaults of resolved classes

If all class documents are strippable, as sources are, resolved classes are free of directives and what they
have for their instances is in key order, whatever their parents are.

* `isStrippable_of_foldDocuments`: folded definitions are strippable.
* `isPlain_layered`: a definition on top of resolved ones is rid of its directives.
* `isPlain_of_resolveClasses`: so all resolved classes are.
-/

namespace DocModel

namespace ClassDefinition

/-- Stripping takes all directives out of the definition. -/
structure IsStrippable (c : ClassDefinition) : Prop where
  properties : c.properties.IsStrippable
  schema : ∀ schema, c.schema = some schema → schema.Strippable

/-- The properties hold no directive, and each of them once. -/
structure HasPlainDefaults (c : ClassDefinition) : Prop where
  isPlain : (Value.map c.properties).isPlain = true
  ordered : Dict.Ordered c.properties

/-- Nor does the schema hold one. -/
structure IsPlain (c : ClassDefinition) : Prop extends HasPlainDefaults c where
  schema : ∀ schema, c.schema = some schema → schema.isPlain = true

theorem IsPlain.isStrippable {c : ClassDefinition} (h : c.IsPlain) : c.IsStrippable where
  properties := .of_isPlain h.isPlain
  schema s hs := Value.strippable_of_isWellFormed (Value.isWellFormed_of_isPlain (h.schema s hs))

/-! ## Folded definitions -/

theorem isStrippable_of_fragment {path : SourcePath} {v : Value} (hv : v.Strippable) (hr : v.isReset = false)
    {name : String} {fields : Fields} (h : fragment path v = .ok (name, fields)) : fields.IsStrippable := by
  obtain ⟨body, rfl, hfields⟩ := fragment_eq_ok h
  have hbody : Fields.IsStrippable body := ⟨hr, hv⟩
  rcases hfields with rfl | rfl
  · exact hbody
  · have hschema : Fields.IsStrippable (Dict.insert [] "schema" (.map (Dict.erase body "class"))) :=
      Fields.IsStrippable.nil.insert (hbody.erase "class").map fun h => absurd h (by decide)
    exact hschema

theorem isStrippable_ofFields {fields : Fields} (h : fields.IsStrippable) (name : String) (p : Provenance) :
    (ofFields name fields p).IsStrippable where
  properties := (((h.erase "schema").erase "class").erase "parent").erase "parents"
  schema _ hs := h.get? hs

theorem isStrippable_of_foldDocuments {docs : List Document} {classes : Classes}
    (hdocs : ∀ doc ∈ docs, doc.value.Strippable ∧ doc.value.isReset = false)
    (h : foldDocuments docs = .ok classes) : ∀ e ∈ classes, e.2.IsStrippable := by
  intro e he
  obtain ⟨fields, last, hfields, heq⟩ := forall_mem_foldDocuments Fields.IsStrippable.nil
    (fun below fields hb hf => hb.layer hf)
    (fun doc hdoc name fields hfragment =>
      isStrippable_of_fragment (hdocs doc hdoc).1 (hdocs doc hdoc).2 hfragment) h e he
  rw [heq]
  exact isStrippable_ofFields hfields _ _

/-! ## Resolved definitions -/

theorem isPlain_layeredSchema {base overlay : Option Value}
    (hb : ∀ schema, base = some schema → schema.isPlain = true)
    (ho : ∀ schema, overlay = some schema → schema.Strippable) :
    ∀ schema, layeredSchema base overlay = some schema → schema.isPlain = true := by
  intro schema h
  cases base <;> cases overlay <;> cases h
  · exact Value.isPlain_strip_iff.mpr (ho _ rfl)
  · rw [Value.strip_eq_self (hb _ rfl)]
    exact hb _ rfl
  · exact (ho _ rfl).isPlain_merge (hb _ rfl)

/-- Whatever is layered on a plain definition leaves a plain one. -/
theorem isPlain_layered {base other : ClassDefinition} (hb : base.IsPlain) (ho : other.IsStrippable) :
    (base.layered other).IsPlain := by
  have hr := (Value.isPlain_map_iff.mp hb.isPlain).1
  refine ⟨⟨?_, ordered_layered hb.ordered other⟩, isPlain_layeredSchema hb.schema ho.schema⟩
  have hmerge := ho.properties.map.isPlain_merge hb.isPlain
  rwa [Value.merge_map_map hr ho.properties.isReset] at hmerge

theorem isPlain_foldl_layered {parents : List ClassDefinition} (hp : ∀ c ∈ parents, c.IsPlain)
    {base : ClassDefinition} (hb : base.IsPlain) : (parents.foldl layered base).IsPlain := by
  induction parents generalizing base with
  | nil => exact hb
  | cons c rest ih =>
    obtain ⟨hc, hrest⟩ := List.forall_mem_cons.mp hp
    exact ih hrest (isPlain_layered hb hc.isStrippable)

theorem isPlain_flatten {r : Resolver} (hr : ∀ e ∈ r.resolved, e.2.IsPlain) (name : String)
    {own : ClassDefinition} (ho : own.IsStrippable) : (r.flatten name own).IsPlain := by
  have hparents : ∀ c ∈ own.parents.filterMap (Dict.get? r.resolved), c.IsPlain := by
    intro c hc
    obtain ⟨parent, -, hget⟩ := List.mem_filterMap.mp hc
    exact hr _ (Dict.mem_of_get? hget)
  have hempty : IsPlain { name } := ⟨⟨rfl, Dict.Ordered.nil⟩, by simp⟩
  have hflat := isPlain_layered (isPlain_foldl_layered hparents hempty) ho
  refine ⟨⟨hflat.isPlain, hflat.ordered⟩, fun schema hs => ?_⟩
  obtain ⟨s, hschema, rfl⟩ := Option.map_eq_some_iff.mp hs
  exact Value.isPlain_dedupRequired (hflat.schema s hschema)

/-- The classes in strippable documents are free of directives. -/
theorem isPlain_of_resolveClasses {docs : List Document} {resolved : ResolvedClasses}
    (hdocs : ∀ doc ∈ docs, doc.value.Strippable ∧ doc.value.isReset = false)
    (h : resolveClasses docs = .ok resolved) : ∀ e ∈ resolved.classes, e.2.IsPlain := by
  obtain ⟨own, hfold, hall⟩ := Except.bind_eq_ok_iff.mp h
  exact Resolver.forall_mem_resolveAll (fun r name own hres hown => isPlain_flatten hres name hown)
    (isStrippable_of_foldDocuments hdocs hfold) hall

theorem strippable_of_isSource {docs : List Document} (hdocs : ∀ doc ∈ docs, doc.value.isSource = true) :
    ∀ doc ∈ docs, doc.value.Strippable ∧ doc.value.isReset = false :=
  fun doc hdoc => Value.strippable_of_isSource (hdocs doc hdoc)

/-- So are the defaults of the classes in well-formed documents. -/
theorem hasPlainDefaults_of_resolveClasses {docs : List Document} {resolved : ResolvedClasses}
    (hdocs : ∀ doc ∈ docs, doc.value.isSource = true) (h : resolveClasses docs = .ok resolved) :
    ∀ e ∈ resolved.classes, e.2.HasPlainDefaults :=
  fun e he => (isPlain_of_resolveClasses (strippable_of_isSource hdocs) h e he).toHasPlainDefaults

end ClassDefinition

end DocModel
