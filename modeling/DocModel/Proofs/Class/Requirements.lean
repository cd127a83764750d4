import DocModel.Proofs.Class.Walk
import DocModel.Proofs.Merging.Directives

/-!
# What resolved classes require

A resolved class requires each field once, whatever `required` lists are appended in its schema and those of
its ancestors, and it has each of its properties once (`isTidy_of_resolveClasses`). The documents of the
classes may hold anything.
-/

namespace DocModel

theorem Value.string?_inj {v w : Value} {s : String} (hv : v.string? = some s) (hw : w.string? = some s) :
    v = w := by
  cases v <;> cases hv
  cases w <;> cases hw
  rfl

namespace ClassDefinition

/-- Properties and required fields without repeats. -/
structure IsTidy (c : ClassDefinition) : Prop where
  ordered : Dict.Ordered c.properties
  required : c.requiredFields.Nodup

/-- A schema without repeats in its `required` lists requires each field once. -/
theorem nodup_requiredFields_dedup (c : ClassDefinition) :
    (requiredFields { c with schema := c.schema.map Value.dedupRequired }).Nodup := by
  rw [requiredFields]
  split
  · next items hrequired =>
    -- Only the schema that is a map has a list there, which holds no value twice.
    obtain ⟨schema, hschema, hlist⟩ := Option.bind_eq_some_iff.mp hrequired
    obtain ⟨s, -, rfl⟩ := Option.map_eq_some_iff.mp hschema
    cases s with
    | map entries =>
      rw [Value.dedupRequired, Value.dedupRequiredEntries_eq_mapEntries, Value.get?,
        Dict.get?_mapEntries] at hlist
      obtain ⟨v, -, hv⟩ := Option.map_eq_some_iff.mp hlist
      have hitems : items.Nodup := by
        cases v with
        | list all => cases hv; exact Value.nodup_distinct all
        | _ => cases hv
      exact hitems.filterMap fun v w s hv hw => Value.string?_inj hv hw
    | _ => cases hlist
  · exact List.nodup_nil

/-! ## Properties -/

/-- Layering keeps the properties in key order, whatever those on top are. -/
theorem ordered_layered {base : ClassDefinition} (hb : Dict.Ordered base.properties)
    (other : ClassDefinition) : Dict.Ordered (base.layered other).properties := by
  show Dict.Ordered (Value.mergeFields base.properties other.properties)
  rw [Value.mergeFields_eq_overlay]
  exact hb.overlay _ _

theorem ordered_foldl_layered (parents : List ClassDefinition) {base : ClassDefinition}
    (hb : Dict.Ordered base.properties) : Dict.Ordered (parents.foldl layered base).properties :=
  List.foldlRecOn parents layered (motive := fun c => Dict.Ordered c.properties) hb
    fun _ hbelow _ _ => ordered_layered hbelow _

theorem isTidy_flatten (r : Resolver) (name : String) (own : ClassDefinition) :
    (r.flatten name own).IsTidy where
  ordered := ordered_layered (ordered_foldl_layered _ Dict.Ordered.nil) own
  required := nodup_requiredFields_dedup _

/-- All resolved classes are tidy. -/
theorem isTidy_of_resolveClasses {docs : List Document} {resolved : ResolvedClasses}
    (h : resolveClasses docs = .ok resolved) : ∀ e ∈ resolved.classes, e.2.IsTidy := by
  obtain ⟨own, -, hall⟩ := Except.bind_eq_ok_iff.mp h
  exact Resolver.forall_mem_resolveAll (O := fun _ => True) (fun r name own _ _ => isTidy_flatten r name own)
    (fun _ _ => trivial) hall

end ClassDefinition

end DocModel
