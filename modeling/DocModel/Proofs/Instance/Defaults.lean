import DocModel.Instance.Defaults
import DocModel.Proofs.Class.Defaults

/-!
# Defaults under the fields of an instance

What the defaults of a class do to the fields of a record. Each stands for a property of its own, so the
ones that a field does not take leave it alone, and the others go under it (`get?_withDefaults`). Where they
are free of directives, no directive comes up (`isStrippable_withDefaults`), and the record settles free of
directives (`isPlain_settled`).

The record settles field by field (`get?_settled`), unless its fields with the defaults under them make up
one directive as a whole (`TurnsIntoReset`): then the value of that directive takes their place
(`get?_settled_of_isReset`).
-/

namespace DocModel

namespace Instance

variable {required : List String} {fields : Fields}

theorem get?_applyDefault_of_ne (required : List String) (fields : Fields) {entry : String × Value}
    {field : String} (h : field ≠ entry.1) :
    Dict.get? (applyDefault required fields entry) field = Dict.get? fields field := by
  rw [applyDefault]
  split
  · exact Dict.get?_insert_of_ne _ _ h
  · rfl

theorem get?_foldl_applyDefault_of_not_mem {defaults : Fields} {field : String}
    (h : field ∉ Dict.keys defaults) :
    Dict.get? (defaults.foldl (applyDefault required) fields) field = Dict.get? fields field := by
  induction defaults generalizing fields with
  | nil => rfl
  | cons entry rest ih =>
    have hne : field ≠ entry.1 := fun he => h (by rw [he]; exact List.mem_cons_self)
    have hrest : field ∉ Dict.keys rest := fun hm => h (List.mem_cons_of_mem _ hm)
    rw [List.foldl_cons, ih hrest, get?_applyDefault_of_ne required fields hne]

/-- Defaults for different fields do not get in each other's way. -/
theorem get?_foldl_applyDefault {defaults : Fields} (h : (Dict.keys defaults).Nodup) (field : String) :
    Dict.get? (defaults.foldl (applyDefault required) fields) field =
      Value.underlay ((Dict.get? defaults field).filter (takesDefault required fields field))
        (Dict.get? fields field) := by
  induction defaults generalizing fields with
  | nil => rfl
  | cons entry rest ih =>
    obtain ⟨k, d⟩ := entry
    obtain ⟨hk, hrest⟩ := List.nodup_cons.mp h
    rw [List.foldl_cons, Dict.get?]
    by_cases hf : k = field
    · subst hf
      rw [get?_foldl_applyDefault_of_not_mem hk, if_pos rfl, applyDefault, Option.filter_some]
      dsimp only
      split
      · exact Dict.get?_insert_self _ _ _
      · rfl
    · have hne : field ≠ k := Ne.symm hf
      have hget : Dict.get? (applyDefault required fields (k, d)) field = Dict.get? fields field :=
        get?_applyDefault_of_ne required fields hne
      have htakes : takesDefault required (applyDefault required fields (k, d)) field =
          takesDefault required fields field := by
        funext w
        rw [takesDefault, takesDefault, Dict.contains, Dict.contains, hget]
      rw [ih hrest, if_neg hf, hget, htakes]

/-- The class that a record refers to, if it is known. -/
def classOf (classes : Classes) (fields : Fields) : Option ClassDefinition :=
  ((Dict.get? fields "class").bind Value.string?).bind (Dict.get? classes)

/-- The default that goes under a field of a record. -/
def defaultUnder (classes : Classes) (fields : Fields) (field : String) : Option Value :=
  (classOf classes fields).bind fun c =>
    (Dict.get? c.properties field).filter (takesDefault c.requiredFields fields field)

/-- What a record holds in a field once the default of its class is under it. -/
def underlaid (classes : Classes) (fields : Fields) (field : String) : Option Value :=
  Value.underlay (defaultUnder classes fields field) (Dict.get? fields field)

/-- Defaults that are in key order go under the fields one by one. -/
theorem get?_withDefaults {classes : Classes} (hc : ∀ e ∈ classes, Dict.Ordered e.2.properties)
    (last : Option SourcePath) (id : String) (fields : Fields) (field : String) :
    Dict.get? (withDefaults classes last id fields).1 field = underlaid classes fields field := by
  rw [withDefaults, underlaid, defaultUnder, classOf]
  cases (Dict.get? fields "class").bind Value.string? with
  | none => rfl
  | some name =>
    simp only [Option.bind_some]
    cases hget : Dict.get? classes name with
    | none => rfl
    | some c => exact get?_foldl_applyDefault (hc _ (Dict.mem_of_get? hget)).nodup field

theorem isPlain_defaultUnder {classes : Classes} (hc : ∀ e ∈ classes, e.2.HasPlainDefaults)
    {fields : Fields} {field : String} {d : Value} (h : defaultUnder classes fields field = some d) :
    d.isPlain = true := by
  obtain ⟨c, hclass, hfilter⟩ := Option.bind_eq_some_iff.mp h
  obtain ⟨name, -, hname⟩ := Option.bind_eq_some_iff.mp hclass
  exact Value.isPlain_of_get? (hc _ (Dict.mem_of_get? hname)).isPlain (Option.filter_eq_some_iff.mp hfilter).1

theorem defaultUnder_reserved {field : String}
    (h : ClassDefinition.reservedFields.contains field = true) (classes : Classes) (fields : Fields) :
    defaultUnder classes fields field = none := by
  rw [defaultUnder, Option.bind_eq_none_iff]
  intro c _
  rw [Option.filter_eq_none_iff]
  intro d _
  rw [takesDefault, h]
  simp

theorem underlaid_of_classOf_eq_none {classes : Classes} (h : classOf classes fields = none) (field : String) :
    underlaid classes fields field = Dict.get? fields field := by
  rw [underlaid, defaultUnder, h]
  rfl

/-- Nothing goes under a required field that is not there. -/
theorem underlaid_eq_none {classes : Classes} {c : ClassDefinition} (hc : classOf classes fields = some c)
    {field : String} (hrequired : field ∈ c.requiredFields) (h : Dict.get? fields field = none) :
    underlaid classes fields field = none := by
  have htakes : ∀ d, takesDefault c.requiredFields fields field d = false := by
    intro d
    rw [takesDefault, List.contains_iff_mem.mpr hrequired, Dict.get?_eq_none_iff.mp h]
    simp
  have hdefault : defaultUnder classes fields field = none := by
    rw [defaultUnder, hc, Option.bind_some, Option.filter_eq_none_iff]
    exact fun d _ => by simp [htakes]
  rw [underlaid, hdefault, h]
  rfl

theorem underlaid_reserved {field : String} (h : ClassDefinition.reservedFields.contains field = true)
    (classes : Classes) (fields : Fields) : underlaid classes fields field = Dict.get? fields field := by
  rw [underlaid, defaultUnder_reserved h, Value.underlay]

/-! ## Settling -/

theorem isPlain_mergeDefault {default : Value} (hd : default.isPlain = true) {v : Option Value}
    (hv : ∀ w, v = some w → w.Strippable) : (Value.mergeDefault default v).isPlain = true := by
  cases v with
  | none => rw [Value.mergeDefault, Value.strip_eq_self hd]; exact hd
  | some w => exact (hv w rfl).isPlain_merge hd

theorem isStrippable_applyDefault (required : List String) (hf : fields.IsStrippable)
    {entry : String × Value} (hplain : entry.2.isPlain = true)
    (hreset : entry.1 = Value.resetKey → entry.2 ≠ .bool true) :
    (applyDefault required fields entry).IsStrippable := by
  rw [applyDefault]
  split
  · have hmerge := isPlain_mergeDefault hplain fun w (hw : Dict.get? fields entry.1 = some w) => hf.get? hw
    refine hf.insert (Value.strippable_of_isWellFormed (Value.isWellFormed_of_isPlain hmerge)) fun hkey htrue => ?_
    rw [← Value.strip_eq_true_iff_standsForTrue, Value.strip_eq_self hmerge] at htrue
    -- A `true` under `$reset` would have to be the default itself, or what the field stood for already.
    cases hv : Dict.get? fields entry.1 with
    | none =>
      rw [hv, Value.mergeDefault, Value.strip_eq_self hplain] at htrue
      exact hreset hkey htrue
    | some w =>
      rw [hv, Value.mergeDefault, Value.merge_eq_true_iff] at htrue
      rw [hkey] at hv
      exact ((Value.strippable_map_iff hf.isReset).mp hf.map).1 w hv htrue
  · exact hf

/-- Defaults that are free of directives bring none into a record. -/
theorem isStrippable_withDefaults {classes : Classes} (hc : ∀ e ∈ classes, e.2.HasPlainDefaults)
    (last : Option SourcePath) (id : String) (hf : fields.IsStrippable) :
    Fields.IsStrippable (withDefaults classes last id fields).1 := by
  rw [withDefaults]
  split
  · exact hf
  split
  · next c hget =>
    obtain ⟨hplain, hordered⟩ := hc _ (Dict.mem_of_get? hget)
    obtain ⟨hreset, hentries⟩ := Value.isPlain_map_iff.mp hplain
    refine List.foldlRecOn c.properties (applyDefault c.requiredFields) hf fun below hbelow entry hentry => ?_
    refine isStrippable_applyDefault _ hbelow (hentries entry hentry) fun hkey htrue => ?_
    have hdefault := Dict.get?_of_mem hordered.nodup (show (entry.1, entry.2) ∈ c.properties from hentry)
    rw [hkey, htrue] at hdefault
    simp [Fields.isReset, hdefault] at hreset
  · exact hf

/-- The defaults of its class make a record a directive. -/
def TurnsIntoReset (classes : Classes) (fields : Fields) : Prop :=
  underlaid classes fields Value.resetKey = some (.bool true)

instance (classes : Classes) (fields : Fields) : Decidable (TurnsIntoReset classes fields) :=
  inferInstanceAs (Decidable (_ = _))

theorem isReset_withDefaults_iff {classes : Classes} (hc : ∀ e ∈ classes, Dict.Ordered e.2.properties)
    (last : Option SourcePath) (id : String) :
    (withDefaults classes last id fields).1.isReset = true ↔ TurnsIntoReset classes fields := by
  rw [Fields.isReset, get?_withDefaults hc, decide_eq_true_iff, TurnsIntoReset]

/-- Defaults that are free of directives make none of a record. -/
theorem not_turnsIntoReset {classes : Classes} (hc : ∀ e ∈ classes, e.2.HasPlainDefaults)
    (hf : fields.IsStrippable) : ¬ TurnsIntoReset classes fields := by
  rw [← isReset_withDefaults_iff (fun e he => (hc e he).ordered) none "", Bool.not_eq_true]
  exact (isStrippable_withDefaults hc none "" hf).isReset

/-- Nor does a class that is not known. -/
theorem not_turnsIntoReset_of_classOf_eq_none {classes : Classes} (h : classOf classes fields = none)
    (hf : fields.isReset = false) : ¬ TurnsIntoReset classes fields := by
  rw [TurnsIntoReset, underlaid_of_classOf_eq_none h]
  simpa [Fields.isReset] using hf

theorem settled_of_not_isReset (h : fields.isReset = false) : settled fields = Value.stripEntries fields := by
  rw [settled, Value.strip_of_not_isReset h]
  rfl

theorem get?_settled (h : fields.isReset = false) (field : String) :
    Dict.get? (settled fields) field = (Dict.get? fields field).map Value.strip := by
  rw [settled_of_not_isReset h, Value.get?_stripEntries]

/-- A record that is a directive settles to the map that it stands for. -/
theorem get?_settled_of_isReset (h : fields.isReset = true) (field : String) :
    Dict.get? (settled fields) field =
      (Dict.get? fields Value.resetValueKey).bind fun v => v.strip.get? field := by
  rw [settled, Value.strip, if_pos h, Value.get?_stripEntries]
  cases Dict.get? fields Value.resetValueKey with
  | none => rfl
  | some v =>
    rw [Option.map_some, Option.getD_some, Option.bind_some]
    cases v.strip <;> rfl

theorem isPlain_settled (h : fields.IsStrippable) : (Value.map (settled fields)).isPlain = true := by
  rw [settled_of_not_isReset h.isReset, ← Value.strip_of_not_isReset h.isReset]
  exact Value.isPlain_strip_iff.mpr h.map

end Instance

end DocModel
