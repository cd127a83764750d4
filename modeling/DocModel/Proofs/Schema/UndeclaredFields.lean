import DocModel.Proofs.Document.FieldTexts
import DocModel.Schema.Rules

/-!
# Which fields are undeclared

Along properties, patterns, additional properties and items a walk comes from a value and its schema to parts
of both. A field is undeclared where the schema that the walk has come to judges fields and leaves this one
out. If no schema on the way is composed of others, the walk reports these fields, one after the other in
document order, and no others.

* `Says`, `Enters`: what a schema says of a key by its keywords, and the steps of the walk by this.
* `says_iff`, `enters_item_iff`: they are what the walk makes of a key and of an item.
* `paths_eq`: the reported paths are those of all undeclared fields.
* `undeclared_paths_exact`: they are different, and each can be read back to find its field.
-/

namespace DocModel

namespace Undeclared

open Rules (nameMatches)

/-! ## What a schema says of a field -/

/-- A property of the schema describes the fields of a key. -/
def Declares (node : Fields) (key : String) (sub : Value) : Prop :=
  ∃ properties, Dict.get? node "properties" = some (.map properties) ∧ Dict.get? properties key = some sub

/-- The first pattern that matches a key describes its fields. -/
def FirstMatch (engine : PatternEngine) (node : Fields) (key : String) (sub : Value) : Prop :=
  ∃ patterns pattern, Dict.get? node "patternProperties" = some (.map patterns) ∧
    patterns.find? (fun entry => nameMatches engine entry.1 key) = some (pattern, sub)

/-- Neither a property nor a pattern describes the fields of a key. -/
structure Unnamed (engine : PatternEngine) (node : Fields) (key : String) : Prop where
  not_declared : ∀ sub, ¬ Declares node key sub
  not_matched : ∀ sub, ¬ FirstMatch engine node key sub

/-- The schema has properties, or a pattern that can be read. -/
def Judges (engine : PatternEngine) (node : Fields) : Prop :=
  (∃ properties, Dict.get? node "properties" = some (.map properties)) ∨
    ∃ patterns, Dict.get? node "patternProperties" = some (.map patterns) ∧
      ∃ entry ∈ patterns, (engine entry.1).isSome = true

/-- The schema judges fields, and has nothing for those of this key: no property, no matching pattern, and no
word on additional properties that would refuse or describe them. -/
structure LeavesOut (engine : PatternEngine) (node : Fields) (key : String) : Prop
    extends Unnamed engine node key where
  judges : Judges engine node
  not_refused : Dict.get? node "additionalProperties" ≠ some (.bool false)
  not_described : ∀ entries, Dict.get? node "additionalProperties" ≠ some (.map entries)

/-- What a schema says of a key: properties come before patterns, and these before additional properties. -/
inductive Says (engine : PatternEngine) (node : Fields) (key : String) : Verdict → Prop where
  | declared {sub} (h : Declares node key sub) : Says engine node key (.described sub)
  | matched {sub} (hnot : ∀ sub, ¬ Declares node key sub) (h : FirstMatch engine node key sub) :
    Says engine node key (.described sub)
  | additional {entries} (hnot : Unnamed engine node key)
    (h : Dict.get? node "additionalProperties" = some (.map entries)) :
    Says engine node key (.described (.map entries))
  | undeclared (h : LeavesOut engine node key) : Says engine node key .undeclared
  | accepted (hnot : Unnamed engine node key)
    (hadditional : ∀ entries, Dict.get? node "additionalProperties" ≠ some (.map entries))
    (h : ¬ LeavesOut engine node key) : Says engine node key .accepted

/-- A step of the walk, from a value and its schema to a part of the value and what describes it. -/
inductive Enters (engine : PatternEngine) : Value → Value → FieldStep → Value → Value → Prop where
  | member {fields node key child sub} (hfield : (key, child) ∈ fields)
    (h : Says engine node key (.described sub)) :
    Enters engine (.map fields) (.map node) (.member key) child sub
  | inOrder {items node index child subs sub} (hitem : items[index]? = some child)
    (h : Dict.get? node "prefixItems" = some (.list subs)) (hsub : subs[index]? = some sub) :
    Enters engine (.list items) (.map node) (.item index) child sub
  | rest {items node index child sub} (hitem : items[index]? = some child)
    (hnot : ∀ subs, Dict.get? node "prefixItems" = some (.list subs) → subs[index]? = none)
    (h : Dict.get? node "items" = some sub) :
    Enters engine (.list items) (.map node) (.item index) child sub

/-- A field at a path of a value that the walk leaves undeclared. -/
inductive IsUndeclared (engine : PatternEngine) : Value → Value → FieldPath → Prop where
  | here {fields node key child} (hfield : (key, child) ∈ fields) (h : LeavesOut engine node key) :
    IsUndeclared engine (.map fields) (.map node) [.member key]
  | inside {value schema step child sub p} (henter : Enters engine value schema step child sub)
    (h : IsUndeclared engine child sub p) : IsUndeclared engine value schema (step :: p)

/-! ## The walk by keywords -/

variable {engine : PatternEngine} {node fields : Fields} {items : List Value} {key : String} {child sub : Value}
  {index : Nat}

theorem bind_map?_eq_some_iff {keyword : String} {entries : Fields} :
    (Dict.get? node keyword).bind Value.map? = some entries ↔ Dict.get? node keyword = some (.map entries) := by
  rw [Option.bind_eq_some_iff]
  constructor
  · rintro ⟨v, hv, hmap⟩
    cases v <;> cases hmap
    exact hv
  · intro h
    exact ⟨_, h, rfl⟩

theorem bind_list?_eq_some_iff {keyword : String} {values : List Value} :
    (Dict.get? node keyword).bind Value.list? = some values ↔ Dict.get? node keyword = some (.list values) := by
  rw [Option.bind_eq_some_iff]
  constructor
  · rintro ⟨v, hv, hlist⟩
    cases v <;> cases hlist
    exact hv
  · intro h
    exact ⟨_, h, rfl⟩

theorem declared_iff : (declared? node).bind (Dict.get? · key) = some sub ↔ Declares node key sub := by
  rw [Option.bind_eq_some_iff, Declares]
  exact exists_congr fun properties => and_congr_left fun _ => bind_map?_eq_some_iff

/-- Only the patterns that can be read match anything. -/
theorem find?_readable (engine : PatternEngine) (entries : Fields) (key : String) :
    ((entries.filterMap fun entry => (engine entry.1).map (·, entry.2)).find? fun entry => entry.1 key).map
        Prod.snd =
      (entries.find? fun entry => nameMatches engine entry.1 key).map Prod.snd := by
  induction entries with
  | nil => rfl
  | cons entry rest ih =>
    rw [List.filterMap_cons, List.find?_cons, nameMatches]
    cases engine entry.1 with
    | none => exact ih
    | some accepts =>
      simp only [Option.map_some, Option.getD_some, List.find?_cons]
      cases accepts key with
      | true => rfl
      | false => exact ih

theorem matched_iff :
    (((patterns engine node).find? fun entry => entry.1 key).map Prod.snd = some sub) ↔
      FirstMatch engine node key sub := by
  rw [patterns, find?_readable, FirstMatch]
  cases hpatterns : (Dict.get? node "patternProperties").bind Value.map? with
  | none =>
    refine ⟨nofun, ?_⟩
    rintro ⟨patterns, -, hget, -⟩
    rw [bind_map?_eq_some_iff.mpr hget] at hpatterns
    cases hpatterns
  | some patterns =>
    have hget := bind_map?_eq_some_iff.mp hpatterns
    rw [Option.getD_some, Option.map_eq_some_iff]
    constructor
    · rintro ⟨⟨pattern, found⟩, hfind, rfl⟩
      exact ⟨patterns, pattern, hget, hfind⟩
    · rintro ⟨patterns', pattern, hget', hfind⟩
      obtain rfl : patterns = patterns' := by simpa using hget.symm.trans hget'
      exact ⟨(pattern, sub), hfind, rfl⟩

theorem judges_iff :
    ((declared? node).isSome || !(patterns engine node).isEmpty) = true ↔ Judges engine node := by
  rw [Bool.or_eq_true, Judges]
  refine or_congr ?_ ?_
  · rw [Option.isSome_iff_exists]
    exact exists_congr fun properties => bind_map?_eq_some_iff
  · rw [patterns, Bool.not_eq_true', List.isEmpty_eq_false_iff_exists_mem]
    constructor
    · rintro ⟨entry, hentry⟩
      obtain ⟨source, hsource, hread⟩ := List.mem_filterMap.mp hentry
      obtain ⟨accepts, haccepts, -⟩ := Option.map_eq_some_iff.mp hread
      cases hpatterns : (Dict.get? node "patternProperties").bind Value.map? with
      | none => rw [hpatterns] at hsource; cases hsource
      | some patterns =>
        rw [hpatterns] at hsource
        exact ⟨patterns, bind_map?_eq_some_iff.mp hpatterns, source, hsource, by rw [haccepts]; rfl⟩
    · rintro ⟨patterns, hget, source, hsource, hread⟩
      obtain ⟨accepts, haccepts⟩ := Option.isSome_iff_exists.mp hread
      refine ⟨(accepts, source.2), List.mem_filterMap.mpr ⟨source, ?_, by rw [haccepts]; rfl⟩⟩
      rwa [bind_map?_eq_some_iff.mpr hget]

theorem verdict_of_firstMatch (hnot : ∀ sub, ¬ Declares node key sub) (h : FirstMatch engine node key sub) :
    verdict engine node key = .described sub := by
  have hdeclared : (declared? node).bind (Dict.get? · key) = none :=
    Option.eq_none_iff_forall_ne_some.mpr fun sub hsub => hnot sub (declared_iff.mp hsub)
  obtain ⟨⟨accepts, found⟩, hfind, rfl⟩ := Option.map_eq_some_iff.mp (matched_iff.mpr h)
  rw [verdict, hdeclared]
  dsimp only
  rw [hfind]

theorem verdict_of_unnamed (h : Unnamed engine node key) :
    verdict engine node key = otherwise node ((declared? node).isSome || !(patterns engine node).isEmpty) := by
  have hdeclared : (declared? node).bind (Dict.get? · key) = none :=
    Option.eq_none_iff_forall_ne_some.mpr fun sub hsub => h.not_declared sub (declared_iff.mp hsub)
  have hmatched : ((patterns engine node).find? fun entry => entry.1 key) = none :=
    Option.eq_none_iff_forall_ne_some.mpr fun entry hentry =>
      h.not_matched entry.2 (matched_iff.mp (by rw [hentry]; rfl))
  rw [verdict, hdeclared]
  dsimp only
  rw [hmatched]

theorem Says.verdict_eq {v : Verdict} (h : Says engine node key v) : verdict engine node key = v := by
  cases h with
  | declared h => rw [verdict, declared_iff.mpr h]
  | matched hnot h => exact verdict_of_firstMatch hnot h
  | additional hnot h => rw [verdict_of_unnamed hnot, otherwise, h]
  | undeclared h =>
    rw [verdict_of_unnamed h.toUnnamed, otherwise]
    split
    · next hrefused => exact absurd hrefused h.not_refused
    · next entries hget => exact absurd hget (h.not_described entries)
    · rw [judges_iff.mpr h.judges]
      rfl
  | accepted hnot hadditional h =>
    rw [verdict_of_unnamed hnot, otherwise]
    split
    · rfl
    · next entries hget => exact absurd hget (hadditional entries)
    · next hrefused hdescribed =>
      refine if_neg fun hjudges => h ⟨hnot, judges_iff.mp hjudges, hrefused, hdescribed⟩

theorem says_verdict (engine : PatternEngine) (node : Fields) (key : String) :
    Says engine node key (verdict engine node key) := by
  by_cases hdeclared : ∃ sub, Declares node key sub
  · obtain ⟨sub, hsub⟩ := hdeclared
    exact (Says.declared hsub).verdict_eq ▸ .declared hsub
  have hnot := not_exists.mp hdeclared
  by_cases hmatched : ∃ sub, FirstMatch engine node key sub
  · obtain ⟨sub, hsub⟩ := hmatched
    exact (Says.matched hnot hsub).verdict_eq ▸ .matched hnot hsub
  have hunnamed : Unnamed engine node key := ⟨hnot, not_exists.mp hmatched⟩
  by_cases hadditional : ∃ entries, Dict.get? node "additionalProperties" = some (.map entries)
  · obtain ⟨entries, hget⟩ := hadditional
    exact (Says.additional hunnamed hget).verdict_eq ▸ .additional hunnamed hget
  by_cases hleaves : LeavesOut engine node key
  · exact (Says.undeclared hleaves).verdict_eq ▸ .undeclared hleaves
  · have haccepted := Says.accepted hunnamed (not_exists.mp hadditional) hleaves
    exact haccepted.verdict_eq ▸ haccepted

/-- The keywords of a schema say of a key what the walk makes of it. -/
theorem says_iff {v : Verdict} : Says engine node key v ↔ verdict engine node key = v :=
  ⟨Says.verdict_eq, fun h => h ▸ says_verdict engine node key⟩

theorem leavesOut_iff : LeavesOut engine node key ↔ verdict engine node key = .undeclared := by
  rw [← says_iff]
  exact ⟨.undeclared, fun h => by cases h; assumption⟩

theorem enters_member_iff :
    Enters engine (.map fields) (.map node) (.member key) child sub ↔
      (key, child) ∈ fields ∧ verdict engine node key = .described sub := by
  rw [← says_iff]
  constructor
  · intro h
    cases h with
    | member hfield h => exact ⟨hfield, h⟩
  · exact fun ⟨hfield, h⟩ => .member hfield h

theorem enters_item_iff :
    Enters engine (.list items) (.map node) (.item index) child sub ↔
      items[index]? = some child ∧ itemSchema? node index = some sub := by
  rw [itemSchema?]
  cases hsubs : (Dict.get? node "prefixItems").bind Value.list? with
  | none =>
    have hnot : ∀ subs, Dict.get? node "prefixItems" ≠ some (.list subs) := fun subs h => by
      rw [bind_list?_eq_some_iff.mpr h] at hsubs
      cases hsubs
    constructor
    · intro h
      cases h with
      | inOrder hitem h hsub => exact absurd h (hnot _)
      | rest hitem _ h => exact ⟨hitem, h⟩
    · rintro ⟨hitem, h⟩
      exact .rest hitem (fun subs hget => absurd hget (hnot subs)) h
  | some subs =>
    have hget := bind_list?_eq_some_iff.mp hsubs
    dsimp only
    constructor
    · intro h
      cases h with
      | inOrder hitem h hsub =>
        obtain rfl := Value.list.inj (Option.some.inj (hget.symm.trans h))
        exact ⟨hitem, by rw [hsub]; rfl⟩
      | rest hitem hnot h => exact ⟨hitem, by rw [hnot subs hget]; exact h⟩
    · rintro ⟨hitem, h⟩
      cases hsub : subs[index]? with
      | some found =>
        rw [hsub] at h
        cases h
        exact .inOrder hitem hget hsub
      | none =>
        rw [hsub] at h
        refine .rest hitem (fun subs' hget' => ?_) h
        obtain rfl := Value.list.inj (Option.some.inj (hget.symm.trans hget'))
        exact hsub

theorem IsUndeclared.exists_map {value schema : Value} {p : FieldPath} (h : IsUndeclared engine value schema p) :
    ∃ node, schema = .map node := by
  cases h with
  | here hfield h => exact ⟨_, rfl⟩
  | inside henter h => cases henter <;> exact ⟨_, rfl⟩

theorem isUndeclared_member_iff {p : FieldPath} :
    IsUndeclared engine (.map fields) (.map node) (.member key :: p) ↔
      (p = [] ∧ (∃ child, (key, child) ∈ fields) ∧ verdict engine node key = .undeclared) ∨
        ∃ child sub, (key, child) ∈ fields ∧ verdict engine node key = .described sub ∧
          IsUndeclared engine child sub p := by
  constructor
  · intro h
    cases h with
    | here hfield h => exact .inl ⟨rfl, ⟨_, hfield⟩, leavesOut_iff.mp h⟩
    | inside henter h =>
      obtain ⟨hfield, hv⟩ := enters_member_iff.mp henter
      exact .inr ⟨_, _, hfield, hv, h⟩
  · rintro (⟨rfl, ⟨child, hfield⟩, hv⟩ | ⟨child, sub, hfield, hv, h⟩)
    · exact .here hfield (leavesOut_iff.mpr hv)
    · exact .inside (enters_member_iff.mpr ⟨hfield, hv⟩) h

theorem isUndeclared_item_iff {p : FieldPath} :
    IsUndeclared engine (.list items) (.map node) (.item index :: p) ↔
      ∃ child sub, items[index]? = some child ∧ itemSchema? node index = some sub ∧
        IsUndeclared engine child sub p := by
  constructor
  · intro h
    cases h with
    | inside henter h =>
      obtain ⟨hitem, hsub⟩ := enters_item_iff.mp henter
      exact ⟨_, _, hitem, hsub, h⟩
  · rintro ⟨child, sub, hitem, hsub, h⟩
    exact .inside (enters_item_iff.mpr ⟨hitem, hsub⟩) h

/-! ## Schemas that are not composed -/

/-- The walk goes from a value and its schema to a part of the value and what describes it. -/
def Descends (engine : PatternEngine) (a b : Value × Value) : Prop :=
  ∃ step, Enters engine a.1 a.2 step b.1 b.2

/-- No schema that the walk comes to is composed of others. -/
def NeverComposed (engine : PatternEngine) (value schema : Value) : Prop :=
  ∀ v node, Relation.ReflTransGen (Descends engine) (value, schema) (v, .map node) →
    ∀ keyword ∈ compositionKeywords, ∀ branches, Dict.get? node keyword ≠ some (.list branches)

theorem composition?_eq_none_iff :
    composition? node = none ↔
      ∀ keyword ∈ compositionKeywords, ∀ branches, Dict.get? node keyword ≠ some (.list branches) := by
  rw [composition?, List.findSome?_eq_none_iff]
  refine forall₂_congr fun keyword _ => ?_
  rw [Option.map_eq_none_iff, Option.eq_none_iff_forall_ne_some]
  exact forall_congr' fun branches => not_congr bind_list?_eq_some_iff

theorem NeverComposed.composition? {value : Value} (h : NeverComposed engine value (.map node)) :
    composition? node = none :=
  composition?_eq_none_iff.mpr (h value node .refl)

theorem NeverComposed.enter {value schema : Value} {step : FieldStep} (h : NeverComposed engine value schema)
    (henter : Enters engine value schema step child sub) : NeverComposed engine child sub :=
  fun v node hreach => h v node (.head ⟨step, henter⟩ hreach)

/-- What describes a part is a part of the schema. -/
theorem everyMap_of_enters {test : Fields → Bool} {value schema : Value} {step : FieldStep}
    (henter : Enters engine value schema step child sub) (h : schema.everyMap test = true) :
    sub.everyMap test = true := by
  have field {node : Fields} {keyword : String} {v : Value} (h : (Value.map node).everyMap test = true)
      (hget : Dict.get? node keyword = some v) : v.everyMap test = true :=
    (Value.everyMap_map_iff.mp h).2 _ (Dict.mem_of_get? hget)
  cases henter with
  | member _ hsays =>
    cases hsays with
    | declared hdeclared =>
      obtain ⟨properties, hproperties, hsub⟩ := hdeclared
      exact field (field h hproperties) hsub
    | matched _ hmatched =>
      obtain ⟨patterns, pattern, hpatterns, hfind⟩ := hmatched
      exact (Value.everyMap_map_iff.mp (field h hpatterns)).2 _ (List.mem_of_find?_eq_some hfind)
    | additional _ hget => exact field h hget
  | inOrder _ hsubs hsub => exact Value.everyMap_list_iff.mp (field h hsubs) _ (List.mem_of_getElem? hsub)
  | rest _ _ hget => exact field h hget

theorem everyMap_of_descends {test : Fields → Bool} {a b : Value × Value}
    (hreach : Relation.ReflTransGen (Descends engine) a b) (h : a.2.everyMap test = true) :
    b.2.everyMap test = true := by
  induction hreach with
  | refl => exact h
  | tail _ hstep ih =>
    obtain ⟨step, henter⟩ := hstep
    exact everyMap_of_enters henter ih

/-- A schema with no composed schema in it. -/
theorem neverComposed_of_everyMap {value schema : Value}
    (h : schema.everyMap (fun node => (Undeclared.composition? node).isNone) = true) :
    NeverComposed engine value schema := by
  intro v node hreach
  have hnode := (Value.everyMap_map_iff.mp (everyMap_of_descends hreach h)).1
  exact composition?_eq_none_iff.mp (Option.isNone_iff_eq_none.mp hnode)

/-! ## All undeclared fields -/

variable {value schema : Value} {step : FieldStep}

section

open Classical

/-- The undeclared fields of a value, in the order of all fields. -/
noncomputable def undeclared (engine : PatternEngine) (value schema : Value) : List FieldPath :=
  value.fieldPaths.filter fun p => IsUndeclared engine value schema p

/-- Of the fields of a part, those that are undeclared in the whole. -/
theorem filter_part (h : ∀ p, IsUndeclared engine value schema (step :: p) ↔ IsUndeclared engine child sub p) :
    ((child.fieldPaths.map (step :: ·)).filter fun p => IsUndeclared engine value schema p) =
      (undeclared engine child sub).map (step :: ·) := by
  rw [List.filter_map, undeclared]
  congr 1
  exact List.filter_congr fun p _ => decide_eq_decide.mpr (h p)

theorem filter_part_eq_nil {ps : List FieldPath} (h : ∀ p ∈ ps, ¬ IsUndeclared engine value schema (step :: p)) :
    ((ps.map (step :: ·)).filter fun p => IsUndeclared engine value schema p) = [] := by
  rw [List.filter_map, List.map_eq_nil_iff, List.filter_eq_nil_iff]
  intro p hp
  simpa using h p hp

theorem map_textFrom_cons (start : String) (ps : List FieldPath) :
    (ps.map (step :: ·)).map (FieldPath.textFrom start) =
      ps.map (FieldPath.textFrom (FieldPath.stepText start step)) := by
  rw [List.map_map]
  rfl

/-- A schema that is no map says nothing of any field. -/
theorem paths_eq_of_map {start : String}
    (h : ∀ node, schema = .map node → paths engine value (.map node) start =
      (undeclared engine value (.map node)).map (FieldPath.textFrom start)) :
    paths engine value schema start = (undeclared engine value schema).map (FieldPath.textFrom start) := by
  have hnil (hnot : ∀ node, schema ≠ .map node) : undeclared engine value schema = [] := by
    rw [undeclared, List.filter_eq_nil_iff]
    intro p _ hp
    obtain ⟨node, hnode⟩ := (of_decide_eq_true hp).exists_map
    exact hnot node hnode
  cases schema with
  | map node => exact h node rfl
  | _ => rw [hnil nofun, paths_of_map?_eq_none rfl]; rfl

/-- What is reported of an item, if the walk reports the undeclared fields of what is in it. -/
theorem itemReport_eq (hitem : items[index]? = some child)
    (hinside : ∀ sub, itemSchema? node index = some sub → ∀ start,
      paths engine child sub start = (undeclared engine child sub).map (FieldPath.textFrom start))
    (start : String) :
    ((itemSchema? node index).map fun sub => paths engine child sub (itemPath start index)).getD [] =
      ((child.fieldPaths.map (.item index :: ·)).filter fun p =>
        IsUndeclared engine (.list items) (.map node) p).map (FieldPath.textFrom start) := by
  cases hsub : itemSchema? node index with
  | none =>
    rw [filter_part_eq_nil]
    · rfl
    · intro p _ hp
      obtain ⟨child, sub, -, hsub', -⟩ := isUndeclared_item_iff.mp hp
      rw [hsub] at hsub'
      cases hsub'
  | some sub =>
    have hpart : ∀ p, IsUndeclared engine (.list items) (.map node) (.item index :: p) ↔
        IsUndeclared engine child sub p := by
      intro p
      rw [isUndeclared_item_iff, hitem, hsub]
      simp
    rw [filter_part hpart, map_textFrom_cons]
    exact hinside sub hsub _

/-- What is reported of a field, if the walk reports the undeclared fields of what is in it. -/
theorem fieldReport_eq (hkeys : (Dict.keys fields).Nodup) (hfield : (key, child) ∈ fields)
    (hinside : ∀ sub, verdict engine node key = .described sub → ∀ start,
      paths engine child sub start = (undeclared engine child sub).map (FieldPath.textFrom start))
    (start : String) :
    fieldReport engine child (memberPath start key) (verdict engine node key) =
      (([.member key] :: child.fieldPaths.map (.member key :: ·)).filter fun p =>
        IsUndeclared engine (.map fields) (.map node) p).map (FieldPath.textFrom start) := by
  have hown : IsUndeclared engine (.map fields) (.map node) [.member key] ↔
      verdict engine node key = .undeclared := by
    rw [isUndeclared_member_iff]
    constructor
    · rintro (⟨-, -, hv⟩ | ⟨child, sub, -, -, h⟩)
      · exact hv
      · cases h
    · exact fun hv => .inl ⟨rfl, ⟨_, hfield⟩, hv⟩
  have hinner (hv : ∀ sub, verdict engine node key ≠ .described sub) :
      ((child.fieldPaths.map (.member key :: ·)).filter fun p =>
        IsUndeclared engine (.map fields) (.map node) p) = [] := by
    refine filter_part_eq_nil fun p hp h => ?_
    rcases isUndeclared_member_iff.mp h with ⟨hnil, -⟩ | ⟨child, sub, -, hdescribed, -⟩
    · exact Value.ne_nil_of_mem_fieldPaths hp hnil
    · exact hv sub hdescribed
  rw [List.filter_cons]
  cases hv : verdict engine node key with
  | described sub =>
    have hpart : ∀ p, IsUndeclared engine (.map fields) (.map node) (.member key :: p) ↔
        IsUndeclared engine child sub p := by
      intro p
      rw [isUndeclared_member_iff, hv]
      constructor
      · rintro (⟨-, -, h⟩ | ⟨child', sub', hfield', h, hp⟩)
        · cases h
        · obtain rfl : child = child' :=
            Option.some.inj ((Dict.get?_of_mem hkeys hfield).symm.trans (Dict.get?_of_mem hkeys hfield'))
          obtain rfl : sub = sub' := Verdict.described.inj h
          exact hp
      · exact fun h => .inr ⟨_, _, hfield, rfl, h⟩
    rw [if_neg (by simp [hown, hv]), filter_part hpart, map_textFrom_cons]
    exact hinside sub hv _
  | undeclared =>
    rw [if_pos (by simp [hown, hv]), hinner (by simp [hv])]
    rfl
  | accepted =>
    rw [if_neg (by simp [hown, hv]), hinner (by simp [hv])]
    rfl

/-- The walk reports the undeclared fields. -/
theorem paths_eq (hdistinct : value.hasDistinctKeys = true) (hplain : NeverComposed engine value schema)
    (start : String) :
    paths engine value schema start = (undeclared engine value schema).map (FieldPath.textFrom start) := by
  induction value using Value.induction generalizing schema start with
  | scalar value hl hm =>
    refine paths_eq_of_map fun node hnode => ?_
    subst hnode
    rw [undeclared, Value.fieldPaths_scalar hl hm, paths_scalar hl hm hplain.composition?]
    rfl
  | list items ih =>
    refine paths_eq_of_map fun node hnode => ?_
    subst hnode
    rw [paths_list items hplain.composition?, undeclared, Value.fieldPaths_list, List.filter_flatMap,
      List.map_flatMap]
    refine List.flatMap_congr fun item hitem => ?_
    have hget : items[item.2]? = some item.1 := List.mem_zipIdx_iff_getElem?.mp hitem
    have hmem := List.mem_of_getElem? hget
    refine itemReport_eq hget (fun sub hsub start => ?_) start
    exact ih item.1 hmem (Value.everyMap_list_iff.mp hdistinct _ hmem)
      (hplain.enter (enters_item_iff.mpr ⟨hget, hsub⟩)) start
  | map entries ih =>
    refine paths_eq_of_map fun node hnode => ?_
    subst hnode
    rw [paths_map entries hplain.composition?, undeclared, Value.fieldPaths_map, List.filter_flatMap,
      List.map_flatMap]
    refine List.flatMap_congr fun field hfield => ?_
    refine fieldReport_eq (Value.nodup_keys hdistinct) hfield (fun sub hv start => ?_) start
    exact ih field hfield ((Value.everyMap_map_iff.mp hdistinct).2 _ hfield)
      (hplain.enter (enters_member_iff.mpr ⟨hfield, hv⟩)) start

theorem IsUndeclared.mem_fieldPaths {p : FieldPath} (h : IsUndeclared engine value schema p) :
    p ∈ value.fieldPaths := by
  have item {items : List Value} {index : Nat} {child : Value} {p : FieldPath} (hitem : items[index]? = some child)
      (hp : p ∈ child.fieldPaths) : .item index :: p ∈ (Value.list items).fieldPaths :=
    Value.mem_fieldPaths_list_iff.mpr ⟨index, child, p, hitem, hp, rfl⟩
  induction h with
  | here hfield _ => exact Value.mem_fieldPaths_map_iff.mpr ⟨_, _, [], hfield, .inl rfl, rfl⟩
  | inside henter _ ih =>
    cases henter with
    | member hfield _ => exact Value.mem_fieldPaths_map_iff.mpr ⟨_, _, _, hfield, .inr ih, rfl⟩
    | inOrder hitem _ _ => exact item hitem ih
    | rest hitem _ _ => exact item hitem ih

theorem mem_undeclared_iff {p : FieldPath} :
    p ∈ undeclared engine value schema ↔ IsUndeclared engine value schema p := by
  rw [undeclared, List.mem_filter, decide_eq_true_iff, and_iff_right_iff_imp]
  exact IsUndeclared.mem_fieldPaths

end

/-- The texts of undeclared fields with readable keys are different. -/
theorem nodup_paths (hdistinct : value.hasDistinctKeys = true) (hplain : NeverComposed engine value schema)
    (hkeys : value.hasReadableKeys = true) (start : String) : (paths engine value schema start).Nodup := by
  rw [paths_eq hdistinct hplain]
  refine List.Nodup.map_on (fun p hp q hq heq => ?_) ((Value.nodup_fieldPaths hdistinct).filter _)
  have readable {p : FieldPath} (hp : p ∈ undeclared engine value schema) : p.HasReadableKeys :=
    Value.hasReadableKeys_of_mem_fieldPaths hkeys (List.mem_of_mem_filter hp)
  exact FieldPath.textFrom_inj (readable hp) (readable hq) heq

/-- The text of an undeclared field with readable keys leads to the field. -/
theorem exists_field_of_mem_paths (hdistinct : value.hasDistinctKeys = true)
    (hplain : NeverComposed engine value schema) (hkeys : value.hasReadableKeys = true) {base : FieldPath}
    (hbase : base.HasReadableKeys) {text : String} (htext : text ∈ paths engine value schema base.text) :
    ∃ p field, FieldPath.ofText? text = some (base ++ p) ∧ IsUndeclared engine value schema p ∧
      value.at? p = some field := by
  rw [paths_eq hdistinct hplain] at htext
  obtain ⟨p, hp, rfl⟩ := List.mem_map.mp htext
  have hmem := List.mem_of_mem_filter hp
  obtain ⟨field, hfield⟩ := Option.isSome_iff_exists.mp ((Value.mem_fieldPaths_iff hdistinct).mp hmem).2
  have hreadable : (base ++ p).HasReadableKeys := fun key hkey =>
    (List.mem_append.mp hkey).elim (hbase key) (Value.hasReadableKeys_of_mem_fieldPaths hkeys hmem key)
  refine ⟨p, field, ?_, mem_undeclared_iff.mp hp, hfield⟩
  rw [FieldPath.textFrom_text, FieldPath.ofText?_text hreadable]

/-- If no schema on the way is composed of others, the walk reports every undeclared field and nothing else,
each once and in document order. If keys can be told apart in paths, no two of these have one text, and from
the text of each the field is found. -/
theorem undeclared_paths_exact (hdistinct : value.hasDistinctKeys = true)
    (hplain : NeverComposed engine value schema) :
    ∃ found : List FieldPath, found.Sublist value.fieldPaths ∧ found.Nodup ∧
      (∀ p, p ∈ found ↔ IsUndeclared engine value schema p) ∧
      (∀ start, paths engine value schema start = found.map (FieldPath.textFrom start)) ∧
      (value.hasReadableKeys = true →
        (∀ start, (paths engine value schema start).Nodup) ∧
        ∀ base : FieldPath, base.HasReadableKeys → ∀ text ∈ paths engine value schema base.text,
          ∃ p field, FieldPath.ofText? text = some (base ++ p) ∧ IsUndeclared engine value schema p ∧
            value.at? p = some field) :=
  ⟨undeclared engine value schema, List.filter_sublist, (Value.nodup_fieldPaths hdistinct).filter _,
    fun _ => mem_undeclared_iff, paths_eq hdistinct hplain,
    fun hkeys => ⟨nodup_paths hdistinct hplain hkeys,
      fun _ hbase _ => exists_field_of_mem_paths hdistinct hplain hkeys hbase⟩⟩

/-- A document with a field in a list item that neither a property nor a pattern describes. -/
def orderDocument : Value :=
  .map [("lines", .list [.map [("note", .string "fragile"), ("x-id", .ofNat 7)]]), ("total", .ofNat 12)]

/-- What is said of orders: their lines, and of these only names that start with `x-`. -/
def orderSchema : Value :=
  .map [("properties", .map [("lines", .map [("items", .map [("patternProperties",
    .map [("^x-", .bool true)])])])])]

theorem undeclared_paths_orders :
    orderDocument.hasDistinctKeys = true ∧ NeverComposed .unicode orderDocument orderSchema ∧
      orderDocument.hasReadableKeys = true ∧
      ∃ found : List FieldPath, paths .unicode orderDocument orderSchema "" = found.map FieldPath.text ∧
        [.member "lines", .item 0, .member "note"] ∈ found ∧ (paths .unicode orderDocument orderSchema "").Nodup := by
  have hdistinct : orderDocument.hasDistinctKeys = true := by decide
  have hreadable : orderDocument.hasReadableKeys = true := by decide
  have hplain : NeverComposed .unicode orderDocument orderSchema := neverComposed_of_everyMap (by decide)
  obtain ⟨found, -, -, hmem, hpaths, hread⟩ := undeclared_paths_exact hdistinct hplain
  refine ⟨hdistinct, hplain, hreadable, found, hpaths "", (hmem _).mpr ?_, (hread hreadable).1 ""⟩
  refine isUndeclared_member_iff.mpr (.inr ⟨_, _, .head _, rfl, ?_⟩)
  refine isUndeclared_item_iff.mpr ⟨_, _, rfl, rfl, ?_⟩
  exact isUndeclared_member_iff.mpr (.inl ⟨rfl, ⟨_, .head _⟩, rfl⟩)

end Undeclared

end DocModel
