import DocModel.Proofs.Merging.Directives
import DocModel.Schema.Reader

/-!
# Lists of names in a schema

The keywords `required`, `type`, `dependentRequired` and `dependencies` have lists in which no name comes twice,
else a document is no schema. `NameList` finds these lists wherever a schema keyword leads to them, each under the key that it
stands under.

* `isNames_of_ofValue?`: in a document that is read as a schema all these lists are lists of different names.
* `nameList_dedupRequired_iff`: what taking repeats out of `required` lists makes of them.
-/

namespace DocModel

/-- What stands in a place of a schema document. -/
inductive Spot where
  | schema
  | schemas
  | schemaOrSchemas
  | fields
  /-- If it is a list, one of different names. -/
  | names
  /-- Lists of different names by keys. -/
  | nameLists
  /-- A schema or a list of different names. -/
  | schemaOrNames
  /-- Schemas and lists of different names by keys. -/
  | dependencies
  | other
  deriving DecidableEq

namespace Spot

/-- What stands under a keyword, given the shape that a draft asks for. -/
def ofShape (keyword : String) : Shape → Spot
  | .schema => schema
  | .schemas => schemas
  | .fields => fields
  | .schemaOrSchemas => schemaOrSchemas
  | .dependencies => dependencies
  | .plain _ =>
    if keyword = "required" ∨ keyword = "type" then names
    else if keyword = "dependentRequired" then nameLists
    else other

/-- What stands under a key of a map in this place. -/
def enter (draft : SchemaDraft) : Spot → String → Spot
  | schema, key | schemaOrSchemas, key | schemaOrNames, key => ((Shape.of? draft key).map (ofShape key)).getD other
  | fields, _ => schema
  | nameLists, _ => names
  | dependencies, _ => schemaOrNames
  | schemas, _ | names, _ | other, _ => other

/-- What the items of a list in this place are. -/
def inner : Spot → Spot
  | schemas | schemaOrSchemas => schema
  | schema | fields | names | nameLists | schemaOrNames | dependencies | other => other

/-- Whether a list in this place is one of names. -/
def listsNames : Spot → Bool
  | names | schemaOrNames => true
  | schema | schemas | schemaOrSchemas | fields | nameLists | dependencies | other => false

theorem enter_required (draft : SchemaDraft) (spot : Spot) : (spot.enter draft "required").inner = other := by
  cases spot <;> rfl

end Spot

/-- The lists of names in a value that stands in such a place, each with the key that it stands under. -/
inductive NameList (draft : SchemaDraft) : Spot → Value → String → List Value → Prop
  | here {spot : Spot} {entries : Fields} {key : String} {items : List Value}
    (hspot : (spot.enter draft key).listsNames = true) (hget : Dict.get? entries key = some (.list items)) :
    NameList draft spot (.map entries) key items
  | entry {spot : Spot} {entries : Fields} {name key : String} {v : Value} {items : List Value}
    (hget : Dict.get? entries name = some v) (h : NameList draft (spot.enter draft name) v key items) :
    NameList draft spot (.map entries) key items
  | item {spot : Spot} {values : List Value} {v : Value} {key : String} {items : List Value} (hv : v ∈ values)
    (h : NameList draft spot.inner v key items) : NameList draft spot (.list values) key items

/-- Different names. -/
structure IsNames (items : List Value) : Prop where
  strings : ∀ v ∈ items, ∃ s, v = .string s
  nodup : items.Nodup

variable {draft : SchemaDraft} {spot : Spot} {v : Value} {key : String} {items : List Value}

/-- Where nothing is read there are no lists of names. -/
theorem not_nameList_other : ¬ NameList draft .other v key items := by
  intro h
  generalize hspot : Spot.other = spot at h
  induction h with
  | here hnames => subst hspot; cases hnames
  | entry _ _ ih => subst hspot; exact ih rfl
  | item _ _ ih => subst hspot; exact ih rfl

/-! ## Reading -/

theorem isSome_of_mapM {α β : Type} {f : α → Option β} {xs : List α} (h : (xs.mapM f).isSome = true) :
    ∀ x ∈ xs, (f x).isSome = true := by
  induction xs with
  | nil => exact nofun
  | cons x xs ih =>
    rw [List.mapM_cons] at h
    cases hx : f x with
    | none => rw [hx] at h; cases h
    | some y =>
      cases hxs : xs.mapM f with
      | none => rw [hx, hxs] at h; cases h
      | some ys => exact List.forall_mem_cons.mpr ⟨by rw [hx]; rfl, ih (by rw [hxs]; rfl)⟩

theorem isSome_of_bind_map {α β γ : Type} {o : Option α} {p : Option β} {f : α → β → γ}
    (h : (o.bind fun a => p.map (f a)).isSome = true) : p.isSome = true ∧ o.isSome = true := by
  cases o with
  | none => cases h
  | some a => exact ⟨by rwa [Option.bind_some, Option.isSome_map] at h, rfl⟩

theorem nodup_of_allDifferent {items : List Value} (hstrings : ∀ v ∈ items, ∃ s, v = .string s)
    (h : Value.allDifferent items = true) : items.Nodup := by
  induction items with
  | nil => exact List.nodup_nil
  | cons x xs ih =>
    obtain ⟨⟨s, rfl⟩, hxs⟩ := List.forall_mem_cons.mp hstrings
    rw [Value.allDifferent, Bool.and_eq_true, Bool.not_eq_true', List.any_eq_false] at h
    refine List.nodup_cons.mpr ⟨fun hmem => h.1 _ hmem ?_, ih hxs h.2⟩
    exact beq_self_eq_true s

theorem isNames_of_names? (h : (Shape.names? (.list items)).isSome = true) : IsNames items := by
  rw [Shape.names?] at h
  cases hnames : items.mapM Value.string? with
  | none => rw [hnames] at h; cases h
  | some names =>
    have hstrings : ∀ v ∈ items, ∃ s, v = .string s := by
      intro v hv
      have hstring := isSome_of_mapM (Option.isSome_of_eq_some hnames) v hv
      cases v <;> cases hstring
      exact ⟨_, rfl⟩
    rw [hnames] at h
    dsimp only at h
    split at h
    · next hdifferent => exact ⟨hstrings, nodup_of_allDifferent hstrings hdifferent⟩
    · cases h

/-- The value is read as what stands in the place. -/
def Spot.Fits (draft : SchemaDraft) : Spot → Value → Prop
  | schema, v => (Schema.ofValue? draft v).isSome = true
  | schemas, v => ∃ items, v = .list items ∧ (readSchemas? draft items).isSome = true
  | schemaOrSchemas, v =>
    (Schema.ofValue? draft v).isSome = true ∨ ∃ items, v = .list items ∧ (readSchemas? draft items).isSome = true
  | fields, v => ∃ entries, v = .map entries ∧ (readFields? draft entries).isSome = true
  | names, v => ∀ items, v = .list items → IsNames items
  | nameLists, v => (Shape.nameLists? v).isSome = true
  | schemaOrNames, v => (Schema.ofValue? draft v).isSome = true ∨ (Shape.names? v).isSome = true
  | dependencies, v => ∃ entries, v = .map entries ∧ (readDependencies? draft entries).isSome = true
  | other, _ => True

theorem fits_of_plain {fits : Value → Bool} {name : String} (hshape : Shape.of? draft name = some (.plain fits))
    (h : fits v = true) : (Spot.ofShape name (.plain fits)).Fits draft v := by
  rw [Spot.ofShape]
  split
  · next hname =>
    rintro items rfl
    refine isNames_of_names? ?_
    rcases hname with rfl | rfl
    · cases hshape
      exact h
    · cases hshape
      have htypes : (Shape.types? (.list items)).isSome = true := h
      rw [Shape.types?.eq_def] at htypes
      dsimp only at htypes
      cases hnames : Shape.names? (.list items) with
      | none => rw [hnames] at htypes; cases htypes
      | some names => rfl
  split
  · next hname =>
    subst hname
    cases draft <;> cases hshape
    exact h
  · trivial

theorem fits_of_readKeywords? {entries : Fields} (h : (readKeywords? draft entries).isSome = true) :
    ∀ e ∈ entries, (Spot.schema.enter draft e.1).Fits draft e.2 := by
  induction entries with
  | nil => exact nofun
  | cons e rest ih =>
    obtain ⟨name, v⟩ := e
    suffices hentry : (readKeywords? draft rest).isSome = true ∧ (Spot.schema.enter draft name).Fits draft v from
      List.forall_mem_cons.mpr ⟨hentry.2, ih hentry.1⟩
    rw [readKeywords?.eq_def] at h
    dsimp only at h
    rw [Spot.enter]
    split at h
    · next hshape =>
      rw [hshape]
      exact ⟨h, trivial⟩
    · next hshape =>
      rw [hshape]
      split at h
      · next hfits => exact ⟨by rwa [Option.isSome_map] at h, fits_of_plain hshape hfits⟩
      · cases h
    · next fields hshape =>
      obtain ⟨hmore, hfields⟩ := isSome_of_bind_map h
      rw [hshape]
      exact ⟨hmore, fields, rfl, hfields⟩
    · cases h
    · next members hshape =>
      obtain ⟨hmore, hmembers⟩ := isSome_of_bind_map h
      rw [hshape]
      exact ⟨hmore, members, rfl, hmembers⟩
    · cases h
    · next item items hshape =>
      obtain ⟨hmore, hitems⟩ := isSome_of_bind_map h
      rw [hshape]
      exact ⟨hmore, item :: items, rfl, hitems⟩
    · cases h
    · next item items hshape =>
      obtain ⟨hmore, hitems⟩ := isSome_of_bind_map h
      rw [hshape]
      exact ⟨hmore, .inr ⟨item :: items, rfl, hitems⟩⟩
    · next hshape _ =>
      obtain ⟨hmore, hone⟩ := isSome_of_bind_map h
      rw [hshape]
      exact ⟨hmore, .inl hone⟩
    · next hshape =>
      obtain ⟨hmore, hone⟩ := isSome_of_bind_map h
      rw [hshape]
      exact ⟨hmore, hone⟩

theorem fits_of_ofValue? {entries : Fields} (h : (Schema.ofValue? draft (.map entries)).isSome = true) :
    ∀ e ∈ entries, (Spot.schema.enter draft e.1).Fits draft e.2 := by
  rw [Schema.ofValue?, Option.isSome_map] at h
  exact fits_of_readKeywords? h

theorem isSome_of_readSchemas? {schemas : List Value} (h : (readSchemas? draft schemas).isSome = true) :
    ∀ v ∈ schemas, (Schema.ofValue? draft v).isSome = true := by
  induction schemas with
  | nil => exact nofun
  | cons v rest ih =>
    rw [readSchemas?] at h
    obtain ⟨hrest, hv⟩ := isSome_of_bind_map h
    exact List.forall_mem_cons.mpr ⟨hv, ih hrest⟩

theorem isSome_of_readFields? {fields : Fields} (h : (readFields? draft fields).isSome = true) :
    ∀ e ∈ fields, (Schema.ofValue? draft e.2).isSome = true := by
  intro e he
  rw [readFields?_eq_mapM] at h
  simpa using isSome_of_mapM h e he

theorem isSome_of_readDependencies? {members : Fields} (h : (readDependencies? draft members).isSome = true) :
    ∀ e ∈ members, Spot.schemaOrNames.Fits draft e.2 := by
  intro e he
  rw [readDependencies?_eq_mapM] at h
  have hread := isSome_of_mapM h e he
  rw [Option.isSome_map, Option.isSome_or, Option.isSome_map, Bool.or_eq_true] at hread
  exact hread.symm

/-- What stands under a key of a map is read too. -/
theorem Spot.Fits.enter {entries : Fields} (h : spot.Fits draft (.map entries)) {name : String}
    (hget : Dict.get? entries name = some v) : (spot.enter draft name).Fits draft v := by
  have hmem := Dict.mem_of_get? hget
  cases spot with
  | schema => exact fits_of_ofValue? h _ hmem
  | schemaOrSchemas =>
    rcases h with h | ⟨_, heq, -⟩
    · exact fits_of_ofValue? h _ hmem
    · cases heq
  | fields =>
    obtain ⟨_, heq, h⟩ := h
    cases heq
    exact isSome_of_readFields? h _ hmem
  | dependencies =>
    obtain ⟨_, heq, h⟩ := h
    cases heq
    exact isSome_of_readDependencies? h _ hmem
  | schemaOrNames =>
    rcases h with h | h
    · exact fits_of_ofValue? h _ hmem
    · cases h
  | nameLists =>
    rintro items rfl
    have hlists : (Shape.nameLists? (.map entries)).isSome = true := h
    rw [Shape.nameLists?] at hlists
    have hnames := isSome_of_mapM hlists _ hmem
    rw [Option.isSome_map] at hnames
    exact isNames_of_names? hnames
  | schemas | names | other => trivial

/-- So are the items of a list. -/
theorem Spot.Fits.inner {values : List Value} (h : spot.Fits draft (.list values)) (hv : v ∈ values) :
    spot.inner.Fits draft v := by
  cases spot with
  | schemas =>
    obtain ⟨_, heq, h⟩ := h
    cases heq
    exact isSome_of_readSchemas? h _ hv
  | schemaOrSchemas =>
    rcases h with h | ⟨_, heq, h⟩
    · cases h
    · cases heq
      exact isSome_of_readSchemas? h _ hv
  | schema | fields | names | nameLists | schemaOrNames | dependencies | other => trivial

/-- In a place for names, what is read is a list of different names if it is a list. -/
theorem Spot.Fits.isNames (h : spot.Fits draft (.list items)) (hspot : spot.listsNames = true) : IsNames items := by
  cases spot with
  | names => exact h _ rfl
  | schemaOrNames =>
    rcases h with h | h
    · cases h
    · exact isNames_of_names? h
  | _ => cases hspot

theorem isNames_of_fits (hlist : NameList draft spot v key items) (h : spot.Fits draft v) : IsNames items := by
  -- On the way to a list everything is read as what stands in its place.
  induction hlist with
  | here hspot hget => exact (h.enter hget).isNames hspot
  | entry hget _ ih => exact ih (h.enter hget)
  | item hv _ ih => exact ih (h.inner hv)

/-- In a document that is read as a schema, all lists of names are lists of different names. -/
theorem isNames_of_ofValue? (h : (Schema.ofValue? draft v).isSome = true)
    (hlist : NameList draft .schema v key items) : IsNames items := isNames_of_fits hlist h

/-! ## Repeats -/

namespace Value

/-- What is left of a list of names when repeats are taken out under `required`. -/
def repaired (key : String) (items : List Value) : List Value :=
  if key = "required" then distinct items else items.map dedupRequired

theorem dedupEntry_of_ne {key : String} (h : key ≠ "required") (v : Value) : dedupEntry key v = v.dedupRequired := by
  rw [dedupEntry.eq_def, beq_eq_false_iff_ne.mpr h]

theorem dedupEntry_list (key : String) (items : List Value) :
    dedupEntry key (list items) = list (repaired key items) := by
  by_cases h : key = "required"
  · subst h
    rfl
  · rw [dedupEntry_of_ne h, repaired, if_neg h, dedupRequired, dedupRequiredItems_eq_map]

theorem eq_list_of_dedupEntry {key : String} (h : dedupEntry key v = list items) :
    ∃ all, v = list all ∧ items = repaired key all := by
  cases v with
  | list all =>
    rw [dedupEntry_list] at h
    exact ⟨all, rfl, (list.inj h).symm⟩
  | _ =>
    rw [dedupEntry.eq_def] at h
    split at h
    · next hlist => cases hlist
    · cases h

theorem get?_dedupRequired (entries : Fields) (key : String) :
    Dict.get? (dedupRequiredEntries entries) key = (Dict.get? entries key).map (dedupEntry key) := by
  rw [dedupRequiredEntries_eq_mapEntries, Dict.get?_mapEntries]

/-- Below a key `required` there are lists of names in a map only, which is not one of them. -/
theorem dedupEntry_of_nameList {name : String}
    (h : NameList draft (spot.enter draft name) v key items ∨
      NameList draft (spot.enter draft name) (dedupEntry name v) key items) :
    dedupEntry name v = v.dedupRequired := by
  by_cases hname : name = "required"
  · subst hname
    cases v with
    | list values =>
      have hinner := spot.enter_required draft
      rcases h with h | h <;> cases h with
      | item _ h =>
        rw [hinner] at h
        exact absurd h not_nameList_other
    | _ => rfl
  · exact dedupEntry_of_ne hname v

end Value

theorem nameList_dedupRequired (h : NameList draft spot v key items) :
    NameList draft spot v.dedupRequired key (Value.repaired key items) := by
  induction h with
  | here hspot hget =>
    refine .here hspot ?_
    rw [Value.get?_dedupRequired, hget, Option.map_some, Value.dedupEntry_list]
  | entry hget h ih =>
    refine .entry ?_ ih
    rw [Value.get?_dedupRequired, hget, Option.map_some, Value.dedupEntry_of_nameList (.inl h)]
  | item hv _ ih =>
    rw [Value.dedupRequired, Value.dedupRequiredItems_eq_map]
    exact .item (List.mem_map_of_mem hv) ih

/-- Taking repeats out leaves the lists where they are. -/
theorem nameList_dedupRequired_iff :
    NameList draft spot v.dedupRequired key items ↔
      ∃ all, NameList draft spot v key all ∧ items = Value.repaired key all := by
  constructor
  · intro h
    generalize hw : v.dedupRequired = w at h
    induction h generalizing v with
    | here hspot hget =>
      cases v <;> cases hw
      rw [Value.get?_dedupRequired, Option.map_eq_some_iff] at hget
      obtain ⟨w, hget, hlist⟩ := hget
      obtain ⟨all, rfl, rfl⟩ := Value.eq_list_of_dedupEntry hlist
      exact ⟨all, .here hspot hget, rfl⟩
    | entry hget h ih =>
      cases v <;> cases hw
      rw [Value.get?_dedupRequired, Option.map_eq_some_iff] at hget
      obtain ⟨w, hget, rfl⟩ := hget
      obtain ⟨all, hall, rfl⟩ := ih (Value.dedupEntry_of_nameList (.inr h)).symm
      exact ⟨all, .entry hget hall, rfl⟩
    | item hv h ih =>
      cases v <;> cases hw
      rw [Value.dedupRequiredItems_eq_map] at hv
      obtain ⟨w, hw, rfl⟩ := List.mem_map.mp hv
      obtain ⟨all, hall, rfl⟩ := ih rfl
      exact ⟨all, .item hw hall, rfl⟩
  · rintro ⟨all, h, rfl⟩
    exact nameList_dedupRequired h

end DocModel
