import DocModel.Proofs.Schema.FailurePlaces
import DocModel.Value.Size

/-!
# Where the schemas of documents fail

A schema that is read from a document fails at places of this document. The keywords of a schema are read one by
one, some with others beside them; the schemas under a keyword come from smaller documents, and a reference stands
for what is read from the place that it leads to.

* `keyword?_failsIn`: what one keyword is read as fails at places of the document.
* `failsAt_of_ofValue?`: so does all of a document, by induction on its size.
* `SchemaEngine.standard_reportsPlaces`: so does all that the standard engine compiles.
-/

namespace DocModel

/-! ## Readings -/

namespace Schema

variable {draft : SchemaDraft} {ctx : SchemaContext} {root v : Value} {entries : Fields}

/-- The check of a schema fails at places of the document `v`. -/
def FailsAt (ctx : SchemaContext) (root v : Value) (s : Schema) : Prop := (s.check ctx).FailsIn (Locates root v)

theorem fieldChecks_eq (ctx : SchemaContext) (schemas : List (String × Schema)) :
    fieldChecks ctx schemas = schemas.map fun e => (e.1, e.2.check ctx) := by
  induction schemas with
  | nil => rfl
  | cons e rest ih => rw [fieldChecks, ih, List.map_cons]

theorem schemaChecks_eq (ctx : SchemaContext) (schemas : List Schema) :
    schemaChecks ctx schemas = schemas.map (Schema.check ctx) := by
  induction schemas with
  | nil => rfl
  | cons s rest ih => rw [schemaChecks, ih, List.map_cons]

theorem keywordChecks_eq (ctx : SchemaContext) (keywords : List Keyword) :
    keywordChecks ctx keywords = keywords.map (Keyword.check ctx) := by
  induction keywords with
  | nil => rfl
  | cons k rest ih => rw [keywordChecks, ih, List.map_cons]

/-- The schema asks for the names in a list. -/
def IsNamesOf (w : Value) (s : Schema) : Prop := ∃ items names, w = .list items ∧ s = .ofNames names

theorem isNamesOf_of_names? {names : List String} (h : Shape.names? v = some names) : IsNamesOf v (.ofNames names) := by
  rw [Shape.names?.eq_def] at h
  split at h
  · exact ⟨_, names, rfl, rfl⟩
  · cases h

/-- Names that are missing are missed where they are asked for. -/
theorem check_ofNames_failsIn (ctx : SchemaContext) (names : List String) :
    ((ofNames names).check ctx).FailsIn (· = []) := by
  intro x f hf
  obtain ⟨check, hcheck, hf⟩ := List.mem_flatMap.mp hf
  obtain rfl := List.mem_singleton.mp hcheck
  exact Rules.required_failsIn (Q := (· = [])) rfl names x f hf

/-- What was read from the value of a keyword fails at places of this value. -/
def PartFails (ctx : SchemaContext) (root v : Value) : KeywordPart → Prop
  | .one s => FailsAt ctx root v s
  | .many schemas => ∃ vs, v = .list vs ∧ ∀ (i : Nat) (s : Schema), schemas[i]? = some s →
      ∃ w, vs[i]? = some w ∧ FailsAt ctx root w s
  | .fields schemas => ∃ fields, v = .map fields ∧ ∀ e ∈ schemas, ∃ w, (e.1, w) ∈ fields ∧ FailsAt ctx root w e.2
  | .dependencies schemas => ∃ fields, v = .map fields ∧ ∀ e ∈ schemas, ∃ w, (e.1, w) ∈ fields ∧
      (FailsAt ctx root w e.2 ∨ IsNamesOf w e.2)
  | .plain w => w = v

/-- Readings of keywords of a schema document. -/
def ReadingsFail (ctx : SchemaContext) (root : Value) (entries : Fields) (readings : List KeywordReading) : Prop :=
  ∀ r ∈ readings, (r.name, r.source) ∈ entries ∧ PartFails ctx root r.source r.part

/-- What references stand for fails at places of what they lead to. -/
def ReferencesFail (ctx : SchemaContext) (root : Value) : Prop :=
  ∀ target, (ctx.resolve target).FailsIn fun l => ∃ w, Pointer.target? root target = some w ∧ Locates root w l

variable {readings : List KeywordReading}

theorem mem_of_find? {k : String} {part : KeywordPart} (h : KeywordReading.find? readings k = some part) :
    ∃ r ∈ readings, r.name = k ∧ r.part = part := by
  obtain ⟨r, hr, rfl⟩ := Option.map_eq_some_iff.mp h
  exact ⟨r, List.mem_of_find?_eq_some hr, by simpa using List.find?_some hr, rfl⟩

theorem ReadingsFail.one? (h : ReadingsFail ctx root entries readings) {k : String} {s : Schema}
    (hs : KeywordReading.one? readings k = some s) : ∃ w, (k, w) ∈ entries ∧ FailsAt ctx root w s := by
  rw [KeywordReading.one?] at hs
  split at hs
  · next part hpart =>
    cases hs
    obtain ⟨r, hr, rfl, hone⟩ := mem_of_find? hpart
    obtain ⟨hmem, hfails⟩ := h r hr
    rw [hone] at hfails
    exact ⟨r.source, hmem, hfails⟩
  · cases hs

theorem ReadingsFail.fields? (h : ReadingsFail ctx root entries readings) {k : String}
    {schemas : List (String × Schema)} (hs : KeywordReading.fields? readings k = some schemas) :
    ∃ fields, (k, .map fields) ∈ entries ∧ ∀ e ∈ schemas, ∃ w, (e.1, w) ∈ fields ∧ FailsAt ctx root w e.2 := by
  rw [KeywordReading.fields?] at hs
  split at hs
  · next part hpart =>
    cases hs
    obtain ⟨r, hr, rfl, hone⟩ := mem_of_find? hpart
    obtain ⟨hmem, hfails⟩ := h r hr
    rw [hone] at hfails
    obtain ⟨fields, hsource, hfields⟩ := hfails
    exact ⟨fields, hsource ▸ hmem, hfields⟩
  · cases hs

/-! ### Parts of one keyword -/

theorem under_failsIn {k : String} (hk : k ∈ schemaKeywords) {w : Value} (h : (k, w) ∈ entries) {s : Schema}
    (hs : FailsAt ctx root w s) : (s.check ctx).FailsIn fun l => Locates root (.map entries) (k :: l) :=
  fun x f hf => .under h hk (hs x f hf)

/-- Members that are schemas fail where these do, and members that ask for names where they stand. -/
theorem membersOrNames_failIn {k : String} {fields : Fields} (h : (k, .map fields) ∈ entries)
    {schemas : List (String × Schema)} (hs : ∀ e ∈ schemas, ∃ w, (e.1, w) ∈ fields ∧
      (k ∈ memberKeywords ∧ FailsAt ctx root w e.2 ∨ k ∈ dependencyKeywords ∧ IsNamesOf w e.2)) :
    Rules.MembersFailIn (Locates root (.map entries)) k (fieldChecks ctx schemas) := by
  intro entry hentry x f hf
  rw [fieldChecks_eq] at hentry
  obtain ⟨e, he, rfl⟩ := List.mem_map.mp hentry
  obtain ⟨w, hw, ⟨hk, hfails⟩ | ⟨hk, items, names, rfl, hnames⟩⟩ := hs e he
  · exact .member h hk hw (hfails x f hf)
  · have hlocation := check_ofNames_failsIn ctx names x f (hnames ▸ hf)
    rw [hlocation]
    exact .dependent h hk hw

theorem members_failIn {k : String} (hk : k ∈ memberKeywords) {fields : Fields} (h : (k, .map fields) ∈ entries)
    {schemas : List (String × Schema)} (hs : ∀ e ∈ schemas, ∃ w, (e.1, w) ∈ fields ∧ FailsAt ctx root w e.2) :
    Rules.MembersFailIn (Locates root (.map entries)) k (fieldChecks ctx schemas) := by
  refine membersOrNames_failIn h fun e he => ?_
  obtain ⟨w, hw, hfails⟩ := hs e he
  exact ⟨w, hw, .inl ⟨hk, hfails⟩⟩

theorem branches_failIn {k : String} (hk : k ∈ branchKeywords) {vs : List Value} (h : (k, .list vs) ∈ entries)
    {schemas : List Schema} (hs : ∀ (i : Nat) (s : Schema), schemas[i]? = some s →
      ∃ w, vs[i]? = some w ∧ FailsAt ctx root w s) :
    Rules.BranchesFailIn (Locates root (.map entries)) k (schemaChecks ctx schemas) := by
  intro i check hcheck x f hf
  rw [schemaChecks_eq, List.getElem?_map] at hcheck
  obtain ⟨s, hi, rfl⟩ := Option.map_eq_some_iff.mp hcheck
  obtain ⟨w, hw, hfails⟩ := hs i s hi
  exact .branch h hk hw (hfails x f hf)

/-- Properties and patterns that are judged with a keyword beside them. -/
theorem ReadingsFail.members (h : ReadingsFail ctx root entries readings) {k : String} (hk : k ∈ memberKeywords) :
    Rules.MembersFailIn (Locates root (.map entries)) k
      (fieldChecks ctx ((KeywordReading.fields? readings k).getD [])) := by
  cases hfields : KeywordReading.fields? readings k with
  | none => exact nofun
  | some schemas =>
    obtain ⟨fields, hmem, hs⟩ := h.fields? hfields
    exact members_failIn hk hmem hs

/-- A branch of a conditional; one that is missing accepts everything. -/
theorem ReadingsFail.branch (h : ReadingsFail ctx root entries readings) {k : String} (hk : k ∈ schemaKeywords) :
    (((KeywordReading.one? readings k).getD (.fixed true)).check ctx).FailsIn fun l =>
      Locates root (.map entries) (k :: l) := by
  cases hone : KeywordReading.one? readings k with
  | none => exact nofun
  | some s =>
    obtain ⟨w, hmem, hs⟩ := h.one? hone
    exact under_failsIn hk hmem hs

/-! ### Keywords -/

theorem mem_supportedKeywords_count (limit : CountLimit) : limit.keyword ∈ supportedKeywords := by
  obtain ⟨measure, least, _⟩ := limit
  cases measure <;> cases least <;> exact of_decide_eq_true rfl

theorem exists_of_mem_mapM {α β : Type} {g : α → Option β} {xs : List α} {ys : List β} (h : xs.mapM g = some ys)
    {y : β} (hy : y ∈ ys) : ∃ x ∈ xs, g x = some y := by
  induction xs generalizing ys with
  | nil =>
    cases h
    cases hy
  | cons x rest ih =>
    rw [List.mapM_cons] at h
    obtain ⟨z, hz, h⟩ := Option.bind_eq_some_iff.mp h
    obtain ⟨zs, hzs, h⟩ := Option.bind_eq_some_iff.mp h
    cases h
    rcases List.mem_cons.mp hy with rfl | hy
    · exact ⟨x, List.mem_cons_self, hz⟩
    · obtain ⟨w, hw, hgw⟩ := ih hzs hy
      exact ⟨w, List.mem_cons_of_mem x hw, hgw⟩

theorem nameLists_failIn {lists : List (String × List String)} (h : ("dependentRequired", v) ∈ entries)
    (hlists : Shape.nameLists? v = some lists) :
    Rules.MembersFailIn (Locates root (.map entries)) "dependentRequired"
      (fieldChecks ctx (lists.map fun entry => (entry.1, ofNames entry.2))) := by
  rw [Shape.nameLists?.eq_def] at hlists
  split at hlists
  · next fields =>
    refine membersOrNames_failIn h fun e he => ?_
    obtain ⟨entry, hentry, rfl⟩ := List.mem_map.mp he
    obtain ⟨⟨n, w⟩, hmem, hread⟩ := exists_of_mem_mapM hlists hentry
    obtain ⟨names, hnames, rfl⟩ := Option.map_eq_some_iff.mp hread
    exact ⟨w, hmem, .inr ⟨by decide, isNamesOf_of_names? hnames⟩⟩
  · cases hlists

theorem plainKeyword_failsIn (hrefs : ReferencesFail ctx root) {name : String} {k : Keyword} (h : (name, v) ∈ entries)
    (hk : KeywordReading.plainKeyword draft name v = some k) : (k.check ctx).FailsIn (Locates root (.map entries)) := by
  rw [KeywordReading.plainKeyword.eq_def] at hk
  split at hk
  · obtain ⟨names, -, rfl⟩ := Option.map_eq_some_iff.mp hk
    exact Rules.types_failsIn (.keyword h (by decide)) names
  · cases hk
    exact Rules.enum_failsIn (.keyword h (by decide)) _
  · cases hk
    exact Rules.const_failsIn (.keyword h (by decide)) _
  · cases hk
    exact Rules.bound_failsIn (.keyword h (by decide)) _
  · cases hk
    exact Rules.bound_failsIn (.keyword h (by decide)) _
  · cases hk
    exact Rules.bound_failsIn (.keyword h (by decide)) _
  · cases hk
    exact Rules.bound_failsIn (.keyword h (by decide)) _
  · cases hk
    exact Rules.multipleOf_failsIn (.keyword h (by decide)) _
  · obtain ⟨n, -, rfl⟩ := Option.map_eq_some_iff.mp hk
    exact Rules.count_failsIn (.keyword h (mem_supportedKeywords_count _))
  · obtain ⟨n, -, rfl⟩ := Option.map_eq_some_iff.mp hk
    exact Rules.count_failsIn (.keyword h (mem_supportedKeywords_count _))
  · obtain ⟨n, -, rfl⟩ := Option.map_eq_some_iff.mp hk
    exact Rules.count_failsIn (.keyword h (mem_supportedKeywords_count _))
  · obtain ⟨n, -, rfl⟩ := Option.map_eq_some_iff.mp hk
    exact Rules.count_failsIn (.keyword h (mem_supportedKeywords_count _))
  · obtain ⟨n, -, rfl⟩ := Option.map_eq_some_iff.mp hk
    exact Rules.count_failsIn (.keyword h (mem_supportedKeywords_count _))
  · obtain ⟨n, -, rfl⟩ := Option.map_eq_some_iff.mp hk
    exact Rules.count_failsIn (.keyword h (mem_supportedKeywords_count _))
  · cases hk
    exact Rules.pattern_failsIn (.keyword h (by decide)) _ _
  · cases hk
    exact Rules.uniqueItems_failsIn (.keyword h (by decide))
  · obtain ⟨names, -, rfl⟩ := Option.map_eq_some_iff.mp hk
    exact Rules.required_failsIn (.keyword h (by decide)) names
  · split at hk
    · obtain ⟨lists, hlists, rfl⟩ := Option.map_eq_some_iff.mp hk
      exact Rules.dependencies_failsIn (nameLists_failIn h hlists)
    · cases hk
  · next target =>
    cases hk
    intro x f hf
    refine Rules.of_mem_within (fun y g hg => ?_) hf
    obtain ⟨w, hw, hlocates⟩ := hrefs target y g hg
    exact .ref h hw hlocates
  · cases hk

theorem additionalProperties_failsIn (h : ReadingsFail ctx root entries readings) {s : Schema}
    (hmem : ("additionalProperties", v) ∈ entries) (hs : FailsAt ctx root v s) {k : Keyword}
    (hk : KeywordReading.additionalProperties readings s = some k) :
    (k.check ctx).FailsIn (Locates root (.map entries)) := by
  have hproperties : "properties" ∈ memberKeywords := by decide
  have hpatterns : "patternProperties" ∈ memberKeywords := by decide
  rw [KeywordReading.additionalProperties.eq_def] at hk
  split at hk
  · cases hk
  · split at hk
    · cases hk
      exact Rules.noMembers_failsIn (.keyword hmem (by decide))
    · cases hk
      exact Rules.closedMembers_failsIn _ (h.members hproperties) (h.members hpatterns) (.keyword hmem (by decide))
  · cases hk
    exact Rules.otherMembers_failsIn _ (h.members hproperties) (h.members hpatterns)
      (under_failsIn (by decide) hmem hs)

theorem propertyNames_failsIn {s : Schema} (hmem : ("propertyNames", v) ∈ entries) (hs : FailsAt ctx root v s) :
    ((Keyword.propertyNames s).check ctx).FailsIn (Locates root (.map entries)) := by
  have hunder : (s.check ctx).FailsIn fun l => Locates root (.map entries) ("propertyNames" :: l) :=
    under_failsIn (by decide) hmem hs
  cases s with
  | fixed accepts =>
    cases accepts with
    | false => exact Rules.noNames_failsIn (.keyword hmem (by decide))
    | true => exact Rules.propertyNames_failsIn hunder
  | all keywords => exact Rules.propertyNames_failsIn hunder

/-- What a keyword is read as fails at places of the document. -/
theorem keyword?_failsIn (hrefs : ReferencesFail ctx root) (h : ReadingsFail ctx root entries readings)
    {r : KeywordReading} (hr : r ∈ readings) {k : Keyword} (hk : KeywordReading.keyword? draft readings r = some k) :
    (k.check ctx).FailsIn (Locates root (.map entries)) := by
  obtain ⟨hmem, hpart⟩ := h r hr
  obtain ⟨name, source, part⟩ := r
  rw [KeywordReading.keyword?.eq_def] at hk
  dsimp only at hmem hpart hk
  split at hk
  · obtain rfl : _ = source := hpart
    exact plainKeyword_failsIn hrefs hmem hk
  · obtain ⟨fields, rfl, hs⟩ := hpart
    split at hk
    · cases hk
    · cases hk
      exact Rules.properties_failsIn (members_failIn (by decide) hmem hs)
  · obtain ⟨fields, rfl, hs⟩ := hpart
    split at hk
    · cases hk
    · cases hk
      exact Rules.patternProperties_failsIn _ (members_failIn (by decide) hmem hs)
  · exact additionalProperties_failsIn h hmem hpart hk
  · cases hk
    exact propertyNames_failsIn hmem hpart
  · obtain ⟨fields, rfl, hs⟩ := hpart
    cases hk
    exact Rules.dependencies_failsIn (members_failIn (by decide) hmem hs)
  · obtain ⟨fields, rfl, hs⟩ := hpart
    cases hk
    refine Rules.dependencies_failsIn (membersOrNames_failIn hmem fun e he => ?_)
    obtain ⟨w, hw, hfails⟩ := hs e he
    exact ⟨w, hw, hfails.imp (fun h => ⟨by decide, h⟩) fun h => ⟨by decide, h⟩⟩
  · cases hk
    exact Rules.items_failsIn (under_failsIn (by decide) hmem hpart) _
  · obtain ⟨vs, rfl, hs⟩ := hpart
    cases hk
    exact Rules.itemsInOrder_failsIn (branches_failIn (by decide) hmem hs)
  · obtain ⟨vs, rfl, hs⟩ := hpart
    cases hk
    exact Rules.itemsInOrder_failsIn (branches_failIn (by decide) hmem hs)
  · split at hk
    · cases hk
      exact Rules.noAdditionalItems_failsIn (.keyword hmem (by decide)) _
    · cases hk
      exact Rules.items_failsIn (under_failsIn (by decide) hmem hpart) _
    · cases hk
  · cases hk
    exact Rules.contains_failsIn (.keyword hmem (by decide)) _
  · cases hk
    exact Rules.anyOf_failsIn (.keyword hmem (by decide)) _
  · cases hk
    exact Rules.oneOf_failsIn (.keyword hmem (by decide)) _
  · obtain ⟨vs, rfl, hs⟩ := hpart
    cases hk
    exact Rules.allOf_failsIn (branches_failIn (by decide) hmem hs)
  · cases hk
    exact Rules.not_failsIn (.keyword hmem (by decide)) _ _
  · rw [KeywordReading.conditional] at hk
    split at hk
    · cases hk
    · cases hk
      exact Rules.conditional_failsIn (h.branch (by decide)) (h.branch (by decide))
  · cases hk

/-! ### Documents -/

theorem mem_readSchemas? {vs : List Value} {schemas : List Schema} (h : readSchemas? draft vs = some schemas) {i : Nat}
    {s : Schema} (hs : schemas[i]? = some s) : ∃ w, vs[i]? = some w ∧ Schema.ofValue? draft w = some s := by
  induction vs generalizing schemas i with
  | nil =>
    cases h
    cases hs
  | cons w rest ih =>
    rw [readSchemas?] at h
    obtain ⟨first, hfirst, h⟩ := Option.bind_eq_some_iff.mp h
    obtain ⟨later, hlater, rfl⟩ := Option.map_eq_some_iff.mp h
    cases i with
    | zero =>
      cases hs
      exact ⟨w, rfl, hfirst⟩
    | succ i => exact ih hlater hs

theorem mem_readFields? {fields : Fields} {schemas : List (String × Schema)}
    (h : readFields? draft fields = some schemas) {e : String × Schema} (he : e ∈ schemas) :
    ∃ w, (e.1, w) ∈ fields ∧ Schema.ofValue? draft w = some e.2 := by
  rw [readFields?_eq_mapM] at h
  obtain ⟨⟨name, w⟩, hmem, hread⟩ := exists_of_mem_mapM h he
  obtain ⟨s, hs, rfl⟩ := Option.map_eq_some_iff.mp hread
  exact ⟨w, hmem, hs⟩

theorem mem_readDependencies? {members : Fields} {schemas : List (String × Schema)}
    (h : readDependencies? draft members = some schemas) {e : String × Schema} (he : e ∈ schemas) :
    ∃ w, (e.1, w) ∈ members ∧ (Schema.ofValue? draft w = some e.2 ∨ IsNamesOf w e.2) := by
  rw [readDependencies?_eq_mapM] at h
  obtain ⟨⟨name, w⟩, hmem, hread⟩ := exists_of_mem_mapM h he
  obtain ⟨s, hs, rfl⟩ := Option.map_eq_some_iff.mp hread
  refine ⟨w, hmem, ?_⟩
  rcases Option.or_eq_some_iff.mp hs with hnames | ⟨-, hschema⟩
  · obtain ⟨names, hnames, heq⟩ := Option.map_eq_some_iff.mp hnames
    exact .inr (heq ▸ isNamesOf_of_names? hnames)
  · exact .inl hschema

/-- How the part of a reading comes from the value of its keyword. -/
def PartReads (draft : SchemaDraft) (v : Value) : KeywordPart → Prop
  | .one s => Schema.ofValue? draft v = some s
  | .many schemas => ∃ vs, v = .list vs ∧ readSchemas? draft vs = some schemas
  | .fields schemas => ∃ fields, v = .map fields ∧ readFields? draft fields = some schemas
  | .dependencies schemas => ∃ members, v = .map members ∧ readDependencies? draft members = some schemas
  | .plain w => w = v

theorem mem_readKeywords? {readings : List KeywordReading} (h : readKeywords? draft entries = some readings) :
    ∀ r ∈ readings, (r.name, r.source) ∈ entries ∧ PartReads draft r.source r.part := by
  induction entries generalizing readings with
  | nil =>
    cases h
    exact nofun
  | cons entry rest ih =>
    obtain ⟨name, v⟩ := entry
    -- The entry is passed over, or read in front of the others.
    suffices hread : ∃ more, readKeywords? draft rest = some more ∧
        (readings = more ∨ ∃ part, readings = ⟨name, v, part⟩ :: more ∧ PartReads draft v part) by
      obtain ⟨more, hmore, hread⟩ := hread
      have hlater : ∀ r ∈ more, (r.name, r.source) ∈ (name, v) :: rest ∧ PartReads draft r.source r.part :=
        fun r hr => ⟨List.mem_cons_of_mem _ (ih hmore r hr).1, (ih hmore r hr).2⟩
      rcases hread with rfl | ⟨part, rfl, hpart⟩
      · exact hlater
      · exact List.forall_mem_cons.mpr ⟨⟨List.mem_cons_self, hpart⟩, hlater⟩
    have hfirst : ∀ {part}, (readKeywords? draft rest).map (⟨name, v, part⟩ :: ·) = some readings →
        PartReads draft v part → ∃ more, readKeywords? draft rest = some more ∧
          (readings = more ∨ ∃ part, readings = ⟨name, v, part⟩ :: more ∧ PartReads draft v part) := by
      intro part h hpart
      obtain ⟨more, hmore, rfl⟩ := Option.map_eq_some_iff.mp h
      exact ⟨more, hmore, .inr ⟨part, rfl, hpart⟩⟩
    rw [readKeywords?.eq_def] at h
    dsimp only at h
    split at h
    · exact ⟨readings, h, .inl rfl⟩
    · split at h
      · exact hfirst h rfl
      · cases h
    · obtain ⟨schemas, hschemas, h⟩ := Option.bind_eq_some_iff.mp h
      exact hfirst h ⟨_, rfl, hschemas⟩
    · cases h
    · obtain ⟨schemas, hschemas, h⟩ := Option.bind_eq_some_iff.mp h
      exact hfirst h ⟨_, rfl, hschemas⟩
    · cases h
    · obtain ⟨schemas, hschemas, h⟩ := Option.bind_eq_some_iff.mp h
      exact hfirst h ⟨_, rfl, hschemas⟩
    · cases h
    · obtain ⟨schemas, hschemas, h⟩ := Option.bind_eq_some_iff.mp h
      exact hfirst h ⟨_, rfl, hschemas⟩
    · obtain ⟨s, hs, h⟩ := Option.bind_eq_some_iff.mp h
      exact hfirst h hs
    · obtain ⟨s, hs, h⟩ := Option.bind_eq_some_iff.mp h
      exact hfirst h hs

theorem mem_relevant {readings : List KeywordReading} {r : KeywordReading}
    (h : r ∈ KeywordReading.relevant draft readings) : r ∈ readings := by
  rw [KeywordReading.relevant.eq_def] at h
  split at h
  · next first rest hfilter =>
    rw [← hfilter] at h
    exact (List.mem_filter.mp h).1
  · exact h

/-- The parts of a keyword fail where they stand if all smaller documents do. -/
theorem PartReads.fails {part : KeywordPart} (h : PartReads draft v part)
    (ih : ∀ w : Value, w.size ≤ v.size → ∀ s, Schema.ofValue? draft w = some s → FailsAt ctx root w s) :
    PartFails ctx root v part := by
  cases part with
  | one s => exact ih v (Nat.le_refl _) s h
  | many schemas =>
    obtain ⟨vs, rfl, hvs⟩ := h
    refine ⟨vs, rfl, fun i s hs => ?_⟩
    obtain ⟨w, hw, hread⟩ := mem_readSchemas? hvs hs
    have hsize := Value.size_le_itemsSize (List.mem_of_getElem? hw)
    exact ⟨w, hw, ih w (by rw [Value.size]; omega) s hread⟩
  | fields schemas =>
    obtain ⟨fields, rfl, hfields⟩ := h
    refine ⟨fields, rfl, fun e he => ?_⟩
    obtain ⟨w, hw, hread⟩ := mem_readFields? hfields he
    have hsize := Value.size_le_fieldsSize hw
    exact ⟨w, hw, ih w (by rw [Value.size]; omega) e.2 hread⟩
  | dependencies schemas =>
    obtain ⟨members, rfl, hmembers⟩ := h
    refine ⟨members, rfl, fun e he => ?_⟩
    obtain ⟨w, hw, hread⟩ := mem_readDependencies? hmembers he
    have hsize := Value.size_le_fieldsSize hw
    exact ⟨w, hw, hread.imp_left fun hread => ih w (by rw [Value.size]; omega) e.2 hread⟩
  | plain w => exact h

/-- A document that is read as a schema fails at places of the document, whatever is checked. -/
theorem failsAt_of_ofValue? (hrefs : ReferencesFail ctx root) {s : Schema}
    (h : Schema.ofValue? draft v = some s) : FailsAt ctx root v s := by
  induction hsize : v.size using Nat.strongRecOn generalizing v s with
  | _ size ih =>
    rw [Schema.ofValue?.eq_def] at h
    split at h
    · next accepts =>
      cases h
      intro x f hf
      cases accepts with
      | true => cases hf
      | false =>
        rw [List.mem_singleton.mp hf]
        exact ⟨[], .refused, rfl⟩
    · next entries =>
      obtain ⟨readings, hread, rfl⟩ := Option.map_eq_some_iff.mp h
      have hreadings : ReadingsFail ctx root entries readings := by
        intro r hr
        obtain ⟨hmem, hpart⟩ := mem_readKeywords? hread r hr
        have hlt := Value.size_le_fieldsSize hmem
        refine ⟨hmem, hpart.fails fun w hw s hs => ih w.size ?_ hs rfl⟩
        rw [← hsize, Value.size]
        omega
      intro x f hf
      rw [KeywordReading.schema, Schema.check] at hf
      obtain ⟨check, hcheck, hf⟩ := List.mem_flatMap.mp hf
      rw [keywordChecks_eq] at hcheck
      obtain ⟨k, hk, rfl⟩ := List.mem_map.mp hcheck
      obtain ⟨r, hr, hkeyword⟩ := List.mem_filterMap.mp hk
      exact keyword?_failsIn hrefs hreadings (mem_relevant hr) hkeyword x f hf
    · cases h

/-! ## The standard engine -/

/-- The schemas that were read from the places of references. -/
def ReadPlaces (draft : SchemaDraft) (root : Value) (places : Dict Schema) : Prop :=
  ∀ e ∈ places, ∃ w, Pointer.target? root e.1 = some w ∧ Schema.ofValue? draft w = some e.2

theorem readPlaces_of_gather {fresh todo : List String} {found places : Dict Schema}
    (h : gather draft root fresh todo found = some places) (hfound : ReadPlaces draft root found) :
    ReadPlaces draft root places := by
  fun_induction gather draft root fresh todo found with
  | case1 fresh found =>
    cases h
    exact hfound
  | case2 fresh found target rest hfresh s hs ih =>
    refine ih h (List.forall_mem_cons.mpr ⟨?_, hfound⟩)
    exact Option.bind_eq_some_iff.mp hs
  | case3 => cases h
  | case4 fresh found target rest hfresh ih => exact ih h hfound

theorem checkWith_failsAt {places : Dict Schema} (h : ReadPlaces draft root places) (patterns : PatternEngine)
    (fuel : Nat) {s : Schema} (hs : Schema.ofValue? draft v = some s) :
    (checkWith patterns places fuel s).FailsIn (Locates root v) := by
  induction fuel generalizing v s with
  | zero =>
    refine failsAt_of_ofValue? (fun target x f hf => ?_) hs
    cases hf
  | succ fuel ih =>
    refine failsAt_of_ofValue? (fun target x f hf => ?_) hs
    dsimp only at hf
    split at hf
    · next place hplace =>
      obtain ⟨w, hw, hread⟩ := h (target, place) (Dict.mem_of_get? hplace)
      exact ⟨w, hw, ih hread x f hf⟩
    · cases hf

end Schema

/-- The standard engine names places of the schema document. -/
theorem SchemaEngine.standard_reportsPlaces : SchemaEngine.standard.ReportsPlaces := by
  intro schema check h
  have h := SchemaEngine.standard_eq_ok_iff.mp h
  obtain ⟨draft, -, h⟩ := Option.bind_eq_some_iff.mp h
  obtain ⟨root, hroot, h⟩ := Option.bind_eq_some_iff.mp h
  obtain ⟨places, hplaces, h⟩ := Option.bind_eq_some_iff.mp h
  split at h
  · cases h
    intro v f hf
    exact Schema.checkWith_failsAt (Schema.readPlaces_of_gather hplaces nofun) _ _ hroot v f hf
  · cases h

end DocModel
