import DocModel.Proofs.Merging.Sequence
import DocModel.Proofs.Schema.NameLists
import DocModel.Schema.Engine

/-!
# Lists of names in merged schemas

Merging appends lists, those of names too. Where the schema on top has a list of names that the one below has
as well, reached through maps that are no directives, the merged schema has both in one; every other list of the
merged schema is one of these two (`nameList_merge`). So it has a name twice exactly where two lists with a name
in common meet (`isRepairable_merge_iff`), and taking repeats out under `required` mends nothing else
(`isRepairable_iff`). Schemas of which no two hold such lists can be merged in a row
(`isRepairable_mergeAll`).
-/

namespace DocModel

namespace Value

/-- A merged list is that of the value on top, or two lists appended. -/
theorem merge_eq_list {b v : Value} {items : List Value} (hv : v.Strippable) (h : b.merge v = list items) :
    v.strip = list items ∨ ∃ left right, b = list left ∧ v = list right ∧ items = left ++ right := by
  cases v with
  | list right =>
    cases b with
    | list left =>
      rw [merge, map_strip_eq_self (strippable_list_iff.mp hv)] at h
      exact .inr ⟨left, right, rfl, rfl, (list.inj h).symm⟩
    | _ => exact .inl h
  | map right =>
    cases hb : b.plainMap? with
    | none => exact .inl ((merge_of_plainMap?_eq_none hb right).symm.trans h)
    | some left =>
      obtain ⟨rfl, hl⟩ := plainMap?_eq_some_iff.mp hb
      cases hr : Fields.isReset right with
      | true => exact .inl ((merge_of_isReset _ hr).symm.trans h)
      | false =>
        rw [merge_map_map hl hr] at h
        cases h
  | _ => exact .inl h

/-- A merged map is that of the value on top, or two maps that are no directives merged key by key. -/
theorem merge_eq_map {b v : Value} {entries : Fields} (h : b.merge v = map entries) :
    v.strip = map entries ∨ ∃ left right, b = map left ∧ v = map right ∧ Fields.isReset left = false ∧
      Fields.isReset right = false ∧ entries = mergeFields left right := by
  cases v with
  | list right => cases b <;> cases h
  | map right =>
    cases hb : b.plainMap? with
    | none => exact .inl ((merge_of_plainMap?_eq_none hb right).symm.trans h)
    | some left =>
      obtain ⟨rfl, hl⟩ := plainMap?_eq_some_iff.mp hb
      cases hr : Fields.isReset right with
      | true => exact .inl ((merge_of_isReset _ hr).symm.trans h)
      | false =>
        rw [merge_map_map hl hr] at h
        exact .inr ⟨left, right, rfl, rfl, hl, hr, (map.inj h).symm⟩
  | _ => exact .inl h

/-- What stands in a field of merged maps: what stands there below, what stands there on top, or both merged. -/
theorem get?_mergeFields_cases {left right : Fields} {name : String} {x : Value}
    (h : Dict.get? (mergeFields left right) name = some x) :
    Dict.get? left name = some x ∨ (∃ w, Dict.get? right name = some w ∧ w.strip = x) ∨
      ∃ existing w, Dict.get? left name = some existing ∧ Dict.get? right name = some w ∧ merge existing w = x := by
  rw [get?_mergeFields] at h
  cases hr : Dict.get? right name with
  | none => exact .inl (by simpa [hr] using h)
  | some w =>
    cases hl : Dict.get? left name with
    | none => exact .inr (.inl ⟨w, rfl, by simpa [hr, hl] using h⟩)
    | some existing => exact .inr (.inr ⟨existing, w, rfl, rfl, by simpa [hr, hl] using h⟩)

end Value

/-- Two schemas, one put on top of the other, both have a list of names under this key, in a place that leads
through maps that are no directives. -/
inductive ListsMeet (draft : SchemaDraft) : Spot → Value → Value → String → List Value → List Value → Prop
  | here {spot : Spot} {below above : Fields} {key : String} {left right : List Value}
    (hb : below.isReset = false) (ha : above.isReset = false) (hspot : (spot.enter draft key).listsNames = true)
    (hleft : Dict.get? below key = some (.list left)) (hright : Dict.get? above key = some (.list right)) :
    ListsMeet draft spot (.map below) (.map above) key left right
  | entry {spot : Spot} {below above : Fields} {name key : String} {x y : Value} {left right : List Value}
    (hb : below.isReset = false) (ha : above.isReset = false)
    (hx : Dict.get? below name = some x) (hy : Dict.get? above name = some y)
    (h : ListsMeet draft (spot.enter draft name) x y key left right) :
    ListsMeet draft spot (.map below) (.map above) key left right

variable {draft : SchemaDraft} {spot : Spot} {a b c v : Value} {key : String} {items left right : List Value}

namespace NameList

theorem here_strip {entries : Fields} {w : Value} (hr : entries.isReset = false)
    (hspot : (spot.enter draft key).listsNames = true) (hget : Dict.get? entries key = some w)
    (hw : w.strip = .list items) :
    NameList draft spot (Value.map entries).strip key items := by
  rw [Value.strip_of_not_isReset hr]
  exact .here hspot (by rw [Value.get?_stripEntries, hget, Option.map_some, hw])

theorem entry_strip {entries : Fields} {name : String} {w : Value} (hr : entries.isReset = false)
    (hget : Dict.get? entries name = some w) (h : NameList draft (spot.enter draft name) w.strip key items) :
    NameList draft spot (Value.map entries).strip key items := by
  rw [Value.strip_of_not_isReset hr]
  exact .entry (by rw [Value.get?_stripEntries, hget, Option.map_some]) h

end NameList

namespace ListsMeet

/-- What meets are lists of both schemas, and merging puts them together. -/
theorem nameList (hv : v.Strippable) (h : ListsMeet draft spot b v key left right) :
    NameList draft spot v.strip key right ∧ NameList draft spot (b.merge v) key (left ++ right) := by
  induction h with
  | here hb ha hspot hleft hright =>
    have hplain := Value.strippable_list_iff.mp (hv.get? ha hright)
    refine ⟨.here_strip ha hspot hright rfl, ?_⟩
    rw [Value.merge_map_map hb ha]
    refine .here hspot ?_
    rw [Value.get?_mergeFields, hright, hleft]
    show some (Value.list (_ ++ List.map Value.strip _)) = _
    rw [Value.map_strip_eq_self hplain]
  | entry hb ha hx hy _ ih =>
    obtain ⟨hstrip, hmerge⟩ := ih (hv.get? ha hy)
    refine ⟨.entry_strip ha hy hstrip, ?_⟩
    rw [Value.merge_map_map hb ha]
    exact .entry (by rw [Value.get?_mergeFields, hy, hx]) hmerge

theorem nameList_below (h : ListsMeet draft spot b v key left right) : NameList draft spot b key left := by
  induction h with
  | here _ _ hspot hleft _ => exact .here hspot hleft
  | entry _ _ hx _ _ ih => exact .entry hx ih

theorem here_strip {entries above : Fields} {w : Value} (hb : (Value.map entries).Strippable)
    (hr : entries.isReset = false) (ha : above.isReset = false) (hspot : (spot.enter draft key).listsNames = true)
    (hget : Dict.get? entries key = some w) (hw : w.strip = .list left)
    (hright : Dict.get? above key = some (.list right)) :
    ListsMeet draft spot (Value.map entries).strip (.map above) key left right := by
  rw [Value.strip_of_not_isReset hr]
  refine .here (Value.isReset_stripEntries_eq_false_iff.mpr ((Value.strippable_map_iff hr).mp hb).1) ha hspot ?_ hright
  rw [Value.get?_stripEntries, hget, Option.map_some, hw]

theorem entry_strip {entries above : Fields} {name : String} {w y : Value} (hb : (Value.map entries).Strippable)
    (hr : entries.isReset = false) (ha : above.isReset = false) (hget : Dict.get? entries name = some w)
    (hy : Dict.get? above name = some y) (h : ListsMeet draft (spot.enter draft name) w.strip y key left right) :
    ListsMeet draft spot (Value.map entries).strip (.map above) key left right := by
  rw [Value.strip_of_not_isReset hr]
  refine .entry (Value.isReset_stripEntries_eq_false_iff.mpr ((Value.strippable_map_iff hr).mp hb).1) ha ?_ hy h
  rw [Value.get?_stripEntries, hget, Option.map_some]

end ListsMeet

/-- A list of names in a merged schema is a list of one of the two, or two lists that meet. -/
theorem nameList_merge (hv : v.Strippable) (h : NameList draft spot (b.merge v) key items) :
    NameList draft spot b key items ∨ NameList draft spot v.strip key items ∨
      ∃ left right, ListsMeet draft spot b v key left right ∧ items = left ++ right := by
  generalize hm : b.merge v = m at h
  induction h generalizing b v with
  | here hspot hget =>
    rcases Value.merge_eq_map hm with hstrip | ⟨below, above, rfl, rfl, hb, ha, rfl⟩
    · exact .inr (.inl (hstrip ▸ .here hspot hget))
    · rcases Value.get?_mergeFields_cases hget with hget | ⟨w, hw, hstrip⟩ | ⟨x, w, hx, hw, hmerge⟩
      · exact .inl (.here hspot hget)
      · exact .inr (.inl (.here_strip ha hspot hw hstrip))
      · rcases Value.merge_eq_list (hv.get? ha hw) hmerge with hstrip | ⟨left, right, rfl, rfl, rfl⟩
        · exact .inr (.inl (.here_strip ha hspot hw hstrip))
        · exact .inr (.inr ⟨left, right, .here hb ha hspot hx hw, rfl⟩)
  | entry hget h ih =>
    rcases Value.merge_eq_map hm with hstrip | ⟨below, above, rfl, rfl, hb, ha, rfl⟩
    · exact .inr (.inl (hstrip ▸ .entry hget h))
    · rcases Value.get?_mergeFields_cases hget with hget | ⟨w, hw, rfl⟩ | ⟨x, w, hx, hw, hmerge⟩
      · exact .inl (.entry hget h)
      · exact .inr (.inl (.entry_strip ha hw h))
      · rcases ih (hv.get? ha hw) hmerge with hbelow | hstrip | ⟨left, right, hmeet, rfl⟩
        · exact .inl (.entry hx hbelow)
        · exact .inr (.inl (.entry_strip ha hw hstrip))
        · exact .inr (.inr ⟨left, right, .entry hb ha hx hw hmeet, rfl⟩)
  | item hx h ih =>
    rcases Value.merge_eq_list hv hm with hstrip | ⟨left, right, rfl, rfl, rfl⟩
    · exact .inr (.inl (hstrip ▸ .item hx h))
    · rcases List.mem_append.mp hx with hx | hx
      · exact .inl (.item hx h)
      · exact .inr (.inl (.item hx h))

/-- What meets a list of a merged schema meets lists of the two that it is merged from. -/
theorem listsMeet_merge (hb : b.Strippable) (h : ListsMeet draft spot (a.merge b) c key left right) :
    ListsMeet draft spot a c key left right ∨ ListsMeet draft spot b.strip c key left right ∨
      ∃ first second, left = first ++ second ∧ ListsMeet draft spot a c key first right ∧
        ListsMeet draft spot b.strip c key second right := by
  generalize hm : a.merge b = m at h
  induction h generalizing a b with
  | here hr hc hspot hleft hright =>
    rcases Value.merge_eq_map hm with hstrip | ⟨below, above, rfl, rfl, hbelow, habove, rfl⟩
    · exact .inr (.inl (hstrip ▸ .here hr hc hspot hleft hright))
    · rcases Value.get?_mergeFields_cases hleft with hleft | ⟨w, hw, hstrip⟩ | ⟨x, w, hx, hw, hmerge⟩
      · exact .inl (.here hbelow hc hspot hleft hright)
      · exact .inr (.inl (.here_strip hb habove hc hspot hw hstrip hright))
      · rcases Value.merge_eq_list (hb.get? habove hw) hmerge with hstrip | ⟨first, second, rfl, rfl, rfl⟩
        · exact .inr (.inl (.here_strip hb habove hc hspot hw hstrip hright))
        · exact .inr (.inr ⟨first, second, rfl, .here hbelow hc hspot hx hright,
            .here_strip hb habove hc hspot hw rfl hright⟩)
  | entry hr hc hx hy h ih =>
    rcases Value.merge_eq_map hm with hstrip | ⟨below, above, rfl, rfl, hbelow, habove, rfl⟩
    · exact .inr (.inl (hstrip ▸ .entry hr hc hx hy h))
    · rcases Value.get?_mergeFields_cases hx with hx | ⟨w, hw, rfl⟩ | ⟨x, w, hx, hw, hmerge⟩
      · exact .inl (.entry hbelow hc hx hy h)
      · exact .inr (.inl (.entry_strip hb habove hc hw hy h))
      · rcases ih (hb.get? habove hw) hmerge with hfirst | hsecond | ⟨first, second, rfl, hfirst, hsecond⟩
        · exact .inl (.entry hbelow hc hx hy hfirst)
        · exact .inr (.inl (.entry_strip hb habove hc hw hy hsecond))
        · exact .inr (.inr ⟨first, second, rfl, .entry hbelow hc hx hy hfirst,
            .entry_strip hb habove hc hw hy hsecond⟩)

/-! ## Repeats -/

namespace Value

/-- All lists of names in a schema are lists of different names. -/
def NamesOnce (draft : SchemaDraft) (v : Value) : Prop :=
  ∀ key items, NameList draft .schema v key items → IsNames items

/-- All lists of names in a schema hold names, and only those under `required` may hold one twice. -/
def IsRepairable (draft : SchemaDraft) (v : Value) : Prop :=
  ∀ key items, NameList draft .schema v key items →
    (∀ x ∈ items, ∃ s, x = .string s) ∧ (key ≠ "required" → items.Nodup)

/-- Lists of names that meet when one schema is put on top of the other have no name in common, except under
`required`. -/
def NamesApart (draft : SchemaDraft) (below above : Value) : Prop :=
  ∀ key left right, ListsMeet draft .schema below above key left right → key ≠ "required" → List.Disjoint left right

/-- Of schemas that are put on top of each other in this order, each is apart from all below it. -/
def AllApart (draft : SchemaDraft) (vs : List Value) : Prop :=
  vs.Pairwise fun below above => below.strip.NamesApart draft above

/-- A schema has no lists of names but those under `required`. -/
def ListsOnlyRequired (draft : SchemaDraft) (v : Value) : Prop :=
  ∀ key items, NameList draft .schema v key items → key = "required"

theorem NamesOnce.isRepairable (h : v.NamesOnce draft) : v.IsRepairable draft := fun key items hlist =>
  ⟨(h key items hlist).strings, fun _ => (h key items hlist).nodup⟩

/-- A document that compiles has each name once in its lists, as the draft that it is in asks. -/
theorem namesOnce_of_compile {patterns : PatternEngine} (h : (Schema.compile patterns v).isSome = true) :
    ∃ draft, SchemaDraft.of? v = some draft ∧ v.NamesOnce draft := by
  obtain ⟨check, hcheck⟩ := Option.isSome_iff_exists.mp h
  obtain ⟨draft, hdraft, hcheck⟩ := Option.bind_eq_some_iff.mp hcheck
  obtain ⟨root, hroot, -⟩ := Option.bind_eq_some_iff.mp hcheck
  exact ⟨draft, hdraft, fun _ _ => isNames_of_ofValue? (Option.isSome_of_eq_some hroot)⟩

end Value

/-- No schema that has a name twice in one of its lists compiles, as the draft asks that it is in. -/
def SchemaEngine.RefusesRepeats (engine : SchemaEngine) : Prop :=
  ∀ schema draft, SchemaDraft.of? schema = some draft → ¬ schema.NamesOnce draft →
    ∃ reason, engine schema = .error reason

theorem SchemaEngine.standard_refusesRepeats : SchemaEngine.standard.RefusesRepeats := by
  intro schema draft hdraft hrepeats
  refine ⟨refusal, SchemaEngine.standard_eq_error_iff.mpr ⟨?_, rfl⟩⟩
  rw [← Option.not_isSome_iff_eq_none]
  intro hcompiles
  obtain ⟨draft', hdraft', honce⟩ := Value.namesOnce_of_compile hcompiles
  cases hdraft.symm.trans hdraft'
  exact hrepeats honce

namespace Value

/-- No name is left twice under `required`. -/
theorem nodup_required_dedupRequired (h : NameList draft spot v.dedupRequired "required" items) : items.Nodup := by
  obtain ⟨all, -, rfl⟩ := nameList_dedupRequired_iff.mp h
  exact nodup_distinct all

theorem eq_string_of_dedupRequired {x : Value} {s : String} (h : x.dedupRequired = string s) : x = string s := by
  cases x <;> cases h
  rfl

theorem map_dedupRequired_eq_self {items : List Value} (h : ∀ x ∈ items, ∃ s, x = string s) :
    items.map dedupRequired = items := by
  refine (List.map_congr_left fun x hx => ?_).trans (List.map_id items)
  obtain ⟨s, rfl⟩ := h x hx
  rfl

/-- Taking repeats out under `required` mends what is repairable, and nothing else. -/
theorem isRepairable_iff : v.IsRepairable draft ↔ v.dedupRequired.NamesOnce draft := by
  constructor
  · intro h key items hlist
    obtain ⟨all, hall, rfl⟩ := nameList_dedupRequired_iff.mp hlist
    obtain ⟨hstrings, hnodup⟩ := h key all hall
    rw [repaired]
    split
    · exact ⟨fun x hx => hstrings x (mem_distinct.mp hx), nodup_distinct all⟩
    · next hkey =>
      rw [map_dedupRequired_eq_self hstrings]
      exact ⟨hstrings, hnodup hkey⟩
  · intro h key all hall
    obtain ⟨hstrings, hnodup⟩ := h key _ (nameList_dedupRequired hall)
    by_cases hkey : key = "required"
    · rw [repaired, if_pos hkey] at hstrings
      exact ⟨fun x hx => hstrings x (mem_distinct.mpr hx), fun hne => absurd hkey hne⟩
    · rw [repaired, if_neg hkey] at hstrings hnodup
      have hall : ∀ x ∈ all, ∃ s, x = string s := fun x hx => by
        obtain ⟨s, hs⟩ := hstrings _ (List.mem_map_of_mem hx)
        exact ⟨s, eq_string_of_dedupRequired hs⟩
      rw [map_dedupRequired_eq_self hall] at hnodup
      exact ⟨hall, fun _ => hnodup⟩

/-! ## Merging -/

/-- What is put on top leaves a repairable schema if the lists that meet are apart, and only then. -/
theorem isRepairable_merge_iff (hb : b.IsRepairable draft) (hv : v.Strippable) (hs : v.strip.IsRepairable draft) :
    (b.merge v).IsRepairable draft ↔ b.NamesApart draft v := by
  constructor
  · intro h key left right hmeet hkey
    have hnodup := (h key _ (hmeet.nameList hv).2).2 hkey
    exact (List.nodup_append'.mp hnodup).2.2
  · intro h key items hlist
    -- Only where two lists meet is there one that neither schema has.
    rcases nameList_merge hv hlist with hbelow | habove | ⟨left, right, hmeet, rfl⟩
    · exact hb key items hbelow
    · exact hs key items habove
    · obtain ⟨hleft, hleftOnce⟩ := hb key left hmeet.nameList_below
      obtain ⟨hright, hrightOnce⟩ := hs key right (hmeet.nameList hv).1
      refine ⟨fun x hx => (List.mem_append.mp hx).elim (hleft x) (hright x), fun hkey => ?_⟩
      exact List.nodup_append'.mpr ⟨hleftOnce hkey, hrightOnce hkey, h key left right hmeet hkey⟩

/-- A merged schema is apart from what is apart from both that it is merged from. -/
theorem NamesApart.merge (hb : b.Strippable) (ha : a.NamesApart draft c) (hs : b.strip.NamesApart draft c) :
    (a.merge b).NamesApart draft c := by
  intro key left right hmeet hkey
  rcases listsMeet_merge hb hmeet with hmeet | hmeet | ⟨first, second, rfl, hfirst, hsecond⟩
  · exact ha key left right hmeet hkey
  · exact hs key left right hmeet hkey
  · exact List.disjoint_append_left.mpr ⟨ha key first right hfirst hkey, hs key second right hsecond hkey⟩

/-- Repairable schemas that are apart from each other come to a repairable one, which is apart from what they are
all apart from. -/
theorem isRepairable_mergeAll {vs : List Value} (hv : ∀ v ∈ vs, v.Strippable ∧ v.strip.IsRepairable draft)
    (hapart : AllApart draft vs) {m : Value} (hm : mergeAll none vs = some m) :
    m.IsRepairable draft ∧ ∀ c, (∀ v ∈ vs, v.strip.NamesApart draft c) → m.NamesApart draft c := by
  -- The last schema is put on what all before it come to, so that has to be apart from the last one too: the
  -- second half is what carries the first.
  induction vs using List.reverseRecOn generalizing m with
  | nil => cases hm
  | append_singleton vs v ih =>
    obtain ⟨hstrippable, hrepairable⟩ := hv v (by simp)
    obtain ⟨hvs, -, hlast⟩ := List.pairwise_append.mp hapart
    rw [mergeAll_concat, Option.some.injEq] at hm
    subst hm
    cases hbelow : mergeAll none vs with
    | none => exact ⟨hrepairable, fun c hc => hc v (by simp)⟩
    | some below =>
      obtain ⟨hbelow, hfar⟩ := ih (fun w hw => hv w (List.mem_append_left _ hw)) hvs hbelow
      have hmeets := hfar v fun w hw => hlast w hw v (List.mem_singleton_self v)
      refine ⟨(isRepairable_merge_iff hbelow hstrippable hrepairable).mpr hmeets, fun c hc => ?_⟩
      exact (hfar c fun w hw => hc w (List.mem_append_left _ hw)).merge hstrippable (hc v (by simp))

/-- A schema that has no lists but those under `required` is apart from all that is put on top of it. -/
theorem ListsOnlyRequired.namesApart (h : b.ListsOnlyRequired draft) (above : Value) : b.NamesApart draft above :=
  fun key left _ hmeet hkey => absurd (h key left hmeet.nameList_below) hkey

theorem AllApart.of_listsOnlyRequired {vs : List Value} (h : ∀ v ∈ vs, v.strip.ListsOnlyRequired draft) :
    AllApart draft vs := List.pairwise_of_forall_mem_list fun v hv w _ => (h v hv).namesApart w

theorem ListsOnlyRequired.dedupRequired (h : v.ListsOnlyRequired draft) :
    v.dedupRequired.ListsOnlyRequired draft := by
  intro key items hlist
  obtain ⟨all, hall, -⟩ := nameList_dedupRequired_iff.mp hlist
  exact h key all hall

/-- Merging makes no lists under other keywords. -/
theorem ListsOnlyRequired.mergeAll {vs : List Value}
    (hv : ∀ v ∈ vs, v.Strippable ∧ v.strip.ListsOnlyRequired draft) {m : Value}
    (hm : Value.mergeAll none vs = some m) : m.ListsOnlyRequired draft := by
  induction vs using List.reverseRecOn generalizing m with
  | nil => cases hm
  | append_singleton vs v ih =>
    obtain ⟨hstrippable, hstrip⟩ := hv v (by simp)
    rw [mergeAll_concat, Option.some.injEq] at hm
    subst hm
    cases hbelow : Value.mergeAll none vs with
    | none => exact hstrip
    | some below =>
      intro key items hlist
      rcases nameList_merge hstrippable hlist with hlist | hlist | ⟨left, right, hmeet, -⟩
      · exact ih (fun w hw => hv w (List.mem_append_left _ hw)) hbelow key items hlist
      · exact hstrip key items hlist
      · exact hstrip key right (hmeet.nameList hstrippable).1

end Value

end DocModel
