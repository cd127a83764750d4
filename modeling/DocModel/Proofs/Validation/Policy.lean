import Mathlib.Data.List.Basic
import DocModel.Proofs.Dict.Insertion
import DocModel.Validation

/-!
# What options change in a report

Four runs over one snapshot, strict or not and with or without undeclared fields, find the same things. A
strict run gives all of them the level `error`; a run that does not look for undeclared fields leaves these
out, and no schema finds anything under their code.

* `validate_strict`, `validate_declared`: a report is known from the one with the other option.
* `schemaIssues_of_uncompiled`: what is said of a class whose schema does not compile.
* `issues_of_others`: a schema is no matter for the reports on other classes.
* `policy_changes_levels`: all of it, for all snapshots.
-/

namespace DocModel

/-- An issue with the level `error`. -/
def Issue.asError (issue : Issue) : Issue := { issue with level := .error }

/-- What the schema of a class or its compilation finds, by its code. -/
def Issue.isOfSchema (issue : Issue) : Bool := "schema-".toList.isPrefixOf issue.code.toList

namespace Validation

variable {engines : ValidationEngines} {options : ValidationOptions} {classes : Classes}

/-! ## What rules find -/

theorem issues_validate (engines : ValidationEngines) (options : ValidationOptions) (s : Snapshot) :
    (s.validate engines options).issues = compileIssues engines.schema s.classes
      ++ s.instances.flatMap (instanceIssues (rules engines options s.classes) options s.classes) := rfl

@[simp] theorem className_doesNotCompile (name reason : String) :
    (doesNotCompile name reason).className = some name := rfl

@[simp] theorem isOfSchema_doesNotCompile (name reason : String) : (doesNotCompile name reason).isOfSchema = true := by
  show "schema-".toList.isPrefixOf "schema-invalid".toList = true
  decide

theorem exists_of_mem_compileIssues {engine : SchemaEngine} {issue : Issue} (h : issue ∈ compileIssues engine classes) :
    ∃ name reason, issue = doesNotCompile name reason := by
  obtain ⟨entry, -, hentry⟩ := List.mem_filterMap.mp h
  obtain ⟨schema, -, hschema⟩ := Option.bind_eq_some_iff.mp hentry
  rw [compileIssue?] at hschema
  split at hschema
  · cases hschema
  · next reason _ => exact ⟨entry.1, reason, (Option.some.inj hschema).symm⟩

/-- Issues that are picked by their classes are those of the classes that are picked. -/
theorem filter_compileIssues (engine : SchemaEngine) (classes : Classes) {picked : Issue → Bool}
    (ofName : String → Bool) (h : ∀ name reason, picked (doesNotCompile name reason) = ofName name) :
    (compileIssues engine classes).filter picked =
      compileIssues engine (classes.filter fun entry => ofName entry.1) := by
  rw [compileIssues, compileIssues, List.filter_filterMap, List.filterMap_filter]
  refine congrArg (List.filterMap · classes) (funext fun entry => ?_)
  cases entry.2.schema with
  | none => simp
  | some schema =>
    rw [Option.bind_some, compileIssue?]
    cases engine schema with
    | ok check => simp
    | error reason => simp [Option.filter, h]

theorem mem_schemaRule {compiled : Dict SchemaCheck} {i : Instance} {c : ClassDefinition} {issue : Issue}
    (h : issue ∈ schemaRule compiled i c) :
    issue.className = some c.name ∧ issue.isOfSchema = true ∧ (Dict.get? compiled c.name).isSome = true := by
  rw [schemaRule] at h
  cases hcheck : Dict.get? compiled c.name with
  | none => rw [hcheck] at h; cases h
  | some check =>
    rw [hcheck] at h
    obtain ⟨failure, -, rfl⟩ := List.mem_map.mp h
    refine ⟨rfl, ?_, rfl⟩
    show "schema-".toList.isPrefixOf (schemaIssue i c failure).code.toList = true
    rw [schemaIssue, String.toList_append, List.isPrefixOf_iff_prefix]
    exact List.prefix_append _ _

theorem mem_extraFieldRule {patterns : PatternEngine} {i : Instance} {c : ClassDefinition} {issue : Issue}
    (h : issue ∈ extraFieldRule patterns i c) :
    issue.className = some c.name ∧ issue.code = "extra-field" := by
  rw [extraFieldRule] at h
  cases hschema : c.schema with
  | none => rw [hschema] at h; cases h
  | some schema =>
    rw [hschema] at h
    obtain ⟨path, -, rfl⟩ := List.mem_map.mp h
    exact ⟨rfl, rfl⟩

theorem code_ne_of_isOfSchema {issue : Issue} (h : issue.isOfSchema = true) : issue.code ≠ "extra-field" := by
  intro hcode
  rw [Issue.isOfSchema, hcode] at h
  exact absurd h (by decide)

@[simp] theorem code_applyPolicy (options : ValidationOptions) (issue : Issue) :
    (applyPolicy options issue).code = issue.code := by
  rw [applyPolicy]
  split <;> rfl

@[simp] theorem className_applyPolicy (options : ValidationOptions) (issue : Issue) :
    (applyPolicy options issue).className = issue.className := by
  rw [applyPolicy]
  split <;> rfl

@[simp] theorem isOfSchema_applyPolicy (options : ValidationOptions) (issue : Issue) :
    (applyPolicy options issue).isOfSchema = issue.isOfSchema := by
  rw [Issue.isOfSchema, Issue.isOfSchema, code_applyPolicy]

theorem mem_rules {i : Instance} {c : ClassDefinition} {issue : Issue}
    (h : issue ∈ (rules engines options classes).flatMap fun rule => rule i c) :
    issue ∈ schemaRule (compiledSchemas engines.schema classes) i c ∨ issue ∈ extraFieldRule engines.patterns i c := by
  obtain ⟨rule, hrule, hissue⟩ := List.mem_flatMap.mp h
  rcases List.mem_cons.mp hrule with rfl | hrule
  · exact .inl hissue
  · split at hrule
    · obtain rfl := List.mem_singleton.mp hrule
      exact .inr hissue
    · cases hrule

/-! ## Strict runs -/

theorem instanceIssues_strict (extra : Bool) (rules : List Rule) (i : Instance) :
    instanceIssues rules ⟨true, extra⟩ classes i =
      (instanceIssues rules ⟨false, extra⟩ classes i).map Issue.asError := by
  rw [instanceIssues, instanceIssues]
  cases i.classRef.bind (Dict.get? classes) with
  | none => rfl
  | some c =>
    dsimp only
    rw [List.map_map]
    rfl

theorem compileIssues_asError (engine : SchemaEngine) (classes : Classes) :
    (compileIssues engine classes).map Issue.asError = compileIssues engine classes := by
  refine (List.map_congr_left fun issue hissue => ?_).trans (List.map_id _)
  obtain ⟨name, reason, rfl⟩ := exists_of_mem_compileIssues hissue
  rfl

theorem validate_strict (engines : ValidationEngines) (extra : Bool) (s : Snapshot) :
    (s.validate engines ⟨true, extra⟩).issues = (s.validate engines ⟨false, extra⟩).issues.map Issue.asError := by
  rw [issues_validate, issues_validate, List.map_append, compileIssues_asError, List.map_flatMap]
  exact congrArg _ (congrArg (s.instances.flatMap ·) (funext fun i => instanceIssues_strict extra _ i))

theorem hasErrors_strict_iff (engines : ValidationEngines) (extra : Bool) (s : Snapshot) :
    (s.validate engines ⟨true, extra⟩).hasErrors = true ↔ (s.validate engines ⟨false, extra⟩).issues ≠ [] := by
  rw [Report.hasErrors, validate_strict, List.any_map, List.any_eq_true]
  constructor
  · rintro ⟨issue, hissue, -⟩ hnil
    rw [hnil] at hissue
    cases hissue
  · intro hne
    obtain ⟨issue, hissue⟩ := List.exists_mem_of_ne_nil _ hne
    exact ⟨issue, hissue, rfl⟩

/-! ## Undeclared fields -/

theorem isOfSchema_of_mem_compileIssues {engine : SchemaEngine} {issue : Issue}
    (h : issue ∈ compileIssues engine classes) : issue.isOfSchema = true := by
  obtain ⟨name, reason, rfl⟩ := exists_of_mem_compileIssues h
  exact isOfSchema_doesNotCompile name reason

theorem instanceIssues_declared (strict : Bool) (i : Instance) :
    (instanceIssues (rules engines ⟨strict, true⟩ classes) ⟨strict, true⟩ classes i).filter
        (·.code ≠ "extra-field") =
      instanceIssues (rules engines ⟨strict, false⟩ classes) ⟨strict, false⟩ classes i := by
  rw [instanceIssues, instanceIssues]
  cases i.classRef.bind (Dict.get? classes) with
  | none => rfl
  | some c =>
    have hall : rules engines ⟨strict, true⟩ classes =
        [schemaRule (compiledSchemas engines.schema classes), extraFieldRule engines.patterns] := rfl
    have hdeclared : rules engines ⟨strict, false⟩ classes =
        [schemaRule (compiledSchemas engines.schema classes)] := rfl
    rw [hall, hdeclared]
    dsimp only
    rw [List.flatMap_cons, List.flatMap_singleton, List.flatMap_singleton, List.map_append, List.filter_append,
      List.filter_map, List.filter_map, List.filter_eq_self.mpr, List.filter_eq_nil_iff.mpr]
    · exact List.append_nil _
    · intro issue hissue
      simp [(mem_extraFieldRule hissue).2]
    · intro issue hissue
      simpa using code_ne_of_isOfSchema (mem_schemaRule hissue).2.1

theorem validate_declared (engines : ValidationEngines) (strict : Bool) (s : Snapshot) :
    (s.validate engines ⟨strict, false⟩).issues =
      (s.validate engines ⟨strict, true⟩).issues.filter (·.code ≠ "extra-field") := by
  rw [issues_validate, issues_validate, List.filter_append, List.filter_flatMap, List.filter_eq_self.mpr]
  · exact congrArg _ (congrArg (s.instances.flatMap ·) (funext fun i => (instanceIssues_declared strict i).symm))
  · intro issue hissue
    simpa using code_ne_of_isOfSchema (isOfSchema_of_mem_compileIssues hissue)

/-! ## Schemas that do not compile -/

/-- What a schema stands for is found by the name of its class, if it compiles. -/
theorem get?_compiledSchemas (hkeys : (Dict.keys classes).Nodup) (engine : SchemaEngine) (name : String) :
    Dict.get? (compiledSchemas engine classes) name =
      (Dict.get? classes name).bind fun c => c.schema.bind fun schema => (engine schema).toOption := by
  induction classes with
  | nil => rfl
  | cons entry rest ih =>
    obtain ⟨key, c⟩ := entry
    obtain ⟨hnot, hrest⟩ := List.nodup_cons.mp hkeys
    have ih := ih hrest
    rw [compiledSchemas] at ih ⊢
    rw [List.filterMap_cons, Dict.get?]
    cases hcompiled : c.schema.bind fun schema => (engine schema).toOption with
    | some check =>
      dsimp only [Option.map_some]
      rw [Dict.get?, ih]
      split
      · exact hcompiled.symm
      · rfl
    | none =>
      dsimp only [Option.map_none]
      rw [ih]
      split
      · next heq =>
        subst heq
        have habsent : Dict.get? rest key = none :=
          Dict.get?_eq_none_iff.mpr (Bool.eq_false_iff.mpr (mt Dict.contains_eq_true_iff.mp hnot))
        rw [habsent]
        exact hcompiled.symm
      · rfl

theorem mem_instanceIssues {rules : List Rule} {i : Instance} {issue : Issue}
    (h : issue ∈ instanceIssues rules options classes i) :
    ∃ c found, i.classRef.bind (Dict.get? classes) = some c ∧ found ∈ rules.flatMap (fun rule => rule i c) ∧
      issue = applyPolicy options found := by
  rw [instanceIssues] at h
  cases hclass : i.classRef.bind (Dict.get? classes) with
  | none => rw [hclass] at h; cases h
  | some c =>
    rw [hclass] at h
    obtain ⟨found, hfound, rfl⟩ := List.mem_map.mp h
    exact ⟨c, found, rfl, hfound, rfl⟩

/-- A class whose schema does not compile has one issue of its schema, and this is the only one. -/
theorem schemaIssues_of_uncompiled {s : Snapshot} (hkeys : (Dict.keys s.classes).Nodup) {c : ClassDefinition}
    {schema : Value} {reason : String} (hc : s.class? c.name = some c) (hschema : c.schema = some schema)
    (hbad : engines.schema schema = .error reason) (options : ValidationOptions) :
    ((s.validate engines options).issues.filter fun issue => issue.className = some c.name ∧ issue.isOfSchema) =
      [doesNotCompile c.name reason] := by
  have hcompile : ((compileIssues engines.schema s.classes).filter fun issue =>
      issue.className = some c.name ∧ issue.isOfSchema) = [doesNotCompile c.name reason] := by
    have hentries : (s.classes.filter fun entry => entry.1 = c.name) = [(c.name, c)] := Dict.filter_key hkeys hc
    rw [filter_compileIssues engines.schema s.classes (· = c.name) fun name reason => by simp, hentries]
    simp [compileIssues, compileIssue?, hschema, hbad]
  have hinstances : (s.instances.flatMap (instanceIssues (rules engines options s.classes) options s.classes)).filter
      (fun issue => issue.className = some c.name ∧ issue.isOfSchema) = [] := by
    rw [List.filter_eq_nil_iff]
    intro issue hissue hown
    obtain ⟨hname, hcode⟩ := of_decide_eq_true hown
    obtain ⟨i, -, hi⟩ := List.mem_flatMap.mp hissue
    obtain ⟨d, found, -, hfound, rfl⟩ := mem_instanceIssues hi
    rw [className_applyPolicy] at hname
    rw [isOfSchema_applyPolicy] at hcode
    rcases mem_rules hfound with hfound | hfound
    · obtain ⟨hclass, -, hcompiled⟩ := mem_schemaRule hfound
      obtain hsame : d.name = c.name := Option.some.inj (hclass.symm.trans hname)
      rw [hsame, get?_compiledSchemas hkeys, show Dict.get? s.classes c.name = some c from hc, Option.bind_some,
        hschema, Option.bind_some, hbad] at hcompiled
      cases hcompiled
    · exact code_ne_of_isOfSchema hcode (mem_extraFieldRule hfound).2
  rw [issues_validate, List.filter_append, hcompile, hinstances]
  rfl

/-- All that is found in an instance is about its class. -/
theorem filter_instanceIssues_eq_nil {known : Classes} {i : Instance} {c : ClassDefinition} {name : String}
    (hclass : i.classRef.bind (Dict.get? classes) = some c) (hname : c.name = name) :
    (instanceIssues (rules engines options known) options classes i).filter (·.className ≠ some name) = [] := by
  subst hname
  rw [List.filter_eq_nil_iff]
  intro issue hissue hother
  obtain ⟨d, found, hclass', hfound, rfl⟩ := mem_instanceIssues hissue
  obtain rfl : d = c := Option.some.inj (hclass'.symm.trans hclass)
  refine of_decide_eq_true hother ?_
  rw [className_applyPolicy]
  rcases mem_rules hfound with hfound | hfound
  · exact (mem_schemaRule hfound).1
  · exact (mem_extraFieldRule hfound).1

/-- Of the schemas that compile, only that of its own class matters for an instance. -/
theorem flatMap_rules_congr {known : Classes} {c : ClassDefinition}
    (h : Dict.get? (compiledSchemas engines.schema known) c.name =
      Dict.get? (compiledSchemas engines.schema classes) c.name) (i : Instance) :
    ((rules engines options known).flatMap fun rule => rule i c) =
      (rules engines options classes).flatMap fun rule => rule i c := by
  rw [rules, rules, List.flatMap_cons, List.flatMap_cons, schemaRule, schemaRule, h]

theorem instanceIssues_of_others (hkeys : (Dict.keys classes).Nodup) {c : ClassDefinition}
    (hc : Dict.get? classes c.name = some c) (other : Option Value) (i : Instance) {changed : Classes}
    (hchanged : changed = Dict.insert classes c.name { c with schema := other }) :
    (instanceIssues (rules engines options changed) options changed i).filter (·.className ≠ some c.name) =
      (instanceIssues (rules engines options classes) options classes i).filter (·.className ≠ some c.name) := by
  have hget (name : String) : Dict.get? changed name =
      if name = c.name then some { c with schema := other } else Dict.get? classes name :=
    hchanged ▸ Dict.get?_insert ..
  have hnodup : (Dict.keys changed).Nodup := by
    have hcontains : Dict.contains classes c.name = true := by rw [Dict.contains, hc]; rfl
    rw [hchanged, Dict.insert, if_pos hcontains, Dict.keys_replace]
    exact hkeys
  cases hclass : i.classRef.bind (Dict.get? classes) with
  | none =>
    have hclass' : i.classRef.bind (Dict.get? changed) = none := by
      rw [Option.bind_eq_none_iff] at hclass ⊢
      intro name hname
      rw [hget, if_neg fun heq => ?_]
      · exact hclass name hname
      · rw [heq] at hname
        cases hc.symm.trans (hclass c.name hname)
    rw [instanceIssues, instanceIssues, hclass, hclass']
  | some d =>
    obtain ⟨name, hname, hd⟩ := Option.bind_eq_some_iff.mp hclass
    have hclass' : i.classRef.bind (Dict.get? changed) =
        if name = c.name then some { c with schema := other } else some d := by
      rw [hname, Option.bind_some, hget, hd]
    by_cases hown : d.name = c.name
    · rw [filter_instanceIssues_eq_nil hclass hown]
      split at hclass'
      · exact filter_instanceIssues_eq_nil hclass' rfl
      · exact filter_instanceIssues_eq_nil hclass' hown
    · have hother : name ≠ c.name := by
        rintro rfl
        exact hown (congrArg ClassDefinition.name (Option.some.inj (hd.symm.trans hc)))
      rw [if_neg hother] at hclass'
      have hcompiled : Dict.get? (compiledSchemas engines.schema changed) d.name =
          Dict.get? (compiledSchemas engines.schema classes) d.name := by
        rw [get?_compiledSchemas hnodup, get?_compiledSchemas hkeys, hget, if_neg hown]
      rw [instanceIssues, instanceIssues, hclass, hclass']
      dsimp only
      rw [flatMap_rules_congr hcompiled]

/-- Whatever schema a class has, the reports on other classes are the same. -/
theorem issues_of_others {s : Snapshot} (hkeys : (Dict.keys s.classes).Nodup) {c : ClassDefinition}
    (hc : s.class? c.name = some c) (other : Option Value) (options : ValidationOptions) :
    (({ s with classes := Dict.insert s.classes c.name { c with schema := other } } : Snapshot).validate
        engines options).issues.filter (·.className ≠ some c.name) =
      (s.validate engines options).issues.filter (·.className ≠ some c.name) := by
  have hcompile (classes : Classes) :
      (compileIssues engines.schema classes).filter (·.className ≠ some c.name) =
        compileIssues engines.schema (Dict.erase classes c.name) := by
    rw [Dict.erase]
    exact filter_compileIssues engines.schema classes (· ≠ c.name) fun name reason => by simp
  rw [issues_validate, issues_validate, List.filter_append, List.filter_append, hcompile, hcompile,
    Dict.erase_insert_self, List.filter_flatMap, List.filter_flatMap]
  exact congrArg _ (congrArg (s.instances.flatMap ·)
    (funext fun i => instanceIssues_of_others hkeys hc other i rfl))

/-- Options change levels, and whether undeclared fields are reported; they never change what is detected. A
strict report is the other one with the level `error` for each issue, so it has errors exactly if the other one
has any issues, and the report without undeclared fields is the one with them, less the issues under their
code. A class whose schema does not compile has one issue of its schema, and that schema changes nothing in
what is reported on other classes. -/
theorem policy_changes_levels (engines : ValidationEngines) (s : Snapshot) :
    (∀ extra, (s.validate engines ⟨true, extra⟩).issues =
      (s.validate engines ⟨false, extra⟩).issues.map fun issue => { issue with level := .error }) ∧
    (∀ strict, (s.validate engines ⟨strict, false⟩).issues =
      (s.validate engines ⟨strict, true⟩).issues.filter (·.code ≠ "extra-field")) ∧
    (∀ extra, (s.validate engines ⟨true, extra⟩).hasErrors = true ↔
      (s.validate engines ⟨false, extra⟩).issues ≠ []) ∧
    ((Dict.keys s.classes).Nodup → ∀ c schema reason, s.class? c.name = some c → c.schema = some schema →
      engines.schema schema = .error reason → ∀ options,
        ((s.validate engines options).issues.filter fun issue =>
          issue.className = some c.name ∧ issue.isOfSchema) = [doesNotCompile c.name reason] ∧
        ∀ other, (({ s with classes := Dict.insert s.classes c.name { c with schema := other } } : Snapshot).validate
            engines options).issues.filter (·.className ≠ some c.name) =
          (s.validate engines options).issues.filter (·.className ≠ some c.name)) :=
  ⟨fun extra => validate_strict engines extra s, fun strict => validate_declared engines strict s,
    fun extra => hasErrors_strict_iff engines extra s,
    fun hkeys _ _ _ hc hschema hbad options => ⟨schemaIssues_of_uncompiled hkeys hc hschema hbad options,
      fun other => issues_of_others hkeys hc other options⟩⟩

/-- A class with a schema whose type is a number. -/
def numbered : ClassDefinition := { name := "bad", schema := some (.map [("type", .ofNat 12)]) }

/-- An instance of a class with a schema, and one of a class whose schema does not compile. -/
def halfCompiled : Snapshot :=
  .assemble ⟨"", ""⟩ {}
    [("bad", numbered), ("post", { name := "post", schema := some (.map [("type", .string "array")]) })]
    [{ id := "p", classRef := some "post", properties := [] },
      { id := "q", classRef := some "bad", properties := [] }] []

theorem policy_changes_levels_halfCompiled :
    halfCompiled.class? "bad" = some numbered ∧
      ∃ reason, SchemaEngine.standard (.map [("type", .ofNat 12)]) = .error reason ∧
        ∀ options, ((halfCompiled.validate .standard options).issues.filter fun issue =>
          issue.className = some "bad" ∧ issue.isOfSchema) = [doesNotCompile "bad" reason] := by
  have hclass : halfCompiled.class? "bad" = some numbered := rfl
  have hbad : SchemaEngine.standard (.map [("type", .ofNat 12)]) = .error SchemaEngine.refusal := rfl
  obtain ⟨-, -, -, huncompiled⟩ := policy_changes_levels .standard halfCompiled
  exact ⟨hclass, _, hbad, fun options =>
    (huncompiled (by decide) numbered (.map [("type", .ofNat 12)]) _ hclass rfl hbad options).1⟩

end Validation

end DocModel
