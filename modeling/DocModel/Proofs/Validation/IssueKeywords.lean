import Mathlib.Data.List.Induction
import DocModel.Proofs.Except
import DocModel.Proofs.Schema.ReadPlaces
import DocModel.Proofs.Text.Parts
import DocModel.Validation

/-!
# Keywords of issues

An issue of the schema rule takes its keyword from the location of a failure: the last step that is neither empty
nor a number. At a keyword, or at a schema in a list, this is the keyword that has failed. A schema that accepts
nothing can also stand under a name, of a property or a pattern, and so can the names that another one asks for.
There the step is what the author of the schema has written, and is taken for a keyword unless it is a number.

* `keywordOf_text`: what is taken from the pointer of a location.
* `PlaceKeyword`: the keyword that is given for a failure at a place; `exists_of_failurePlace` and `keywordOf_eq`
  say that one is, by induction on the way to the place, and that it is the one taken from the pointer.
* `issue_keywords`: all issues of schemas have these keywords.
-/

namespace DocModel

namespace Pointer

/-- How a character is written in a step. -/
def escapeChar (c : Char) : List Char := if c = '~' then ['~', '0'] else if c = '/' then ['~', '1'] else [c]

theorem toList_escape (step : String) : (escape step).toList = step.toList.flatMap escapeChar :=
  String.toList_ofList

theorem escapeChar_cases (c : Char) : (∃ d, escapeChar c = ['~', d] ∧ d ≠ '/' ∧ c.isDigit = false) ∨
    (escapeChar c = [c] ∧ c ≠ '/') := by
  rw [escapeChar]
  split
  · next h => exact .inl ⟨'0', rfl, by decide, by rw [h]; rfl⟩
  · split
    · next h => exact .inl ⟨'1', rfl, by decide, by rw [h]; rfl⟩
    · next h => exact .inr ⟨rfl, h⟩

theorem slash_not_mem_escape (step : String) : '/' ∉ (escape step).toList := by
  rw [toList_escape, List.mem_flatMap]
  rintro ⟨c, -, hc⟩
  rcases escapeChar_cases c with ⟨d, hd, hne, -⟩ | ⟨hd, hne⟩
  · rw [hd] at hc
    simp [hne.symm] at hc
  · rw [hd] at hc
    exact hne (List.mem_singleton.mp hc).symm

theorem text_concat (steps : List String) (step : String) :
    text (steps ++ [step]) = text steps ++ String.singleton '/' ++ escape step := by
  rw [text, List.map_append, String.join_append, List.map_singleton, String.join_cons, String.join_nil,
    String.append_empty, ← String.append_assoc, text]
  rfl

theorem split_text (steps : List String) : Text.split '/' (text steps) = "" :: steps.map escape := by
  induction steps using List.reverseRecOn with
  | nil => rfl
  | append_singleton steps step ih =>
    rw [text_concat, Text.split_append, ih, Text.split_of_not_mem (slash_not_mem_escape step), List.map_append]
    rfl

end Pointer

namespace Validation

/-- A step of a pointer that is taken for a keyword. -/
def isWord (step : String) : Bool := step ≠ "" && !step.all Char.isDigit

theorem isWord_eq (step : String) : isWord step = !step.toList.all Char.isDigit := by
  rw [isWord, String.all_bool_eq]
  by_cases h : step = ""
  · rw [h]
    rfl
  · rw [decide_eq_true h, Bool.true_and]

theorem isWord_eq_false_iff {step : String} : isWord step = false ↔ ∀ c ∈ step.toList, c.isDigit = true := by
  rw [isWord_eq, Bool.not_eq_false', List.all_eq_true]

theorem isWord_toString (i : Nat) : isWord (toString i) = false :=
  isWord_eq_false_iff.mpr fun _ h => Text.isDigit_of_mem_toString h

theorem isWord_escape (step : String) : isWord (Pointer.escape step) = isWord step := by
  refine Bool.eq_iff_iff.mpr (not_iff_not.mp ?_)
  simp only [Bool.not_eq_true, isWord_eq_false_iff, Pointer.toList_escape, List.mem_flatMap]
  -- Only what is no digit is written in another way, with a tilde.
  constructor
  · intro h c hc
    rcases Pointer.escapeChar_cases c with ⟨d, hd, -⟩ | ⟨hd, -⟩
    · exact absurd (h '~' ⟨c, hc, by simp [hd]⟩) (by decide)
    · exact h c ⟨c, hc, by simp [hd]⟩
  · rintro h x ⟨c, hc, hx⟩
    have hdigit := h c hc
    rcases Pointer.escapeChar_cases c with ⟨d, -, -, hnot⟩ | ⟨hd, -⟩
    · rw [hnot] at hdigit
      cases hdigit
    · rw [hd, List.mem_singleton] at hx
      rw [hx]
      exact hdigit

theorem keywordOf_text (steps : List String) :
    keywordOf (Pointer.text steps) = ((steps.reverse.find? isWord).map Pointer.escape).getD "schema" := by
  have hword : isWord ∘ Pointer.escape = isWord := funext isWord_escape
  have hempty : isWord "" = false := rfl
  show ((Text.split '/' (Pointer.text steps)).reverse.find? isWord).getD "schema" = _
  rw [Pointer.split_text, List.reverse_cons, List.find?_append, ← List.map_reverse, List.find?_map, hword]
  simp [hempty]

/-! ## Keywords of places -/

open Schema

/-- Keywords under which a value can fail at a name. -/
def nameKeywords : List String := "dependentRequired" :: memberKeywords

theorem mem_supported_of_name : ∀ k ∈ nameKeywords, k ∈ supportedKeywords := by decide

theorem mem_nameKeywords_of_dependency : ∀ k ∈ dependencyKeywords, k ∈ nameKeywords := by decide

/-- The keyword that is given for a failure at a place: the last one on the way there, unless the way ends at a
name that can be taken for one. -/
inductive PlaceKeyword : List LocationStep → String → Prop where
  /-- The whole schema has failed. -/
  | root : PlaceKeyword [] "schema"
  | keyword (p : List LocationStep) {k : String} (hk : k ∈ supportedKeywords) : PlaceKeyword (p ++ [.keyword k]) k
  | index (p : List LocationStep) {k : String} (i : Nat) (hk : k ∈ branchKeywords) :
      PlaceKeyword (p ++ [.keyword k, .index i]) k
  /-- A name that is passed over as if it were an index. -/
  | number (p : List LocationStep) {k n : String} (hk : k ∈ nameKeywords) (hn : isWord n = false) :
      PlaceKeyword (p ++ [.keyword k, .name n]) k
  /-- A name that is taken for a keyword. -/
  | name (p : List LocationStep) {k n : String} (hk : k ∈ nameKeywords) (hn : isWord n = true) :
      PlaceKeyword (p ++ [.keyword k, .name n]) (Pointer.escape n)

namespace PlaceKeyword

theorem exists_name {k : String} (hk : k ∈ nameKeywords) (n : String) :
    ∃ word, PlaceKeyword [.keyword k, .name n] word := by
  cases hn : isWord n with
  | false => exact ⟨_, .number [] hk hn⟩
  | true => exact ⟨_, .name [] hk hn⟩

/-- What is given is decided at the end of the way. -/
theorem exists_append {front p : List LocationStep} (hfront : ∃ word, PlaceKeyword front word)
    (h : ∃ word, PlaceKeyword p word) : ∃ word, PlaceKeyword (front ++ p) word := by
  obtain ⟨word, h⟩ := h
  cases h with
  | root => rwa [List.append_nil]
  | keyword p hk =>
    rw [← List.append_assoc]
    exact ⟨_, .keyword _ hk⟩
  | index p i hk =>
    rw [← List.append_assoc]
    exact ⟨_, .index _ i hk⟩
  | number p hk hn =>
    rw [← List.append_assoc]
    exact ⟨_, .number _ hk hn⟩
  | name p hk hn =>
    rw [← List.append_assoc]
    exact ⟨_, .name _ hk hn⟩

/-- Something is given for every failure, by induction on the way to it. -/
theorem exists_of_failurePlace {root v : Value} {p : List LocationStep} (h : FailurePlace root v p) :
    ∃ word, PlaceKeyword p word := by
  induction h with
  | refused => exact ⟨_, .root⟩
  | keyword _ hk => exact ⟨_, .keyword [] hk⟩
  | dependent _ hk _ => exact exists_name (mem_nameKeywords_of_dependency _ hk) _
  | under _ hk _ ih => exact exists_append ⟨_, .keyword [] (mem_supported_of_schema _ hk)⟩ ih
  | branch _ hk _ _ ih => exact exists_append ⟨_, .index [] _ hk⟩ ih
  | member _ hk _ _ ih => exact exists_append (exists_name (List.mem_cons_of_mem _ hk) _) ih
  | ref _ _ _ ih => exact exists_append ⟨_, .keyword [] (by decide)⟩ ih

theorem isWord_supported : ∀ k ∈ supportedKeywords, isWord k = true := by
  simp only [isWord_eq]
  decide

theorem escape_supported : ∀ k ∈ supportedKeywords, Pointer.escape k = k := by decide

/-- It is what is taken from the pointer. -/
theorem keywordOf_eq {p : List LocationStep} {word : String} (h : PlaceKeyword p word) :
    keywordOf (Pointer.text (p.map LocationStep.text)) = word := by
  rw [keywordOf_text]
  cases h with
  | root => rfl
  | keyword p hk => simp [LocationStep.text, isWord_supported _ hk, escape_supported _ hk]
  | index p i hk =>
    have hk := mem_supported_of_branch _ hk
    have hindex : isWord i.repr = false := isWord_toString i
    simp [LocationStep.text, isWord_supported _ hk, escape_supported _ hk, hindex]
  | number p hk hn =>
    have hk := mem_supported_of_name _ hk
    simp [LocationStep.text, isWord_supported _ hk, escape_supported _ hk, hn]
  | name p hk hn => simp [LocationStep.text, hn]

end PlaceKeyword

/-! ## Fields that are not allowed -/

/-- A schema that allows no field of this name. -/
def closedSchema (name : String) : Value := .map [("properties", .map [(name, .bool false)])]

def closedClass (name : String) : ClassDefinition := { name := "c", schema := some (closedSchema name) }

def holder (name : String) : Instance := { id := "i", properties := [(name, .bool true)] }

theorem check_closed (ctx : SchemaContext) (name : String) (x : Value) :
    (Schema.all [.properties [(name, .fixed false)]]).check ctx (.map [(name, x)]) =
      [⟨.refused x, [name], ["properties", name]⟩] := by
  simp [Schema.check, keywordChecks, Keyword.check, fieldChecks, Rules.properties, Dict.get?, SchemaCheck.within,
    SchemaFailure.under]

/-- The one failure of a field that is not allowed is at the name of the field. -/
theorem compile_closed (name : String) : ∃ check, SchemaEngine.standard (closedSchema name) = .ok check ∧
    ∀ x, check (.map [(name, x)]) = [⟨.refused x, [name], ["properties", name]⟩] := by
  have hread : Schema.ofValue? .latest (closedSchema name) = some (.all [.properties [(name, .fixed false)]]) := rfl
  refine ⟨_, SchemaEngine.standard_eq_ok_iff.mpr (Schema.compile_eq_some rfl hread rfl rfl), fun x => ?_⟩
  cases Schema.patience [] (.map [(name, x)]) <;> exact check_closed _ name x

/-- So the issue says what is given for this place. -/
theorem schemaRule_closed {name word : String} (h : PlaceKeyword [.keyword "properties", .name name] word) :
    (schemaRule (compiledSchemas .standard [("c", closedClass name)]) (holder name) (closedClass name)).map
      (fun issue => (issue.code, issue.keyword)) = [("schema-" ++ word, some word)] := by
  obtain ⟨check, hcheck, hfinds⟩ := compile_closed name
  have hkeyword : keywordOf (Pointer.text ["properties", name]) = word := h.keywordOf_eq
  have hcompiled : compiledSchemas .standard [("c", closedClass name)] = [("c", check)] := by
    rw [compiledSchemas, List.filterMap_cons, closedClass, Option.bind_some, hcheck]
    rfl
  have hissues : schemaRule [("c", check)] (holder name) (closedClass name) =
      (check (.map [(name, .bool true)])).map (schemaIssue (holder name) (closedClass name)) := rfl
  rw [hcompiled, hissues, hfinds, List.map_singleton, List.map_singleton, schemaIssue, hkeyword]

/-! ## Issues -/

variable {engine : SchemaEngine} {classes : Classes} {i : Instance} {c : ClassDefinition}

theorem exists_failure_of_mem_schemaRule {issue : Issue}
    (h : issue ∈ schemaRule (compiledSchemas engine classes) i c) :
    ∃ d schema check f, (c.name, d) ∈ classes ∧ d.schema = some schema ∧ engine schema = .ok check ∧
      f ∈ check (document i) ∧ issue = schemaIssue i c f := by
  rw [schemaRule] at h
  split at h
  · next check hcheck =>
    obtain ⟨f, hf, rfl⟩ := List.mem_map.mp h
    obtain ⟨⟨name, d⟩, hmem, hcompiled⟩ := List.mem_filterMap.mp (Dict.mem_of_get? hcheck)
    obtain ⟨own, hown, heq⟩ := Option.map_eq_some_iff.mp hcompiled
    obtain ⟨schema, hschema, hengine⟩ := Option.bind_eq_some_iff.mp hown
    cases heq
    exact ⟨d, schema, check, f, hmem, hschema, Except.toOption_eq_some_iff.mp hengine, hf, rfl⟩
  · cases h

/-- Each issue of a schema has the keyword that is given for the place of its failure. -/
theorem issue_keywords (hengine : engine.ReportsPlaces) (classes : Classes) (i : Instance) (c : ClassDefinition) :
    ∀ issue ∈ schemaRule (compiledSchemas engine classes) i c, ∃ d schema check f p word,
      (c.name, d) ∈ classes ∧ d.schema = some schema ∧ engine schema = .ok check ∧ f ∈ check (document i) ∧
      FailurePlace schema schema p ∧ f.location = p.map LocationStep.text ∧ PlaceKeyword p word ∧
      issue = schemaIssue i c f ∧ issue.code = "schema-" ++ word ∧ issue.keyword = some word := by
  intro issue h
  obtain ⟨d, schema, check, f, hmem, hschema, hcheck, hf, rfl⟩ := exists_failure_of_mem_schemaRule h
  obtain ⟨p, hp, hlocation⟩ := hengine schema check hcheck (document i) f hf
  obtain ⟨word, hword⟩ := PlaceKeyword.exists_of_failurePlace hp
  have hkeyword : keywordOf (Pointer.text f.location) = word := by
    rw [hlocation]
    exact hword.keywordOf_eq
  refine ⟨d, schema, check, f, p, word, hmem, hschema, hcheck, hf, hp, hlocation, hword, rfl, ?_, ?_⟩
  · rw [schemaIssue, hkeyword]
  · rw [schemaIssue, hkeyword]

/-- A name that looks like an index is passed over. -/
theorem issue_keywords_closed :
    SchemaEngine.standard.ReportsPlaces ∧
      ∃ issue ∈ schemaRule (compiledSchemas .standard [("c", closedClass "1")]) (holder "1") (closedClass "1"),
        issue.keyword = some "properties" ∧
          ∃ p word, PlaceKeyword p word ∧ issue.code = "schema-" ++ word ∧ issue.keyword = some word := by
  refine ⟨SchemaEngine.standard_reportsPlaces, ?_⟩
  have hissues := schemaRule_closed (.number [] (k := "properties") (n := "1") (by decide) (by rw [isWord_eq]; decide))
  obtain ⟨issue, rest, heq, hissue, -⟩ := List.map_eq_cons_iff.mp hissues
  have hmem : issue ∈ schemaRule (compiledSchemas .standard [("c", closedClass "1")]) (holder "1")
      (closedClass "1") := by
    rw [heq]
    exact List.mem_cons_self
  obtain ⟨_, _, _, _, p, word, -, -, -, -, -, -, hplace, -, hcode, hkeyword⟩ :=
    issue_keywords SchemaEngine.standard_reportsPlaces _ _ _ issue hmem
  exact ⟨issue, hmem, (Prod.mk.inj hissue).2, p, word, hplace, hcode, hkeyword⟩

/-- A field that the schema does not allow is named where the keyword should be. -/
theorem property_taken_for_keyword :
    SchemaEngine.standard.ReportsPlaces ∧
      FailurePlace (closedSchema "v") (closedSchema "v") [.keyword "properties", .name "v"] ∧
      (∃ check, SchemaEngine.standard (closedSchema "v") = .ok check ∧
        (check (document (holder "v"))).map SchemaFailure.location = [["properties", "v"]]) ∧
      (schemaRule (compiledSchemas .standard [("c", closedClass "v")]) (holder "v") (closedClass "v")).map
        (fun issue => (issue.code, issue.keyword)) = [("schema-v", some "v")] ∧
      "v" ∉ supportedKeywords ∧ "v" ≠ "schema" := by
  refine ⟨SchemaEngine.standard_reportsPlaces, ?_, ?_, ?_, by decide, by decide⟩
  · exact .member List.mem_cons_self (by decide) List.mem_cons_self .refused
  · obtain ⟨check, hcheck, hfinds⟩ := compile_closed "v"
    refine ⟨check, hcheck, ?_⟩
    rw [document, holder, hfinds]
    rfl
  · have hword : isWord "v" = true := by
      rw [isWord_eq]
      decide
    exact schemaRule_closed (.name [] (by decide) hword)

end Validation

end DocModel
