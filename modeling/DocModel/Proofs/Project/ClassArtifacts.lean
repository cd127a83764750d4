import DocModel.Proofs.Project.Confinement
import DocModel.Proofs.Workspace.Holding

/-!
# The artifacts of classes

Each class has a file for its definition, and one for its schema if it has one. Names of classes without a
slash are kept apart by their files but for one case: the schema of a class goes to the same file as the
definition of the class whose name ends with `.schema` after that. The definition is written later, and stays.

* `location_classFile_eq_iff`: which files of classes are one.
* `holds_definition`, `holds_schema`: what is left in the files when all artifacts are written.
* `class_artifacts_hold`: which of them hold what they were written for.
-/

namespace DocModel

namespace Project

variable {ws ws' : Workspace} {config : BuildConfig} {s : Snapshot}

/-- A file of a class. -/
def classFile (config : BuildConfig) (name suffix : String) : Path :=
  config.artifactsPath.append ("classes/" ++ name ++ suffix)

/-! ## Files of classes -/

theorem isOrdinary_classFile {name suffix : String} (hname : '/' ∉ name.toList)
    (hsuffix : suffix = ".json" ∨ suffix = ".schema.json") : Path.IsOrdinary (name ++ suffix) := by
  have hslash : '/' ∉ suffix.toList := by rcases hsuffix with rfl | rfl <;> decide
  have hlong : 2 < (name ++ suffix).toList.length := by
    rw [String.toList_append, List.length_append]
    rcases hsuffix with rfl | rfl <;> exact Nat.lt_add_left _ (by decide)
  have hne {short : String} (hshort : short.toList.length ≤ 2) : name ++ suffix ≠ short := fun heq =>
    absurd hshort (Nat.not_le.mpr (heq ▸ hlong))
  refine ⟨hne (by decide), hne (by decide), hne (by decide), ?_⟩
  rw [String.toList_append, List.mem_append, not_or]
  exact ⟨hname, hslash⟩

theorem location_classFile_of_not_mem (ws : Workspace) (config : BuildConfig) {name suffix : String}
    (hname : '/' ∉ name.toList) (hsuffix : suffix = ".json" ∨ suffix = ".schema.json") :
    ws.location (classFile config name suffix) =
      ws.location config.artifactsPath ++ [.text "classes"] ++ [.text (name ++ suffix)] := by
  have hordinary := FileName.isOrdinary_text (isOrdinary_classFile hname hsuffix)
  have hpieces : Workspace.pieces ⟨name ++ suffix⟩ = [.text (name ++ suffix)] := by
    rw [Workspace.pieces, Text.split, Text.splitChars_of_not_mem hordinary.slashless, List.map_singleton, String.ofList_toList,
      List.map_singleton]
  rw [classFile, location_classFile, hpieces, List.foldl_cons, List.foldl_nil, Workspace.target,
    if_neg (by simp [hordinary.ne_empty, hordinary.ne_current]), if_neg hordinary.ne_parent]

/-- Files of classes are one if they have one name. -/
theorem location_classFile_eq_iff {name suffix other suffix' : String} (hname : '/' ∉ name.toList)
    (hother : '/' ∉ other.toList) (hsuffix : suffix = ".json" ∨ suffix = ".schema.json")
    (hsuffix' : suffix' = ".json" ∨ suffix' = ".schema.json") :
    ws.location (classFile config name suffix) = ws.location (classFile config other suffix') ↔
      name ++ suffix = other ++ suffix' := by
  rw [location_classFile_of_not_mem ws config hname hsuffix, location_classFile_of_not_mem ws config hother hsuffix',
    List.append_cancel_left_eq, List.singleton_inj, FileName.text.injEq]

theorem path_of_mem_classArtifacts {name : String} {c : ClassDefinition} {w : FileWrite}
    (h : w ∈ classArtifacts config name c) :
    w.path = classFile config name ".json" ∨ w.path = classFile config name ".schema.json" := by
  rcases List.mem_cons.mp h with rfl | h
  · exact .inl rfl
  · obtain ⟨schema, -, rfl⟩ := List.mem_map.mp h
    exact .inr rfl

theorem append_schema (name : String) : name ++ ".schema.json" = name ++ ".schema" ++ ".json" := by
  have hsuffix : ".schema.json" = ".schema" ++ ".json" := by decide
  rw [hsuffix, String.append_assoc]

/-- A schema has its file in the place of the definition of another class. -/
theorem classFile_schema (config : BuildConfig) (name : String) :
    classFile config name ".schema.json" = classFile config (name ++ ".schema") ".json" := by
  simp only [classFile, append_schema, String.append_assoc]

/-! ## What is left in the files -/

/-- No class name has a slash in it. -/
def NamesFiles (s : Snapshot) : Prop := ∀ entry ∈ s.classes, '/' ∉ entry.1.toList

/-- A name comes before those that it opens. -/
theorem not_append_lt (name suffix : String) : ¬ name ++ suffix < name := by
  show ¬ (name ++ suffix).toList < name.toList
  rw [String.toList_append]
  exact List.le_append_left

/-- The artifacts of the classes after a class: their names are greater. -/
theorem exists_of_mem_later {back : Classes} {w : FileWrite}
    (h : w ∈ back.flatMap fun entry => classArtifacts config entry.1 entry.2) :
    ∃ entry ∈ back, w.path = classFile config entry.1 ".json" ∨ w.path = classFile config entry.1 ".schema.json" := by
  obtain ⟨entry, hentry, hw⟩ := List.mem_flatMap.mp h
  exact ⟨entry, hentry, path_of_mem_classArtifacts hw⟩

/-- A class has its artifacts written after those of the classes before it, and before those of the classes
after it, whose names are greater. -/
theorem exists_split (config : BuildConfig) (hordered : Dict.Ordered s.classes) {name : String}
    {c : ClassDefinition} (hc : (name, c) ∈ s.classes) :
    ∃ (before : List FileWrite) (back : Classes), snapshotArtifacts config s =
        before ++ (classArtifacts config name c ++
          back.flatMap fun entry => classArtifacts config entry.1 entry.2) ∧
      ∀ entry ∈ back, entry ∈ s.classes ∧ name < entry.1 := by
  obtain ⟨front, back, hclasses⟩ := List.append_of_mem hc
  refine ⟨artifact config "snapshot.json" s.toValue ::
    front.flatMap fun entry => classArtifacts config entry.1 entry.2, back, ?_, fun entry hentry => ⟨?_, ?_⟩⟩
  · rw [snapshotArtifacts, hclasses, List.flatMap_append, List.flatMap_cons]
    rfl
  · rw [hclasses]
    exact List.mem_append_right _ (List.mem_cons_of_mem _ hentry)
  · rw [Dict.Ordered, Dict.keys, hclasses, List.map_append, List.map_cons] at hordered
    exact List.rel_of_pairwise_cons (List.pairwise_append.mp hordered).2.1 (List.mem_map_of_mem hentry)

variable (hordered : Dict.Ordered s.classes) (hnames : NamesFiles s)
  (h : Build.writeAll (snapshotArtifacts config s) ws = (.ok (), ws'))

include hordered hnames h

/-- The file of a definition holds it. -/
theorem holds_definition {name : String} {c : ClassDefinition} (hc : (name, c) ∈ s.classes) :
    ws'.Holds (classFile config name ".json") c.toValue.pretty := by
  obtain ⟨before, back, hsplit, hback⟩ := exists_split config hordered hc
  rw [hsplit, classArtifacts, List.cons_append] at h
  refine Workspace.holds_of_writeAll h fun w hw hsame => ?_
  have hname : '/' ∉ name.toList := hnames _ hc
  rcases List.mem_append.mp hw with hw | hw
  · obtain ⟨schema, -, rfl⟩ := List.mem_map.mp hw
    have heq := (location_classFile_eq_iff hname hname (.inr rfl) (.inl rfl)).mp hsame
    exact absurd ((String.append_right_inj name).mp heq) (by decide)
  · obtain ⟨entry, hentry, hpath | hpath⟩ := exists_of_mem_later hw
    all_goals
      obtain ⟨hmem, hlt⟩ := hback entry hentry
      rw [hpath] at hsame
    · have heq := (location_classFile_eq_iff (hnames _ hmem) hname (.inl rfl) (.inl rfl)).mp hsame
      rw [(String.append_left_inj ".json").mp heq] at hlt
      exact String.lt_irrefl _ hlt
    · have heq := (location_classFile_eq_iff (hnames _ hmem) hname (.inr rfl) (.inl rfl)).mp hsame
      rw [append_schema] at heq
      rw [← (String.append_left_inj ".json").mp heq] at hlt
      exact not_append_lt entry.1 ".schema" hlt

/-- The file of a schema holds it, if no class has the name of that file. -/
theorem holds_schema {name : String} {c : ClassDefinition} (hc : (name, c) ∈ s.classes) {schema : Value}
    (hschema : c.schema = some schema) (hfree : s.class? (name ++ ".schema") = none) :
    ws'.Holds (classFile config name ".schema.json") schema.pretty := by
  obtain ⟨before, back, hsplit, hback⟩ := exists_split config hordered hc
  rw [hsplit, classArtifacts, hschema, Option.toList_some, List.map_singleton, List.cons_append,
    List.singleton_append, List.append_cons] at h
  refine Workspace.holds_of_writeAll h fun w hw hsame => ?_
  have hname : '/' ∉ name.toList := hnames _ hc
  obtain ⟨entry, hentry, hpath | hpath⟩ := exists_of_mem_later hw
  all_goals
    obtain ⟨hmem, hlt⟩ := hback entry hentry
    rw [hpath] at hsame
  · have heq := (location_classFile_eq_iff (hnames _ hmem) hname (.inl rfl) (.inr rfl)).mp hsame
    rw [append_schema] at heq
    have hfound := Dict.get?_of_mem hordered.nodup hmem
    rw [(String.append_left_inj ".json").mp heq] at hfound
    exact nomatch hfree.symm.trans hfound
  · have heq := (location_classFile_eq_iff (hnames _ hmem) hname (.inr rfl) (.inr rfl)).mp hsame
    rw [(String.append_left_inj ".schema.json").mp heq] at hlt
    exact String.lt_irrefl _ hlt

omit hordered hnames h

/-- If all artifacts of a model are written, each class has its definition in the file of that name. The file
for its schema holds the schema if no class has the name of the file; if one has, it holds the definition of
that class, so the schema is in its place only if both have one text. -/
theorem class_artifacts_hold (hordered : Dict.Ordered s.classes) (hnames : NamesFiles s)
    (hwant : config.writeArtifacts = true)
    (h : writeArtifacts config (snapshotArtifacts config s) ws = (.ok (), ws')) {name : String}
    {c : ClassDefinition} (hc : s.class? name = some c) :
    ws'.read (classFile config name ".json") = .ok c.toValue.pretty ∧
      ∀ schema, c.schema = some schema →
        ws'.read (classFile config name ".schema.json") =
          .ok (((s.class? (name ++ ".schema")).map fun d => d.toValue.pretty).getD schema.pretty) ∧
        (ws'.read (classFile config name ".schema.json") = .ok schema.pretty ↔
          ∀ d, s.class? (name ++ ".schema") = some d → d.toValue.pretty = schema.pretty) := by
  rw [writeArtifacts, if_pos hwant] at h
  have hmem := Dict.mem_of_get? hc
  refine ⟨(holds_definition hordered hnames h hmem).read, fun schema hschema => ?_⟩
  cases hother : s.class? (name ++ ".schema") with
  | none => simp [(holds_schema hordered hnames h hmem hschema hother).read]
  | some d =>
    have hread := (holds_definition hordered hnames h (Dict.mem_of_get? hother)).read
    rw [← classFile_schema] at hread
    simp [hread]

/-! ## Two classes for one file -/

/-- A class with a schema, and one that is named like the file of this schema. -/
def namesakes : Classes := [("a", { name := "a", schema := some (.map []) }), ("a.schema", { name := "a.schema" })]

def namesakeModel : Snapshot := .assemble ⟨"", ""⟩ {} namesakes [] []

def namesakeConfig : BuildConfig := { classRoots := [⟨"c"⟩], buildRoot := ⟨"o"⟩ }

/-- A workspace with a directory of artifacts that holds these files. -/
def artifactSpace (files classFiles : List (FileName × FileTree)) (log : List FileWrite) : Workspace :=
  ⟨.dir [("o", .dir [("_artifacts", .dir (("classes", .dir classFiles) :: files))])], [], log⟩

theorem hasPlace_artifactSpace : ∀ p ∈ [(⟨"o/_artifacts/snapshot.json"⟩ : Path), ⟨"o/_artifacts/classes/a.json"⟩,
    ⟨"o/_artifacts/classes/a.schema.json"⟩], (artifactSpace [] [] []).HasPlace p := by
  have hclasses : ∃ dir location, some (⟨"o/_artifacts/classes"⟩ : Path) = some dir ∧ dir.fault? = none ∧
      (artifactSpace [] [] []).trace dir = .ok location ∧
      Workspace.isDirAt (artifactSpace [] [] []).tree location = true :=
    ⟨_, ["o", "_artifacts", "classes"], rfl, by decide, rfl, rfl⟩
  simp only [List.forall_mem_cons, List.not_mem_nil, false_imp_iff, implies_true, and_true]
  refine ⟨⟨by decide, ?_, ["o", "_artifacts"], _, _, rfl, by decide, rfl, rfl, rfl⟩,
    ⟨by decide, hclasses, ["o", "_artifacts", "classes"], _, _, rfl, by decide, rfl, rfl, rfl⟩,
    ⟨by decide, hclasses, ["o", "_artifacts", "classes"], _, _, rfl, by decide, rfl, rfl, rfl⟩⟩
  exact ⟨⟨"o/_artifacts"⟩, ["o", "_artifacts"], rfl, by decide, rfl, rfl⟩

theorem writeArtifacts_namesakes : ∃ ws,
    writeArtifacts namesakeConfig (snapshotArtifacts namesakeConfig namesakeModel) (artifactSpace [] [] []) =
      (.ok (), ws) := by
  have hpaths : (snapshotArtifacts namesakeConfig namesakeModel).map FileWrite.path =
      [⟨"o/_artifacts/snapshot.json"⟩, ⟨"o/_artifacts/classes/a.json"⟩, ⟨"o/_artifacts/classes/a.schema.json"⟩,
        ⟨"o/_artifacts/classes/a.schema.json"⟩] := rfl
  refine Workspace.exists_writeAll_eq_ok fun w hw => hasPlace_artifactSpace w.path ?_
  have hpath := List.mem_map_of_mem (f := FileWrite.path) hw
  rw [hpaths] at hpath
  simpa using hpath

theorem ordered_namesakes : Dict.Ordered namesakeModel.classes := by
  show List.Pairwise (· < ·) ["a", "a.schema"]
  decide

theorem namesFiles_namesakes : NamesFiles namesakeModel := by
  show ∀ entry ∈ namesakes, '/' ∉ entry.1.toList
  decide

/-- The schema is gone: the file that it was written to holds the definition of the other class. -/
theorem schema_artifact_overwritten :
    Dict.Ordered namesakeModel.classes ∧ (∀ entry ∈ namesakeModel.classes, entry.1 ≠ "" ∧ '/' ∉ entry.1.toList) ∧
      ∃ ws, writeArtifacts namesakeConfig (snapshotArtifacts namesakeConfig namesakeModel) (artifactSpace [] [] []) =
          (.ok (), ws) ∧
        ∃ c, namesakeModel.class? "a" = some c ∧ c.schema = some (.map []) ∧
          ws.read (classFile namesakeConfig "a" ".schema.json") ≠ .ok (Value.map []).pretty := by
  obtain ⟨ws, hwrite⟩ := writeArtifacts_namesakes
  have hfiles : ∀ entry ∈ namesakes, entry.1 ≠ "" ∧ '/' ∉ entry.1.toList := by decide
  refine ⟨ordered_namesakes, hfiles, ws, hwrite, _, rfl, rfl, fun hread => ?_⟩
  have hall : Build.writeAll (snapshotArtifacts namesakeConfig namesakeModel) (artifactSpace [] [] []) =
      (.ok (), ws) := hwrite
  have hother : ("a.schema", { name := "a.schema" }) ∈ namesakeModel.classes := .tail _ (.head _)
  have hheld := (holds_definition ordered_namesakes namesFiles_namesakes hall hother).read
  have hsame : classFile namesakeConfig "a.schema" ".json" = classFile namesakeConfig "a" ".schema.json" := by decide
  rw [hsame, hread] at hheld
  exact absurd (Except.ok.inj hheld) (by decide)

/-- The definitions of both classes are in their files, that of one of them in the place of the schema. -/
theorem class_artifacts_hold_namesakes : ∃ ws,
    writeArtifacts namesakeConfig (snapshotArtifacts namesakeConfig namesakeModel) (artifactSpace [] [] []) =
        (.ok (), ws) ∧
      ws.read (classFile namesakeConfig "a" ".json") =
        .ok (ClassDefinition.toValue { name := "a", schema := some (.map []) }).pretty ∧
      ws.read (classFile namesakeConfig "a" ".schema.json") =
        .ok (ClassDefinition.toValue { name := "a.schema" }).pretty := by
  obtain ⟨ws, hwrite⟩ := writeArtifacts_namesakes
  have hclass : namesakeModel.class? "a" = some { name := "a", schema := some (.map []) } := rfl
  obtain ⟨hdefinition, hschema⟩ :=
    class_artifacts_hold ordered_namesakes namesFiles_namesakes rfl hwrite hclass
  exact ⟨ws, hwrite, hdefinition, (hschema (.map []) rfl).1⟩

end Project

end DocModel
