import DocModel.Instance.Defaults
import DocModel.Proofs.Class.Fragments
import DocModel.Proofs.Class.Provenance
import DocModel.Proofs.Document.Order

/-!
# Sources in other places

The same documents below other roots make the same model. Their paths decide in which order class documents
are folded and which of them are schema files, and both depend only on the way down from the root; where they
differ they show in provenance, in the paths of errors, and in the files of warnings.

* `Document.Moved.before_congr`: moved documents are sorted alike.
* `resolveClasses_moved`: moved class documents resolve to the same classes, wherever these came from.
* `LoadedInstances.ofDocuments_moved`: moved instance documents load the same instances.
* `Snapshot.moved_sources_hash_alike`: so the assembled models have one forest and one content hash.
-/

namespace DocModel

/-! ## Moved documents -/

namespace SourcePath

/-- The same way down from two roots, along at least one name. -/
def Moved (root root' : Path) (p p' : SourcePath) : Prop :=
  ∃ names : List FileName, names ≠ [] ∧ p.relativeSteps? root = some (names.map .name) ∧
    p'.relativeSteps? root' = some (names.map .name)

variable {root root' : Path} {p p' q q' : SourcePath}

theorem Moved.fileName?_eq (h : Moved root root' p p') : p.fileName? = p'.fileName? := by
  obtain ⟨names, hne, hp, hp'⟩ := h
  rw [fileName?, fileName?, relativeSteps?_eq_some_iff.mp hp, relativeSteps?_eq_some_iff.mp hp',
    PathStep.lastName?_append hne, PathStep.lastName?_append hne]

theorem Moved.before_congr (hp : Moved root root' p p') (hq : Moved root root' q q') :
    p.before q = p'.before q' := by
  obtain ⟨names, -, hsteps, hsteps'⟩ := hp
  obtain ⟨others, -, hothers, hothers'⟩ := hq
  rw [before, before, relativeSteps?_eq_some_iff.mp hsteps, relativeSteps?_eq_some_iff.mp hsteps',
    relativeSteps?_eq_some_iff.mp hothers, relativeSteps?_eq_some_iff.mp hothers',
    PathStep.listBefore_append_left, PathStep.listBefore_append_left]

end SourcePath

namespace Document

/-- A document and one with its value at its place below another root; each root has one directory in each of
the two runs. -/
structure Moved (roots roots' : Nat → Path) (doc doc' : Document) : Prop where
  rootIndex : doc.provenance.rootIndex = doc'.provenance.rootIndex
  value : doc.value = doc'.value
  path : SourcePath.Moved (roots doc.provenance.rootIndex) (roots' doc.provenance.rootIndex)
    doc.provenance.path doc'.provenance.path

variable {roots roots' : Nat → Path} {a a' b b' : Document}

theorem Moved.before_congr (ha : Moved roots roots' a a') (hb : Moved roots roots' b b') :
    a.provenance.before b.provenance = a'.provenance.before b'.provenance := by
  rw [Provenance.before, Provenance.before, ← ha.rootIndex, ← hb.rootIndex]
  by_cases hroot : a.provenance.rootIndex = b.provenance.rootIndex
  · have hpath := hb.path
    rw [← hroot] at hpath
    rw [ha.path.before_congr hpath]
  · simp [hroot]

end Document

namespace BuildError

/-- The same error, about a moved document if it is about a document. -/
inductive Moved (roots roots' : Nat → Path) : BuildError → BuildError → Prop where
  | document {i : Nat} {p p' : SourcePath} (h : SourcePath.Moved (roots i) (roots' i) p p') (fault : DocumentFault) :
      Moved roots roots' (document p fault) (document p' fault)
  | refl (e : BuildError) : Moved roots roots' e e

end BuildError

variable {roots roots' : Nat → Path} {docs docs' : List Document}

/-! ## Classes -/

namespace ClassDefinition

theorem fragment_congr {p p' : SourcePath} (h : p.fileName? = p'.fileName?) : fragment p = fragment p' := by
  have hsidecar : sidecarName? p = sidecarName? p' := by rw [sidecarName?, sidecarName?, h]
  funext v
  cases v with
  | map body => rw [fragment, fragment, hsidecar]
  | _ => rfl

/-- The same is known of each class, from whatever documents. -/
def SameFields (folded folded' : Dict Folded) : Prop :=
  Dict.mapValues Folded.fields folded = Dict.mapValues Folded.fields folded'

theorem SameFields.insert {folded folded' : Dict Folded} (h : SameFields folded folded') (name : String)
    (fields : Fields) (last last' : Provenance) :
    SameFields (Dict.insert folded name ⟨fields, last⟩) (Dict.insert folded' name ⟨fields, last'⟩) := by
  rw [SameFields, Dict.mapValues_insert, Dict.mapValues_insert, h]

theorem SameFields.get? {folded folded' : Dict Folded} (h : SameFields folded folded') (name : String) :
    (Dict.get? folded name).map Folded.fields = (Dict.get? folded' name).map Folded.fields := by
  rw [← Dict.get?_mapValues, ← Dict.get?_mapValues, h]

theorem foldStep_moved {folded folded' : Dict Folded} {doc doc' : Document} (h : SameFields folded folded')
    (hdoc : doc.Moved roots roots' doc') :
    Except.Alike (BuildError.Moved roots roots') SameFields (foldStep folded doc) (foldStep folded' doc') := by
  cases hfragment : fragment doc.provenance.path doc.value with
  | error fault =>
    have hfragment' := hfragment
    rw [fragment_congr hdoc.path.fileName?_eq, hdoc.value] at hfragment'
    rw [foldStep, foldStep, hfragment, hfragment']
    exact .error (.document hdoc.path fault)
  | ok said =>
    obtain ⟨name, fields⟩ := said
    have hfragment' := hfragment
    rw [fragment_congr hdoc.path.fileName?_eq, hdoc.value] at hfragment'
    rw [foldStep_eq_ok_iff.mpr ⟨name, fields, hfragment, rfl⟩,
      foldStep_eq_ok_iff.mpr ⟨name, fields, hfragment', rfl⟩, h.get? name]
    exact .ok (h.insert name _ _ _)

theorem withoutProvenance_mapEntries (folded : Dict Folded) :
    Classes.withoutProvenance (Dict.mapEntries (fun name known => ofFields name known.fields known.last) folded) =
      Dict.mapEntries (fun name fields => { ofFields name fields ⟨0, ⟨⟨""⟩, []⟩⟩ with provenance := none })
        (Dict.mapValues Folded.fields folded) := by
  rw [Classes.withoutProvenance, Dict.mapValues, Dict.mapValues, Dict.mapEntries, Dict.mapEntries, List.map_map,
    List.map_map]
  rfl

theorem foldDocuments_moved (h : List.Forall₂ (Document.Moved roots roots') docs docs') :
    Except.Alike (BuildError.Moved roots roots')
      (fun own own' => Classes.withoutProvenance own = Classes.withoutProvenance own')
      (foldDocuments docs) (foldDocuments docs') := by
  have hsorted := Document.forall₂_sorted h fun _ _ _ _ ha hb => hb.before_congr ha
  have hstart : SameFields [] [] := rfl
  have hfold := Except.Alike.foldlM (R := Document.Moved roots roots')
    (fun _ _ _ _ h hdoc => foldStep_moved h hdoc) hsorted hstart
  refine hfold.bind fun folded folded' hsame => .ok ?_
  have hright := withoutProvenance_mapEntries folded'
  rw [← hsame] at hright
  exact (withoutProvenance_mapEntries folded).trans hright.symm

end ClassDefinition

theorem resolveClasses_moved (h : List.Forall₂ (Document.Moved roots roots') docs docs') :
    Except.Alike (BuildError.Moved roots roots')
      (fun all all' => all.withoutProvenance = all'.withoutProvenance)
      (resolveClasses docs) (resolveClasses docs') := by
  refine (ClassDefinition.foldDocuments_moved h).bind fun own own' hown => ?_
  refine Except.Alike.of_map_eq BuildError.Moved.refl ?_
  rw [← Resolver.resolveAll_withoutProvenance, ← Resolver.resolveAll_withoutProvenance]
  have hresolver : Resolver.withoutProvenance { own } = Resolver.withoutProvenance { own := own' } :=
    congrArg (fun own : Classes => ({ own } : Resolver)) hown
  rw [hresolver]

/-! ## Instances -/

namespace Issue

def withoutFile (issue : Issue) : Issue := { issue with file := none }

end Issue

namespace Instance

theorem withDefaults_withoutProvenance (classes : Classes) (last : Option SourcePath) (id : String) (fields : Fields) :
    withDefaults classes.withoutProvenance last id fields = withDefaults classes last id fields := by
  rw [withDefaults, withDefaults]
  cases (Dict.get? fields "class").bind Value.string? with
  | none => rfl
  | some name =>
    simp only [Classes.get?_withoutProvenance]
    cases Dict.get? classes name <;> rfl

/-- The last document of a record shows in the file of a remark, and nowhere else. -/
theorem withDefaults_last (classes : Classes) (last last' : Option SourcePath) (id : String) (fields : Fields) :
    (withDefaults classes last id fields).1 = (withDefaults classes last' id fields).1 ∧
      (withDefaults classes last id fields).2.map Issue.withoutFile =
        (withDefaults classes last' id fields).2.map Issue.withoutFile := by
  rw [withDefaults, withDefaults]
  cases (Dict.get? fields "class").bind Value.string? with
  | none => exact ⟨rfl, rfl⟩
  | some name =>
    cases hclass : Dict.get? classes name <;> simp [hclass, unknownClass, Issue.withoutFile]

end Instance

namespace FoldedInstances

/-- The same records, from whatever documents. -/
structure SameRecords (folded folded' : FoldedInstances) : Prop where
  global : folded.global = folded'.global
  records : folded.records = folded'.records

theorem add_moved {folded folded' : FoldedInstances} {doc doc' : Document} (h : SameRecords folded folded')
    (hdoc : doc.Moved roots roots' doc') :
    Except.Alike (BuildError.Moved roots roots') SameRecords (folded.add doc) (folded'.add doc') := by
  rw [add, add, ← hdoc.value]
  cases idOf doc.value with
  | error fault => exact .error (.document hdoc.path fault)
  | ok id =>
    refine .ok ?_
    rw [addTo, addTo, record, record, h.global, h.records, hdoc.value]
    split <;> exact ⟨rfl, rfl⟩

theorem ofDocuments_moved (h : List.Forall₂ (Document.Moved roots roots') docs docs') :
    Except.Alike (BuildError.Moved roots roots') SameRecords (ofDocuments docs) (ofDocuments docs') :=
  Except.Alike.foldlM (R := Document.Moved roots roots') (fun _ _ _ _ hsame hdoc => add_moved hsame hdoc) h
    ⟨rfl, rfl⟩

end FoldedInstances

namespace LoadedInstances

/-- The same instances and the same warnings, about whatever files. -/
structure SameModel (loaded loaded' : LoadedInstances) : Prop where
  instances : loaded.instances = loaded'.instances
  warnings : loaded.warnings.map Issue.withoutFile = loaded'.warnings.map Issue.withoutFile

theorem addRecord_moved {classes classes' : Classes}
    (hclasses : classes.withoutProvenance = classes'.withoutProvenance)
    {provenance provenance' : Dict (List Provenance)} {loaded loaded' : LoadedInstances}
    (h : SameModel loaded loaded') (record : String × Fields) :
    Except.Alike (BuildError.Moved roots roots') SameModel (addRecord classes provenance loaded record)
      (addRecord classes' provenance' loaded' record) := by
  rw [addRecord, addRecord]
  generalize ((Dict.get? provenance record.1).bind List.getLast?).map Provenance.path = last
  generalize ((Dict.get? provenance' record.1).bind List.getLast?).map Provenance.path = last'
  obtain ⟨hfields, hissues⟩ := Instance.withDefaults_last classes last last' record.1 record.2
  have hdefaults : Instance.withDefaults classes last' record.1 record.2 =
      Instance.withDefaults classes' last' record.1 record.2 := by
    rw [← Instance.withDefaults_withoutProvenance, hclasses, Instance.withDefaults_withoutProvenance]
  rw [hdefaults] at hfields hissues
  dsimp only
  rw [hfields]
  generalize Instance.settled (Instance.withDefaults classes' last' record.1 record.2).1 = fields
  cases Instance.ofFields record.1 fields with
  | error e => exact .error (.refl e)
  | ok i =>
    refine .ok ⟨?_, ?_⟩
    · exact congrArg (· ++ [i]) h.instances
    · show List.map _ (_ ++ _) = List.map _ (_ ++ _)
      rw [List.map_append, List.map_append, h.warnings, hissues]

theorem ofDocuments_moved {classes classes' : Classes}
    (hclasses : classes.withoutProvenance = classes'.withoutProvenance)
    (h : List.Forall₂ (Document.Moved roots roots') docs docs') :
    Except.Alike (BuildError.Moved roots roots') SameModel (ofDocuments classes docs)
      (ofDocuments classes' docs') := by
  refine (FoldedInstances.ofDocuments_moved h).bind fun folded folded' hsame => ?_
  rw [hsame.global, hsame.records]
  refine Except.Alike.foldlM (R := Eq) ?_ (List.forall₂_same.mpr fun _ _ => rfl) ⟨rfl, rfl⟩
  rintro loaded loaded' record _ hloaded rfl
  exact addRecord_moved hclasses hloaded record

end LoadedInstances

/-! ## Snapshots -/

namespace Snapshot

theorem assemble_congr {classes classes' : Classes} (h : classes.withoutProvenance = classes'.withoutProvenance)
    (stamp stamp' : BuildStamp) (sourceRoots sourceRoots' : SourceRoots) (instances : List Instance)
    (provenance provenance' : Dict (List Provenance)) :
    (assemble stamp sourceRoots classes instances provenance).hierarchy =
        (assemble stamp' sourceRoots' classes' instances provenance').hierarchy ∧
      (assemble stamp sourceRoots classes instances provenance).contentHash =
        (assemble stamp' sourceRoots' classes' instances provenance').contentHash := by
  constructor
  · show classes.forest = classes'.forest
    rw [← classes.forest_withoutProvenance, h, Classes.forest_withoutProvenance]
  · show contentHashOf (Dict.values classes) _ = contentHashOf (Dict.values classes') _
    rw [contentHashOf, contentHashOf, ← classes.contentText_withoutProvenance, h,
      Classes.contentText_withoutProvenance]

/-- Moving sources to other roots changes nothing but provenance and the paths of documents in errors and
warnings. Class documents resolve to the same classes with the same warnings, or fail alike; with these classes
instance documents load the same instances, or fail alike; and the assembled snapshots have one class forest
and one content hash. -/
theorem moved_sources_hash_alike {classRoots classRoots' instanceRoots instanceRoots' : Nat → Path}
    {classDocs classDocs' instanceDocs instanceDocs' : List Document}
    (hclasses : List.Forall₂ (Document.Moved classRoots classRoots') classDocs classDocs')
    (hinstances : List.Forall₂ (Document.Moved instanceRoots instanceRoots') instanceDocs instanceDocs') :
    Except.Alike (BuildError.Moved classRoots classRoots')
      (fun all all' => all.classes.withoutProvenance = all'.classes.withoutProvenance ∧
        all.warnings.map Issue.withoutFile = all'.warnings.map Issue.withoutFile)
      (resolveClasses classDocs) (resolveClasses classDocs') ∧
    ∀ all all', resolveClasses classDocs = .ok all → resolveClasses classDocs' = .ok all' →
      Except.Alike (BuildError.Moved instanceRoots instanceRoots')
        (fun loaded loaded' => loaded.instances = loaded'.instances ∧
          loaded.warnings.map Issue.withoutFile = loaded'.warnings.map Issue.withoutFile)
        (LoadedInstances.ofDocuments all.classes instanceDocs)
        (LoadedInstances.ofDocuments all'.classes instanceDocs') ∧
      ∀ loaded loaded', LoadedInstances.ofDocuments all.classes instanceDocs = .ok loaded →
        LoadedInstances.ofDocuments all'.classes instanceDocs' = .ok loaded' →
        ∀ stamp stamp' sourceRoots sourceRoots',
          let s := assemble stamp sourceRoots all.classes loaded.instances loaded.provenance
          let s' := assemble stamp' sourceRoots' all'.classes loaded'.instances loaded'.provenance
          s.instances = s'.instances ∧ s.hierarchy = s'.hierarchy ∧ s.contentHash = s'.contentHash := by
  have hresolve := resolveClasses_moved hclasses
  refine ⟨hresolve.imp (fun _ _ h => h) fun all all' h => ?_, fun all all' hall hall' => ?_⟩
  · exact ⟨congrArg ResolvedClasses.classes h, congrArg (·.warnings.map Issue.withoutFile) h⟩
  rw [hall, hall'] at hresolve
  have hsame : all.classes.withoutProvenance = all'.classes.withoutProvenance :=
    congrArg ResolvedClasses.classes hresolve.of_ok
  have hload := LoadedInstances.ofDocuments_moved hsame hinstances
  refine ⟨hload.imp (fun _ _ h => h) fun loaded loaded' h => ⟨h.instances, h.warnings⟩, ?_⟩
  intro loaded loaded' hloaded hloaded' stamp stamp' sourceRoots sourceRoots'
  rw [hloaded, hloaded'] at hload
  have hinstances' : loaded.instances = loaded'.instances := hload.of_ok.instances
  obtain ⟨hhierarchy, hhash⟩ := assemble_congr hsame stamp stamp' sourceRoots sourceRoots' loaded.instances
    loaded.provenance loaded'.provenance
  dsimp only
  rw [← hinstances']
  exact ⟨rfl, hhierarchy, hhash⟩

/-- A class document and a document of an instance of an unknown class, below two directories. -/
def below (classRoot instanceRoot : Path) : Document × Document :=
  (⟨⟨0, classRoot.append "c.json"⟩, .map [("class", .string "c"), ("x", .null)]⟩,
    ⟨⟨0, instanceRoot.append "i.json"⟩, .map [("class", .string "d"), ("id", .string "i")]⟩)

/-- The warning about the unknown class names another file in each run; the hashes are the same. -/
theorem moved_sources_hash_alike_below :
    ∃ all all' loaded loaded',
      resolveClasses [(below ⟨"/a"⟩ ⟨"/b"⟩).1] = .ok all ∧ resolveClasses [(below ⟨"x/y"⟩ ⟨"z/"⟩).1] = .ok all' ∧
      LoadedInstances.ofDocuments all.classes [(below ⟨"/a"⟩ ⟨"/b"⟩).2] = .ok loaded ∧
      LoadedInstances.ofDocuments all'.classes [(below ⟨"x/y"⟩ ⟨"z/"⟩).2] = .ok loaded' ∧
      loaded.warnings.map Issue.file = [some "/b/i.json"] ∧ loaded'.warnings.map Issue.file = [some "z/i.json"] ∧
      ∀ stamp sourceRoots,
        (assemble stamp sourceRoots all.classes loaded.instances loaded.provenance).contentHash =
          (assemble stamp sourceRoots all'.classes loaded'.instances loaded'.provenance).contentHash := by
  have hclasses : List.Forall₂ (Document.Moved (fun _ => ⟨"/a"⟩) fun _ => ⟨"x/y"⟩)
      [(below ⟨"/a"⟩ ⟨"/b"⟩).1] [(below ⟨"x/y"⟩ ⟨"z/"⟩).1] :=
    .cons ⟨rfl, rfl, ["c.json"], by decide, by decide, by decide⟩ .nil
  have hinstances : List.Forall₂ (Document.Moved (fun _ => ⟨"/b"⟩) fun _ => ⟨"z/"⟩)
      [(below ⟨"/a"⟩ ⟨"/b"⟩).2] [(below ⟨"x/y"⟩ ⟨"z/"⟩).2] :=
    .cons ⟨rfl, rfl, ["i.json"], by decide, by decide, by decide⟩ .nil
  have hall : resolveClasses [(below ⟨"/a"⟩ ⟨"/b"⟩).1] =
      .ok ⟨[("c", ⟨"c", [], none, [("x", .null)], some ⟨0, ⟨⟨"/a/c.json"⟩, []⟩⟩⟩)], []⟩ :=
    (resolveClasses_singleton rfl rfl).trans rfl
  have hall' : resolveClasses [(below ⟨"x/y"⟩ ⟨"z/"⟩).1] =
      .ok ⟨[("c", ⟨"c", [], none, [("x", .null)], some ⟨0, ⟨⟨"x/y/c.json"⟩, []⟩⟩⟩)], []⟩ :=
    (resolveClasses_singleton rfl rfl).trans rfl
  obtain ⟨-, hload⟩ := moved_sources_hash_alike hclasses hinstances
  obtain ⟨-, hhash⟩ := hload _ _ hall hall'
  refine ⟨_, _, _, _, hall, hall', rfl, rfl, by decide, by decide, fun stamp sourceRoots => ?_⟩
  exact (hhash _ _ rfl rfl stamp stamp sourceRoots sourceRoots).2.2

end Snapshot

end DocModel
