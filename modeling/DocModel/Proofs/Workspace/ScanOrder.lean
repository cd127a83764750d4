import DocModel.Proofs.Text.ByteOrder
import DocModel.Proofs.Workspace.Scanning
import Mathlib.Data.Set.List

/-!
# The listing of a root

A scan of a root lists the files of an extension below it, each of them once, and the names of the files and the
tree tell which of two files comes first; it fails if it comes to a directory with a path that is too long.
Documents are read root by root, each root in the order of its scan.

* `isHidden_iff`: which names a scan passes over.
* `IsSource`: which files below a directory a scan is to find.
* `ListedFirst`: which of two files is to come first.
* `exists_sources`: a scan lists just the sources of a directory, in this order.
* `readRoots_eq_ok_iff`: which documents are read from some roots.
-/

namespace DocModel

namespace FileTree

open Workspace (isDirAt)

variable {t : FileTree} {extension : String} {p : SourcePath} {names names' : List FileName}
  {paths : List SourcePath}

/-- Hidden are the names that are texts and start with the byte of a dot. -/
theorem isHidden_iff (name : FileName) :
    isHidden name = true ↔ (∃ s, name = .text s) ∧ name.bytes.head? = some 0x2E := by
  cases name with
  | text s =>
    rw [isHidden, FileName.text?, Option.any_some, decide_eq_true_iff, FileName.bytes, Text.head?_bytes_eq_dot_iff]
    exact ⟨fun h => ⟨⟨s, rfl⟩, h⟩, And.right⟩
  | raw name => exact ⟨nofun, fun ⟨⟨_, h⟩, _⟩ => nomatch h⟩

/-- The names lead to a file of an extension, and none of them is hidden. -/
structure IsSource (t : FileTree) (extension : String) (names : List FileName) : Prop where
  file : (t.file? names).isSome = true
  shown : ∀ name ∈ names, isHidden name = false
  hasExtension : names.getLast?.any (·.hasExtension extension) = true

/-- At the first name where two ways differ, the first one leads to a file and the second one to a directory, or
both lead to the same and the name of the first one has the smaller bytes. -/
def ListedFirst (t : FileTree) (names names' : List FileName) : Prop :=
  ∃ shared a b rest rest', names = shared ++ a :: rest ∧ names' = shared ++ b :: rest' ∧ a ≠ b ∧
    (isDirAt t (shared ++ [a]) = false ∧ isDirAt t (shared ++ [b]) = true ∨
      isDirAt t (shared ++ [a]) = isDirAt t (shared ++ [b]) ∧ a.bytes < b.bytes)

/-- A scan finds the sources of a directory. -/
theorem mem_scan_iff_isSource (h : t.IsProper) (hdir : t.isDir = true) (hscan : scan extension p t = .ok paths)
    {q : SourcePath} : q ∈ paths ↔ ∃ names, t.IsSource extension names ∧ q = p.below names := by
  have hext : ∀ names, (t.file? names).isSome = true →
      (p.below names).hasExtension extension = names.getLast?.any (·.hasExtension extension) := by
    intro names hfile
    refine SourcePath.hasExtension_below ?_ extension
    rintro rfl
    cases t with
    | file content => cases hdir
    | dir es => cases hfile
  rw [mem_scan_iff h hscan]
  refine exists_congr fun names => ?_
  constructor
  · rintro ⟨hfile, hshown, rfl, hq⟩
    exact ⟨⟨hfile, hshown, (hext names hfile).symm.trans hq⟩, rfl⟩
  · rintro ⟨⟨hfile, hshown, hlast⟩, rfl⟩
    exact ⟨hfile, hshown, rfl, (hext names hfile).trans hlast⟩

/-! ## The first difference -/

theorem NamesBefore.exists_difference (h : NamesBefore names names') :
    ∃ shared a b rest rest', names = shared ++ a :: rest ∧ names' = shared ++ b :: rest' ∧
      (rest = [] ∧ rest' ≠ [] ∨ (rest = [] ↔ rest' = []) ∧ a < b) := by
  induction names generalizing names' with
  | nil => exact h.elim
  | cons a rest ih =>
    cases names' with
    | nil => exact h.elim
    | cons b rest' =>
      rcases h with hkind | hname | ⟨rfl, hrest⟩
      · exact ⟨[], a, b, rest, rest', rfl, rfl, .inl hkind⟩
      · exact ⟨[], a, b, rest, rest', rfl, rfl, .inr hname⟩
      · obtain ⟨shared, c, d, last, last', rfl, rfl, hdiff⟩ := ih hrest
        exact ⟨a :: shared, c, d, last, last', rfl, rfl, hdiff⟩

/-- On the way to a file there are directories before its last name, and there alone. -/
theorem isDirAt_on_way {shared rest : List FileName} {name : FileName}
    (h : (t.file? (shared ++ name :: rest)).isSome = true) :
    isDirAt t (shared ++ [name]) = !rest.isEmpty := by
  rw [List.append_cons] at h
  cases rest with
  | nil =>
    rw [List.append_nil] at h
    cases hdir : isDirAt t (shared ++ [name]) with
    | false => rfl
    | true => rw [file?_of_isDirAt hdir] at h; cases h
  | cons next rest =>
    obtain ⟨content, hcontent⟩ := Option.isSome_iff_exists.mp h
    exact isDirAt_of_append (List.cons_ne_nil next rest) (by rw [file?_eq_some_iff.mp hcontent]; rfl)

/-- The order of the names of two files is the order at their first difference. -/
theorem listedFirst_of_namesBefore (h : (t.file? names).isSome = true) (h' : (t.file? names').isSome = true)
    (hbefore : NamesBefore names names') : t.ListedFirst names names' := by
  obtain ⟨shared, a, b, rest, rest', rfl, rfl, hdiff⟩ := hbefore.exists_difference
  refine ⟨shared, a, b, rest, rest', rfl, rfl, ?_, ?_⟩
  · -- One name cannot lead to a file and to a directory, so the kinds do not differ, and neither do the names.
    rintro rfl
    have hkind := (isDirAt_on_way h).symm.trans (isDirAt_on_way h')
    rcases hdiff with ⟨rfl, hne⟩ | ⟨-, hlt⟩
    · cases rest' with
      | nil => exact hne rfl
      | cons next rest' => cases hkind
    · exact FileName.lt_irrefl a hlt
  · rw [isDirAt_on_way h, isDirAt_on_way h']
    refine hdiff.imp (fun ⟨hfile, hdir⟩ => ⟨by simp [hfile], by simp [hdir]⟩) fun ⟨hkind, hlt⟩ => ?_
    exact ⟨by rw [Bool.eq_iff_iff]; simp [hkind], FileName.lt_iff_bytes_lt.mp hlt⟩

/-- A scan of a directory lists its sources, and them alone, in their order. -/
theorem exists_sources (h : t.IsProper) (hdir : t.isDir = true) (hscan : scan extension p t = .ok paths) :
    ∃ sources : List (List FileName), paths = sources.map p.below ∧
      (∀ names, names ∈ sources ↔ t.IsSource extension names) ∧ sources.Pairwise t.ListedFirst := by
  have hrange : paths ∈
      Set.range (List.map fun source : { names // t.IsSource extension names } => p.below source.1) := by
    rw [Set.range_list_map]
    intro q hq
    obtain ⟨names, hsource, rfl⟩ := (mem_scan_iff_isSource h hdir hscan).mp hq
    exact ⟨⟨names, hsource⟩, rfl⟩
  obtain ⟨sources, hpaths⟩ := hrange
  refine ⟨sources.map Subtype.val, by rw [← hpaths, List.map_map]; rfl,
    fun names => ⟨fun hmem => ?_, fun hsource => ?_⟩, ?_⟩
  · obtain ⟨source, -, rfl⟩ := List.mem_map.mp hmem
    exact source.2
  · have hmem := (mem_scan_iff_isSource h hdir hscan).mpr ⟨names, hsource, rfl⟩
    rw [← hpaths] at hmem
    obtain ⟨source, hlisted, heq⟩ := List.mem_map.mp hmem
    obtain rfl := SourcePath.below_injective heq
    exact List.mem_map_of_mem hlisted
  · have hpairwise := pairwise_scan h hscan
    rw [← hpaths] at hpairwise
    refine List.pairwise_map.mpr ((List.pairwise_map.mp hpairwise).imp fun {a b} hbefore => ?_)
    obtain ⟨names, names', ha, hb, hbefore⟩ := hbefore
    obtain rfl := SourcePath.below_injective ha
    obtain rfl := SourcePath.below_injective hb
    exact listedFirst_of_namesBefore a.2.file b.2.file hbefore

end FileTree

namespace Workspace

variable {ws : Workspace} {extension : String} {roots : List Path} {documents : List Document}

/-! ## Root by root -/

/-- Documents with these provenances are read if each file holds the value of its document. -/
theorem readAll_eq_ok_iff {index : Nat} {paths : List SourcePath} :
    (paths.mapM fun path => (return ⟨⟨index, path⟩, ← ws.readDocument path⟩ : Except BuildError Document)) =
        .ok documents ↔
      documents.map Document.provenance = paths.map (Provenance.mk index) ∧
        ∀ d ∈ documents, ws.readDocument d.provenance.path = .ok d.value := by
  rw [Except.mapM_eq_ok_iff]
  induction paths generalizing documents with
  | nil => rw [List.forall₂_nil_left_iff, List.map_nil, List.map_eq_nil_iff]; exact ⟨fun h => ⟨h, by simp [h]⟩, And.left⟩
  | cons path rest ih =>
    rw [List.forall₂_cons_left_iff]
    constructor
    · rintro ⟨d, more, hd, hmore, rfl⟩
      obtain ⟨v, hv, heq⟩ := Except.bind_eq_ok_iff.mp hd
      obtain rfl : (⟨⟨index, path⟩, v⟩ : Document) = d := Except.ok.inj heq
      obtain ⟨hplaces, hvalues⟩ := ih.mp hmore
      exact ⟨List.cons_eq_cons.mpr ⟨rfl, hplaces⟩, List.forall_mem_cons.mpr ⟨hv, hvalues⟩⟩
    · rintro ⟨hplaces, hvalues⟩
      obtain ⟨d, more, rfl, hd, hmore⟩ := List.map_eq_cons_iff.mp hplaces
      obtain ⟨hvalue, hvalues⟩ := List.forall_mem_cons.mp hvalues
      refine ⟨d, more, Except.bind_eq_ok_iff.mpr ⟨d.value, ?_, ?_⟩, ih.mpr ⟨hmore, hvalues⟩, rfl⟩
      · rwa [hd] at hvalue
      · rw [← hd]; rfl

/-- Where the documents of some roots come from, given what the scan of each root lists. -/
def provenances (index : Nat) (scans : List (List SourcePath)) : List Provenance :=
  (scans.zipIdx index).flatMap fun scan => scan.1.map (Provenance.mk scan.2)

theorem provenances_cons (index : Nat) (paths : List SourcePath) (scans : List (List SourcePath)) :
    provenances index (paths :: scans) = paths.map (Provenance.mk index) ++ provenances (index + 1) scans := by
  rw [provenances, List.zipIdx_cons, List.flatMap_cons]
  rfl

theorem le_rootIndex {index : Nat} {scans : List (List SourcePath)} {p : Provenance} (h : p ∈ provenances index scans) :
    index ≤ p.rootIndex := by
  obtain ⟨⟨paths, i⟩, hscan, hp⟩ := List.mem_flatMap.mp h
  obtain ⟨path, -, rfl⟩ := List.mem_map.mp hp
  exact (List.mem_zipIdx hscan).1

/-- The documents of earlier roots come first. -/
theorem pairwise_provenances (index : Nat) (scans : List (List SourcePath)) :
    (provenances index scans).Pairwise fun a b => a.rootIndex ≤ b.rootIndex := by
  induction scans generalizing index with
  | nil => exact List.Pairwise.nil
  | cons paths scans ih =>
    rw [provenances_cons, List.pairwise_append]
    refine ⟨List.pairwise_map.mpr (List.pairwise_of_forall fun _ _ => le_rfl), ih (index + 1), ?_⟩
    intro p hp q hq
    obtain ⟨path, -, rfl⟩ := List.mem_map.mp hp
    exact (Nat.le_succ index).trans (le_rootIndex hq)

theorem readRoot_eq_ok_iff {index : Nat} {root : Path} : ws.readRoot extension index root = .ok documents ↔
    ∃ paths, ws.scan root extension = .ok paths ∧ documents.map Document.provenance = paths.map (Provenance.mk index) ∧
      ∀ d ∈ documents, ws.readDocument d.provenance.path = .ok d.value :=
  Except.bind_eq_ok_iff.trans (exists_congr fun _ => and_congr_right fun _ => readAll_eq_ok_iff)

/-- The roots are read one after the other, from an index on. -/
theorem readFrom_eq_ok_iff {index : Nat} :
    (∃ groups, (roots.zipIdx index).mapM (fun entry => ws.readRoot extension entry.2 entry.1) = .ok groups ∧
        groups.flatten = documents) ↔
      ∃ scans, List.Forall₂ (fun root paths => ws.scan root extension = .ok paths) roots scans ∧
        documents.map Document.provenance = provenances index scans ∧
        ∀ d ∈ documents, ws.readDocument d.provenance.path = .ok d.value := by
  simp only [Except.mapM_eq_ok_iff]
  -- The documents of the first root are those with its index, so they are told from the others by their provenance.
  induction roots generalizing index documents with
  | nil =>
    constructor
    · rintro ⟨groups, hgroups, rfl⟩
      rw [List.forall₂_nil_left_iff.mp hgroups]
      exact ⟨[], .nil, rfl, nofun⟩
    · rintro ⟨scans, hscans, hplaces, -⟩
      rw [List.forall₂_nil_left_iff.mp hscans] at hplaces
      exact ⟨[], .nil, (List.map_eq_nil_iff.mp hplaces).symm⟩
  | cons root rest ih =>
    constructor
    · rintro ⟨groups, hgroups, rfl⟩
      obtain ⟨first, others, hfirst, hothers, rfl⟩ := List.forall₂_cons_left_iff.mp hgroups
      obtain ⟨paths, hscan, hplaces, hvalues⟩ := readRoot_eq_ok_iff.mp hfirst
      obtain ⟨scans, hscans, hplaces', hvalues'⟩ := ih.mp ⟨others, hothers, rfl⟩
      refine ⟨paths :: scans, .cons hscan hscans, ?_, List.forall_mem_append.mpr ⟨hvalues, hvalues'⟩⟩
      rw [provenances_cons, List.flatten_cons, List.map_append, hplaces, hplaces']
    · rintro ⟨scans, hscans, hplaces, hvalues⟩
      obtain ⟨paths, more, hscan, hmore, rfl⟩ := List.forall₂_cons_left_iff.mp hscans
      rw [provenances_cons] at hplaces
      obtain ⟨first, others, rfl, hfirst, hothers⟩ := List.map_eq_append_iff.mp hplaces
      obtain ⟨hvalue, hvalues'⟩ := List.forall_mem_append.mp hvalues
      obtain ⟨groups, hgroups, rfl⟩ := ih.mpr ⟨more, hmore, hothers, hvalues'⟩
      exact ⟨first :: groups, .cons (readRoot_eq_ok_iff.mpr ⟨paths, hscan, hfirst, hvalue⟩) hgroups, rfl⟩

/-- The documents of some roots are those of the scans of the roots, in the order of the roots. -/
theorem readRoots_eq_ok_iff : ws.readRoots extension roots = .ok documents ↔
    ∃ scans, List.Forall₂ (fun root paths => ws.scan root extension = .ok paths) roots scans ∧
      documents.map Document.provenance = provenances 0 scans ∧
      ∀ d ∈ documents, ws.readDocument d.provenance.path = .ok d.value := by
  rw [← readFrom_eq_ok_iff, readRoots, Except.bind_eq_ok_iff]
  exact exists_congr fun groups => and_congr_right fun _ => ⟨Except.ok.inj, congrArg _⟩

/-- A scan of a root lists every source below the root once and nothing else, in the order of sources, and fails
only at a directory whose path is too long. The documents of several roots are those of their scans, root by root. -/
theorem sources_in_order (h : ws.tree.IsProper) (extension : String) :
    (∀ name, FileTree.isHidden name = true ↔ (∃ s, name = .text s) ∧ name.bytes.head? = some 0x2E) ∧
    (∀ root t, ws.node? root = some t → t.isDir = true →
      (∀ paths, ws.scan root extension = .ok paths → ∃ sources : List (List FileName),
        paths = sources.map (SourcePath.below root) ∧ paths.Nodup ∧
        (∀ names, names ∈ sources ↔ t.IsSource extension names) ∧ sources.Pairwise t.ListedFirst) ∧
      ((∃ paths, ws.scan root extension = .ok paths) ↔
        ∀ names, t.IsSearched names → (SourcePath.below root names).isTooLong = false) ∧
      ∀ e, ws.scan root extension = .error e → ∃ names, t.IsSearched names ∧
        (SourcePath.below root names).isTooLong = true ∧
        e = .root (SourcePath.below root names) (.unlisted (SourcePath.below root names) .nameTooLong)) ∧
    (∀ roots documents, ws.readRoots extension roots = .ok documents ↔
      ∃ scans, List.Forall₂ (fun root paths => ws.scan root extension = .ok paths) roots scans ∧
        documents.map Document.provenance = provenances 0 scans ∧
        ∀ d ∈ documents, ws.readDocument d.provenance.path = .ok d.value) ∧
    ∀ roots documents, ws.readRoots extension roots = .ok documents →
      documents.Pairwise fun d d' => d.provenance.rootIndex ≤ d'.provenance.rootIndex := by
  refine ⟨FileTree.isHidden_iff, fun root t hnode hdir => ?_, fun _ _ => readRoots_eq_ok_iff,
    fun roots documents hread => ?_⟩
  · have hproper : t.IsProper := by
      obtain ⟨location, -, hsub⟩ := Option.bind_eq_some_iff.mp hnode
      exact h.subtree hsub
    have hroot : ws.scan root extension = t.scan extension root := by
      cases t with
      | file content => cases hdir
      | dir es => rw [scan, hnode]
    rw [hroot]
    refine ⟨fun paths hscan => ?_, FileTree.exists_scan_eq_ok_iff hproper extension root,
      fun e hscan => FileTree.exists_searched_of_scan hproper hscan⟩
    obtain ⟨sources, hpaths, hmem, hpairwise⟩ := FileTree.exists_sources hproper hdir hscan
    exact ⟨sources, hpaths, FileTree.nodup_scan hproper hscan, hmem, hpairwise⟩
  · obtain ⟨scans, -, hplaces, -⟩ := readRoots_eq_ok_iff.mp hread
    have hpairwise := pairwise_provenances 0 scans
    rw [← hplaces, List.pairwise_map] at hpairwise
    exact hpairwise

/-- A name that starts with a dot, ends in `.json` and is no text. -/
def dottedName : RawName where
  bytes := [0x2E, 0xFF, 0x2E, 0x6A, 0x73, 0x6F, 0x6E]
  not_text s h := by
    have hmem : 0xFF ∈ Text.bytes s := h ▸ .tail _ (.head _)
    exact Text.ne_of_mem_bytes hmem rfl

def dottedRoots : Workspace where
  tree := .dir [("d", .dir [(.raw dottedName, .ofText "{}")])]
  here := []

/-- A scan lists a file whose name starts with a dot if the name is no text. -/
theorem dotted_source_listed :
    dottedRoots.tree.IsProper ∧ (FileName.raw dottedName).bytes.head? = some 0x2E ∧
      dottedRoots.scan ⟨"d"⟩ "json" = .ok [⟨⟨"d"⟩, [.raw dottedName]⟩] := by
  refine ⟨?_, rfl, scan_singleFile rfl rfl (by decide)⟩
  refine FileTree.isProper_dir ⟨by decide, by decide⟩ (List.forall_mem_singleton.mpr ?_)
  exact FileTree.isProper_dir ⟨by decide, by decide⟩ (List.forall_mem_singleton.mpr (FileTree.isProper_file _))

def sampleRoots : Workspace where
  tree := .dir [("d", .dir [("a", .dir [("c.json", .ofText "{}")]), ("b.json", .ofText "{}"),
    ("notes.txt", .ofText ""), (".drafts", .dir [("x.json", .ofText "{}")]), (.raw dottedName, .ofText "{}")])]
  here := []

theorem isProper_sampleRoots : sampleRoots.tree.IsProper := by
  refine FileTree.isProper_dir ⟨by decide, by decide⟩ (List.forall_mem_singleton.mpr ?_)
  refine FileTree.isProper_dir ⟨by decide, by decide⟩ ?_
  simp only [List.forall_mem_cons, List.not_mem_nil, false_imp_iff, implies_true, and_true]
  exact ⟨FileTree.isProper_dir ⟨by decide, by decide⟩ (List.forall_mem_singleton.mpr (FileTree.isProper_file _)),
    FileTree.isProper_file _, FileTree.isProper_file _,
    FileTree.isProper_dir ⟨by decide, by decide⟩ (List.forall_mem_singleton.mpr (FileTree.isProper_file _)),
    FileTree.isProper_file _⟩

theorem searched_sampleRoots {t : FileTree} (ht : sampleRoots.node? ⟨"d"⟩ = some t) {names : List FileName}
    (h : t.IsSearched names) : names = [] ∨ names = ["a"] := by
  cases ht
  have hfile : ∀ {content names}, ¬ (FileTree.file content).IsSearched names := fun {_ names} h => by
    cases names <;> exact nomatch h.isDirAt
  cases names with
  | nil => exact .inl rfl
  | cons name rest =>
    obtain ⟨child, hget, hname, hrest⟩ := FileTree.isSearched_cons.mp h
    have hmem := Dict.mem_of_get? hget
    simp only [List.mem_cons, Prod.mk.injEq, List.not_mem_nil, or_false] at hmem
    rcases hmem with ⟨rfl, rfl⟩ | ⟨-, rfl⟩ | ⟨-, rfl⟩ | ⟨rfl, -⟩ | ⟨-, rfl⟩
    · cases rest with
      | nil => exact .inr rfl
      | cons name' rest =>
        obtain ⟨child, hget, -, hrest⟩ := FileTree.isSearched_cons.mp hrest
        obtain ⟨rfl, rfl⟩ := Prod.mk.inj (List.mem_singleton.mp (Dict.mem_of_get? hget))
        exact absurd hrest hfile
    · exact absurd hrest hfile
    · exact absurd hrest hfile
    · exact absurd hname (by decide)
    · exact absurd hrest hfile

/-- What has a hidden name is passed over below a root, and read where it is a root itself. -/
theorem sources_in_order_sample :
    (∃ sources : List (List FileName),
      sampleRoots.scan ⟨"d"⟩ "json" = .ok (sources.map (SourcePath.below (⟨"d"⟩ : Path))) ∧
      [.text "a", .text "c.json"] ∈ sources ∧ [.text "b.json"] ∈ sources ∧ [.raw dottedName] ∈ sources ∧
      [.text ".drafts", .text "x.json"] ∉ sources) ∧
    ∃ documents, sampleRoots.readRoots "json" [⟨"d/.drafts"⟩, ⟨"d/a"⟩] = .ok documents ∧
      documents.map Document.provenance = [⟨0, ⟨⟨"d/.drafts"⟩, ["x.json"]⟩⟩, ⟨1, ⟨⟨"d/a"⟩, ["c.json"]⟩⟩] ∧
      documents.Pairwise fun d d' => d.provenance.rootIndex ≤ d'.provenance.rootIndex := by
  obtain ⟨-, hscan, hread, hpairwise⟩ := sources_in_order isProper_sampleRoots "json"
  constructor
  · obtain ⟨hsources, hsucceeds, -⟩ := hscan ⟨"d"⟩ _ rfl rfl
    obtain ⟨paths, hpaths⟩ := hsucceeds.mpr fun names hsearched => by
      rcases searched_sampleRoots rfl hsearched with rfl | rfl <;> decide
    obtain ⟨sources, rfl, -, hmem, -⟩ := hsources paths hpaths
    refine ⟨sources, hpaths, (hmem _).mpr ⟨rfl, by decide, by decide⟩, (hmem _).mpr ⟨rfl, by decide, by decide⟩,
      (hmem _).mpr ⟨rfl, by decide, by decide⟩, fun h => ?_⟩
    exact absurd ((hmem _).mp h).shown (by decide)
  · have hdocument : ∀ p, sampleRoots.read p = .ok "{}" → sampleRoots.readDocument p = .ok (.map []) := by
      intro p hp
      simp only [readDocument, readText_of_read hp, bind, Except.bind]
      rfl
    have hdocuments : sampleRoots.readRoots "json" [⟨"d/.drafts"⟩, ⟨"d/a"⟩] =
        .ok [⟨⟨0, ⟨⟨"d/.drafts"⟩, ["x.json"]⟩⟩, .map []⟩, ⟨⟨1, ⟨⟨"d/a"⟩, ["c.json"]⟩⟩, .map []⟩] := by
      refine (hread _ _).mpr ⟨[[⟨⟨"d/.drafts"⟩, ["x.json"]⟩], [⟨⟨"d/a"⟩, ["c.json"]⟩]], ?_, rfl, ?_⟩
      · exact .cons (scan_singleFile rfl rfl (by decide)) (.cons (scan_singleFile rfl rfl (by decide)) .nil)
      · simp only [List.forall_mem_cons, List.not_mem_nil, false_imp_iff, implies_true, and_true]
        exact ⟨hdocument _ (read_ofText rfl), hdocument _ (read_ofText rfl)⟩
    exact ⟨_, hdocuments, rfl, hpairwise _ _ hdocuments⟩

end Workspace

end DocModel
