import DocModel.Proofs.Workspace.Growth
import DocModel.Source

/-!
# Scanning

A scan finds the files of an extension below a directory, those with a hidden name on their way excepted, and
lists them in an order that depends on their names alone, unless it comes to a directory that cannot be listed. So
a scan is known from which files and directories there are.

* `FileTree.mem_scan_iff`: which paths a scan finds.
* `FileTree.pairwise_scan`: the order in which it lists them.
* `FileTree.not_isTooLong_of_scan`, `FileTree.exists_searched_of_scan`: the directories that a scan goes to, and
  how it fails.
* `FileTree.scan_of_scan`: two trees with the same files of an extension are scanned alike.
* `Workspace.foldlM_follow_below`: the names that a scan finds lead to the files that it found.
-/

namespace DocModel

namespace Path

end Path

namespace SourcePath

variable {p : SourcePath} {names names' : List FileName}

/-- Goes on from a path by some names. -/
def below (p : SourcePath) (names : List FileName) : SourcePath := { p with names := p.names ++ names }

@[simp] theorem below_nil (p : SourcePath) : p.below [] = p := by rw [below, List.append_nil]

theorem append_below (p : SourcePath) (name : FileName) (names : List FileName) :
    (p.append name).below names = p.below (name :: names) := by
  simp only [below, append, List.append_assoc, List.singleton_append]

theorem below_injective (h : p.below names = p.below names') : names = names' :=
  List.append_cancel_left (SourcePath.mk.inj h).2

/-- The extension of a path is that of its last name. -/
theorem hasExtension_below (hne : names ≠ []) (extension : String) :
    (p.below names).hasExtension extension = names.getLast?.any (·.hasExtension extension) := by
  have hsteps : p.names ++ names ≠ [] := List.append_ne_nil_of_right_ne_nil _ hne
  rw [hasExtension, fileName?, steps, below, PathStep.lastName?_append hsteps, List.getLast?_append_of_ne_nil _ hne]

/-- A path that a file system takes is not too long. -/
theorem not_isTooLong_of_fault? {root : Path} (h : root.fault? = none) : isTooLong root = false := by
  have hsize : (Text.bytes root.text).length = root.text.utf8ByteSize := rfl
  rw [isTooLong, bytes, List.foldl_nil, hsize, decide_eq_false_iff_not]
  intro hlong
  rw [Path.fault?] at h
  split_ifs at h

end SourcePath

namespace FileTree

/-- Induction along the directories of a tree. -/
theorem induct {motive : FileTree → Prop} (file : ∀ content, motive (.file content))
    (dir : ∀ es : List (FileName × FileTree), (∀ e ∈ es, motive e.2) → motive (.dir es)) : ∀ t, motive t
  | .file content => file content
  | .dir es => dir es fun e _ => induct file dir e.2
  decreasing_by
    obtain ⟨name, child⟩ := e
    have hlt := List.sizeOf_lt_of_mem ‹(name, child) ∈ es›
    simp only [FileTree.dir.sizeOf_spec, Prod.mk.sizeOf_spec] at hlt ⊢
    omega

/-- The entries of a directory in the order in which a scan goes to them. -/
def visited (es : List (FileName × FileTree)) : List (FileName × FileTree) :=
  (es.filter fun e => !isHidden e.1).mergeSort fun a b =>
    !Found.before ⟨b.1, b.2.isDir, .ok []⟩ ⟨a.1, a.2.isDir, .ok []⟩

theorem scanEntries_eq (extension : String) (p : SourcePath) (es : List (FileName × FileTree)) :
    scanEntries extension p es =
      (es.filter fun e => !isHidden e.1).map fun e => ⟨e.1, e.2.isDir, scan extension (p.append e.1) e.2⟩ := by
  induction es with
  | nil => rw [scanEntries]; rfl
  | cons e rest ih =>
    obtain ⟨name, child⟩ := e
    rw [scanEntries, ih]
    cases h : isHidden name <;> simp [h]

/-- A directory that can be listed is scanned entry by entry. -/
theorem scan_dir (extension : String) {p : SourcePath} (h : p.isTooLong = false) (es : List (FileName × FileTree)) :
    scan extension p (.dir es) = do
      return (← (visited es).mapM fun e => scan extension (p.append e.1) e.2).flatten := by
  rw [scan, h, scanEntries_eq, Found.ordered, visited]
  rw [← List.map_mergeSort (r := fun a b => !Found.before ⟨b.1, b.2.isDir, .ok []⟩ ⟨a.1, a.2.isDir, .ok []⟩)]
  · rw [List.mapM_map]
    rfl
  · intro a _ b _
    rfl

theorem scan_dir_eq_ok_iff {extension : String} {p : SourcePath} {es : List (FileName × FileTree)}
    {paths : List SourcePath} : scan extension p (.dir es) = .ok paths ↔ p.isTooLong = false ∧
      ∃ groups, (visited es).mapM (fun e => scan extension (p.append e.1) e.2) = .ok groups ∧
        groups.flatten = paths := by
  cases h : p.isTooLong with
  | true => simp [scan, h]
  | false =>
    rw [scan_dir extension h, Except.bind_eq_ok_iff]
    exact ⟨fun ⟨groups, hgroups, heq⟩ => ⟨rfl, groups, hgroups, Except.ok.inj heq⟩,
      fun ⟨_, groups, hgroups, heq⟩ => ⟨groups, hgroups, congrArg _ heq⟩⟩

/-! ## What is found -/

theorem file?_eq_some_iff {t : FileTree} {location : List FileName} {content : List UInt8} :
    t.file? location = some content ↔ t.at? location = some (.file content) := by
  rw [file?]
  cases t.at? location with
  | none => simp
  | some node => cases node <;> simp

theorem mem_visited {es : List (FileName × FileTree)} {e : FileName × FileTree} :
    e ∈ visited es ↔ e ∈ es ∧ isHidden e.1 = false := by
  rw [visited, List.mem_mergeSort, List.mem_filter, Bool.not_eq_true']

theorem IsProper.entries {es : List (FileName × FileTree)} (h : IsProper (.dir es)) : ProperEntries es :=
  h [] es rfl

theorem IsProper.get? {es : List (FileName × FileTree)} (h : IsProper (.dir es)) {e : FileName × FileTree}
    (he : e ∈ es) : Dict.get? es e.1 = some e.2 := Dict.get?_of_mem h.entries.nodup he

theorem IsProper.child {es : List (FileName × FileTree)} (h : IsProper (.dir es)) {e : FileName × FileTree}
    (he : e ∈ es) : e.2.IsProper := by
  intro location es' hes'
  refine h (e.1 :: location) es' ?_
  rw [at?, entries_dir, h.get? he]
  exact hes'

theorem at?_cons {es : List (FileName × FileTree)} {name : FileName} {rest : List FileName} :
    (dir es).at? (name :: rest) = (Dict.get? es name).bind (·.at? rest) := by
  rw [at?, entries_dir]
  cases Dict.get? es name <;> rfl

theorem file?_cons {es : List (FileName × FileTree)} {name : FileName} {rest : List FileName} :
    (dir es).file? (name :: rest) = (Dict.get? es name).bind (·.file? rest) := by
  rw [file?, at?_cons]
  cases Dict.get? es name <;> rfl

/-- A scan finds the files of its extension that have no hidden name on their way, and nothing else. -/
theorem mem_scan_iff {t : FileTree} (h : t.IsProper) {extension : String} {p q : SourcePath}
    {paths : List SourcePath} (hscan : scan extension p t = .ok paths) :
    q ∈ paths ↔ ∃ names, (t.file? names).isSome = true ∧
      (∀ name ∈ names, isHidden name = false) ∧ q = p.below names ∧ q.hasExtension extension = true := by
  induction t using FileTree.induct generalizing p paths with
  | file content =>
    rw [scan] at hscan
    cases hscan
    constructor
    · intro hq
      split at hq
      · next hext =>
        obtain rfl := List.mem_singleton.mp hq
        exact ⟨[], rfl, nofun, (SourcePath.below_nil q).symm, hext⟩
      · cases hq
    · rintro ⟨names, hfile, -, rfl, hext⟩
      cases names with
      | nil =>
        rw [SourcePath.below_nil] at hext ⊢
        rw [if_pos hext]
        exact List.mem_singleton_self p
      | cons name rest => cases hfile
  | dir es ih =>
    obtain ⟨-, groups, hgroups, rfl⟩ := scan_dir_eq_ok_iff.mp hscan
    rw [List.mem_flatten]
    constructor
    · rintro ⟨group, hgroup, hq⟩
      obtain ⟨e, he, hfound⟩ := (Except.mem_iff_of_mapM hgroups).mp hgroup
      obtain ⟨he, hhidden⟩ := mem_visited.mp he
      obtain ⟨names, hfile, hnames, rfl, hext⟩ := (ih e he (h.child he) hfound).mp hq
      refine ⟨e.1 :: names, ?_, List.forall_mem_cons.mpr ⟨hhidden, hnames⟩, p.append_below e.1 names, hext⟩
      rwa [file?_cons, h.get? he]
    · rintro ⟨names, hfile, hnames, rfl, hext⟩
      cases names with
      | nil => cases hfile
      | cons name rest =>
        rw [file?_cons] at hfile
        cases hget : Dict.get? es name with
        | none => rw [hget] at hfile; cases hfile
        | some child =>
          rw [hget] at hfile
          obtain ⟨hname, hrest⟩ := List.forall_mem_cons.mp hnames
          have he := Dict.mem_of_get? hget
          have hvisited := mem_visited.mpr ⟨he, hname⟩
          obtain ⟨group, hfound⟩ := Except.exists_of_mapM hgroups hvisited
          exact ⟨group, (Except.mem_iff_of_mapM hgroups).mpr ⟨_, hvisited, hfound⟩,
            (ih _ he (h.child he) hfound).mpr ⟨rest, hfile, hrest, (p.append_below name rest).symm, hext⟩⟩

/-! ## Where a scan goes -/

open Workspace (isDirAt)

/-- The names lead to a directory, and none of them is hidden. -/
structure IsSearched (t : FileTree) (names : List FileName) : Prop where
  isDirAt : isDirAt t names = true
  shown : ∀ name ∈ names, isHidden name = false

theorem isSearched_nil {es : List (FileName × FileTree)} : (dir es).IsSearched [] := ⟨rfl, nofun⟩

theorem isSearched_cons {es : List (FileName × FileTree)} {name : FileName} {rest : List FileName} :
    (dir es).IsSearched (name :: rest) ↔
      ∃ child, Dict.get? es name = some child ∧ isHidden name = false ∧ child.IsSearched rest := by
  constructor
  · rintro ⟨hdir, hshown⟩
    obtain ⟨hname, hrest⟩ := List.forall_mem_cons.mp hshown
    rw [Workspace.isDirAt, at?_cons] at hdir
    cases hget : Dict.get? es name with
    | none => rw [hget] at hdir; cases hdir
    | some child =>
      rw [hget] at hdir
      exact ⟨child, rfl, hname, hdir, hrest⟩
  · rintro ⟨child, hget, hname, hdir, hrest⟩
    refine ⟨?_, List.forall_mem_cons.mpr ⟨hname, hrest⟩⟩
    rw [Workspace.isDirAt, at?_cons, hget]
    exact hdir

/-- A scan that succeeds has been to no directory with a path that is too long. -/
theorem not_isTooLong_of_scan {t : FileTree} {extension : String} {p : SourcePath}
    {paths : List SourcePath} (hscan : scan extension p t = .ok paths) {names : List FileName}
    (hsearched : t.IsSearched names) : (p.below names).isTooLong = false := by
  induction t using FileTree.induct generalizing p paths names with
  | file content =>
    cases names with
    | nil => exact nomatch hsearched.isDirAt
    | cons name rest => exact nomatch hsearched.isDirAt
  | dir es ih =>
    obtain ⟨hshort, groups, hgroups, -⟩ := scan_dir_eq_ok_iff.mp hscan
    cases names with
    | nil => rwa [SourcePath.below_nil]
    | cons name rest =>
      obtain ⟨child, hget, hname, hrest⟩ := isSearched_cons.mp hsearched
      have he := Dict.mem_of_get? hget
      obtain ⟨group, hfound⟩ := Except.exists_of_mapM hgroups (mem_visited.mpr ⟨he, hname⟩)
      rw [← SourcePath.append_below]
      exact ih _ he hfound hrest

/-- A scan that fails has come to a directory with a path that is too long. -/
theorem exists_searched_of_scan {t : FileTree} (h : t.IsProper) {extension : String} {p : SourcePath}
    {e : BuildError} (hscan : scan extension p t = .error e) :
    ∃ names, t.IsSearched names ∧ (p.below names).isTooLong = true ∧
      e = .root (p.below names) (.unlisted (p.below names) .nameTooLong) := by
  induction t using FileTree.induct generalizing p with
  | file content =>
    rw [scan] at hscan
    cases hscan
  | dir es ih =>
    cases hlong : p.isTooLong with
    | true =>
      rw [scan, if_pos hlong] at hscan
      cases hscan
      exact ⟨[], isSearched_nil, by rwa [SourcePath.below_nil], by rw [SourcePath.below_nil]⟩
    | false =>
      rw [scan_dir extension hlong, Except.map_eq_error_iff, Except.mapM_eq_error_iff] at hscan
      obtain ⟨before, entry, after, hvisited, -, hentry⟩ := hscan
      obtain ⟨he, hname⟩ := mem_visited.mp (hvisited ▸ List.mem_append_right before List.mem_cons_self)
      obtain ⟨names, hsearched, hnames, herror⟩ := ih entry he (h.child he) hentry
      rw [SourcePath.append_below] at hnames herror
      exact ⟨entry.1 :: names, isSearched_cons.mpr ⟨entry.2, h.get? he, hname, hsearched⟩, hnames, herror⟩

/-- A scan succeeds if the paths of all directories that it goes to are taken. -/
theorem exists_scan_eq_ok_iff {t : FileTree} (h : t.IsProper) (extension : String) (p : SourcePath) :
    (∃ paths, scan extension p t = .ok paths) ↔
      ∀ names, t.IsSearched names → (p.below names).isTooLong = false := by
  refine ⟨fun ⟨paths, hscan⟩ names hsearched => not_isTooLong_of_scan hscan hsearched, fun hshort => ?_⟩
  cases hscan : scan extension p t with
  | ok paths => exact ⟨paths, rfl⟩
  | error e =>
    obtain ⟨names, hsearched, hlong, -⟩ := exists_searched_of_scan h hscan
    exact nomatch hlong.symm.trans (hshort names hsearched)

/-! ## The order of a scan -/

/-- At the first difference a file comes before a directory, and otherwise the smaller name comes first. -/
def NamesBefore : List FileName → List FileName → Prop
  | a :: as, b :: bs => as = [] ∧ bs ≠ [] ∨ (as = [] ↔ bs = []) ∧ a < b ∨ a = b ∧ NamesBefore as bs
  | _, _ => False

theorem NamesBefore.asymm {as bs : List FileName} (h : NamesBefore as bs) : ¬ NamesBefore bs as := by
  induction as generalizing bs with
  | nil => exact h.elim
  | cons a as ih =>
    cases bs with
    | nil => exact h.elim
    | cons b bs =>
      rintro (⟨hbs, has⟩ | ⟨hnil, hlt⟩ | ⟨rfl, hrest⟩)
      · rcases h with ⟨has', -⟩ | ⟨hnil, -⟩ | ⟨-, hrest⟩
        · exact has has'
        · exact has (hnil.mpr hbs)
        · rw [hbs] at hrest
          cases as <;> exact hrest
      · rcases h with ⟨has, hbs⟩ | ⟨-, hlt'⟩ | ⟨rfl, -⟩
        · exact hbs (hnil.mpr has)
        · exact FileName.lt_asymm hlt hlt'
        · exact FileName.lt_irrefl a hlt
      · rcases h with ⟨has, -⟩ | ⟨-, hlt⟩ | ⟨-, hrest'⟩
        · rw [has] at hrest
          cases bs <;> exact hrest
        · exact FileName.lt_irrefl b hlt
        · exact ih hrest' hrest

/-- The order of paths below a path. -/
def PathsBefore (p q q' : SourcePath) : Prop :=
  ∃ names names', q = p.below names ∧ q' = p.below names' ∧ NamesBefore names names'

theorem PathsBefore.asymm {p q q' : SourcePath} (h : PathsBefore p q q') : ¬ PathsBefore p q' q := by
  rintro ⟨names', names, hq', hq, hbefore⟩
  obtain ⟨names₁, names₁', rfl, rfl, hbefore'⟩ := h
  obtain rfl := SourcePath.below_injective hq
  obtain rfl := SourcePath.below_injective hq'
  exact hbefore.asymm hbefore'

theorem PathsBefore.cons {p q q' : SourcePath} {name : FileName} (h : PathsBefore (p.append name) q q') :
    PathsBefore p q q' := by
  obtain ⟨names, names', rfl, rfl, hbefore⟩ := h
  exact ⟨name :: names, name :: names', p.append_below name names, p.append_below name names',
    .inr (.inr ⟨rfl, hbefore⟩)⟩

/-- Files first, then by name, as for entries. -/
def EntryBefore (a b : FileName × FileTree) : Prop :=
  a.2.isDir = false ∧ b.2.isDir = true ∨ a.2.isDir = b.2.isDir ∧ a.1 < b.1

theorem not_before_iff {a b : Found} : (!b.before a) = true ↔
    a.isDir = false ∧ b.isDir = true ∨ a.isDir = b.isDir ∧ ¬ b.name < a.name := by
  rw [Found.before]
  cases a.isDir <;> cases b.isDir <;> simp

theorem not_before_trans (a b c : Found) (hab : (!b.before a) = true) (hbc : (!c.before b) = true) :
    (!c.before a) = true := by
  rw [not_before_iff] at *
  rcases hab with ⟨ha, hb⟩ | ⟨hab, hle⟩ <;> rcases hbc with ⟨hb', hc⟩ | ⟨hbc, hle'⟩
  · exact .inl ⟨ha, hc⟩
  · exact .inl ⟨ha, hbc ▸ hb⟩
  · exact .inl ⟨hab ▸ hb', hc⟩
  · exact .inr ⟨hab.trans hbc, FileName.not_lt_trans hle hle'⟩

theorem not_before_total (a b : Found) : (!b.before a || !a.before b) = true := by
  rw [Bool.or_eq_true, not_before_iff, not_before_iff]
  by_cases hlt : b.name < a.name
  · cases a.isDir <;> cases b.isDir <;> simp [FileName.lt_asymm hlt]
  · cases a.isDir <;> cases b.isDir <;> simp [hlt]

theorem pairwise_visited {es : List (FileName × FileTree)} (h : (Dict.keys es).Nodup) :
    (visited es).Pairwise EntryBefore := by
  have hsorted : (visited es).Pairwise fun a b =>
      (!Found.before ⟨b.1, b.2.isDir, .ok []⟩ ⟨a.1, a.2.isDir, .ok []⟩) = true :=
    List.pairwise_mergeSort (fun a b c => not_before_trans ⟨a.1, a.2.isDir, .ok []⟩ ⟨b.1, b.2.isDir, .ok []⟩ _)
      (fun a b => not_before_total ⟨a.1, a.2.isDir, .ok []⟩ ⟨b.1, b.2.isDir, .ok []⟩) _
  have hnodup : ((visited es).map Prod.fst).Nodup := by
    refine ((List.mergeSort_perm _ _).map Prod.fst).nodup_iff.mpr (List.Nodup.sublist ?_ h)
    exact List.filter_sublist.map Prod.fst
  refine (hsorted.and (List.pairwise_map.mp hnodup)).imp fun {a b} ⟨hle, hne⟩ => ?_
  refine (not_before_iff.mp hle).imp_right fun ⟨hdir, hnot⟩ => ⟨hdir, ?_⟩
  rcases FileName.lt_trichotomy a.1 b.1 with hlt | heq | hgt
  · exact hlt
  · exact absurd heq hne
  · exact absurd hgt hnot

/-- A file is found as itself, and what is found in a directory lies below it. -/
theorem exists_below_of_mem_scan {t : FileTree} (h : t.IsProper) {extension : String} {p q : SourcePath}
    {paths : List SourcePath} (hscan : scan extension p t = .ok paths) (hq : q ∈ paths) :
    ∃ names, q = p.below names ∧ (names = [] ↔ t.isDir = false) := by
  obtain ⟨names, hfile, -, rfl, -⟩ := (mem_scan_iff h hscan).mp hq
  refine ⟨names, rfl, ?_⟩
  cases t with
  | file content =>
    cases names with
    | nil => exact ⟨fun _ => rfl, fun _ => rfl⟩
    | cons name rest => cases hfile
  | dir es =>
    cases names with
    | nil => cases hfile
    | cons name rest => exact ⟨nofun, nofun⟩

/-- A scan lists what it finds in the order of names. -/
theorem pairwise_scan {t : FileTree} (h : t.IsProper) {extension : String} {p : SourcePath}
    {paths : List SourcePath} (hscan : scan extension p t = .ok paths) : paths.Pairwise (PathsBefore p) := by
  induction t using FileTree.induct generalizing p paths with
  | file content =>
    rw [scan] at hscan
    cases hscan
    split
    · exact List.pairwise_singleton _ p
    · exact List.Pairwise.nil
  | dir es ih =>
    obtain ⟨-, groups, hgroups, rfl⟩ := scan_dir_eq_ok_iff.mp hscan
    rw [List.pairwise_flatten]
    constructor
    · intro group hgroup
      obtain ⟨e, he, hfound⟩ := (Except.mem_iff_of_mapM hgroups).mp hgroup
      have he := (mem_visited.mp he).1
      exact (ih e he (h.child he) hfound).imp PathsBefore.cons
    · refine Except.pairwise_of_mapM hgroups (pairwise_visited h.entries.nodup) ?_
      intro a ha b hb hab group group' hfound hfound' q hq q' hq'
      obtain ⟨names, rfl, hnil⟩ := exists_below_of_mem_scan (h.child (mem_visited.mp ha).1) hfound hq
      obtain ⟨names', rfl, hnil'⟩ := exists_below_of_mem_scan (h.child (mem_visited.mp hb).1) hfound' hq'
      refine ⟨a.1 :: names, b.1 :: names', p.append_below a.1 names, p.append_below b.1 names', ?_⟩
      rcases hab with ⟨hfile, hdir⟩ | ⟨hsame, hlt⟩
      · exact .inl ⟨hnil.mpr hfile, fun h => by rw [hnil'.mp h] at hdir; cases hdir⟩
      · exact .inr (.inl ⟨by rw [hnil, hnil', hsame], hlt⟩)

theorem nodup_scan {t : FileTree} (h : t.IsProper) {extension : String} {p : SourcePath}
    {paths : List SourcePath} (hscan : scan extension p t = .ok paths) : paths.Nodup :=
  (pairwise_scan h hscan).imp fun {q q'} hbefore heq => by subst heq; exact hbefore.asymm hbefore

theorem IsProper.subtree {t sub : FileTree} (h : t.IsProper) {location : List FileName}
    (hsub : t.at? location = some sub) : sub.IsProper := by
  intro names es hes
  refine h (location ++ names) es ?_
  rw [at?_append, hsub]
  exact hes

end FileTree

namespace Workspace

variable {ws ws' : Workspace} {p : Path} {location names : List FileName} {name : FileName} {text : String}

theorem locate_path (ws : Workspace) (p : Path) :
    ws.locate p = match p.fault? with
      | some fault => .error fault
      | none => ws.trace p := by
  rw [locate, SourcePath.fault?]
  cases hfault : p.fault? with
  | some fault => rfl
  | none =>
    rw [SourcePath.not_isTooLong_of_fault? hfault]
    exact bind_pure _

theorem read_ofText {p : SourcePath} (h : ws.read p = (FileTree.ofText text).text?.elim (.error .notText) .ok) :
    ws.read p = .ok text := by
  rw [h, FileTree.text?_ofText]
  rfl

theorem isTooLong_of_node? {t : FileTree} (h : ws.node? p = some t) : SourcePath.isTooLong p = false := by
  refine SourcePath.not_isTooLong_of_fault? ?_
  rw [node?, locate_path] at h
  cases hfault : p.fault? with
  | some fault => rw [hfault] at h; cases h
  | none => rfl

/-- A scan of a directory with one file finds that file. -/
theorem scan_singleFile {extension : String} (hdir : ws.node? p = some (.dir [(name, .ofText text)]))
    (hhidden : FileTree.isHidden name = false)
    (hextension : ((p : SourcePath).append name).hasExtension extension = true) :
    ws.scan p extension = .ok [(p : SourcePath).append name] := by
  rw [scan, hdir]
  dsimp only
  rw [FileTree.scan_dir extension (isTooLong_of_node? hdir), FileTree.visited,
    List.filter_cons_of_pos (by simp [hhidden]), List.filter_nil, List.mergeSort_singleton, List.mapM_cons,
    List.mapM_nil, FileTree.ofText, FileTree.scan, if_pos hextension]
  rfl

theorem readText_of_read {p : SourcePath} (h : ws.read p = .ok text) : ws.readText p = .ok text := by
  rw [readText, h]
  rfl

/-- A directory with one file is read as the document of that file. -/
theorem readRoots_singleFile {extension : String} {v : Value}
    (hdir : ws.node? p = some (.dir [(name, .ofText text)])) (hhidden : FileTree.isHidden name = false)
    (hextension : ((p : SourcePath).append name).hasExtension extension = true)
    (hread : ws.read ((p : SourcePath).append name) = .ok text) (hvalue : Value.read text = .ok v) :
    ws.readRoots extension [p] = .ok [⟨⟨0, (p : SourcePath).append name⟩, v⟩] := by
  have hdocument : ws.readDocument ((p : SourcePath).append name) = .ok v := by
    simp only [readDocument, readText_of_read hread, hvalue, bind, Except.bind]
    rfl
  simp only [readRoots, readRoot, List.zipIdx_cons, List.zipIdx_nil, List.mapM_cons, List.mapM_nil,
    scan_singleFile hdir hhidden hextension, hdocument, bind, Except.bind, pure, Except.pure]
  rfl

/-- A directory with one file is read as the template of that file. -/
theorem readTemplates_singleFile (hdir : ws.node? p = some (.dir [(name, .ofText text)]))
    (hhidden : FileTree.isHidden name = false)
    (hextension : ((p : SourcePath).append name).hasExtension TemplateSet.extension = true)
    (hread : ws.read ((p : SourcePath).append name) = .ok text) : ws.readTemplates [p] =
      .ok (TemplateSet.register [] (((p : SourcePath).append name).relativeText p) text
        (some ((p : SourcePath).append name))) := by
  simp only [readTemplates, List.foldlM_cons, List.foldlM_nil, scan_singleFile hdir hhidden hextension, addTemplate,
    readText_of_read hread, bind, Except.bind, pure, Except.pure]

/-! ## Trees that grow -/

/-- The way to a directory stays. -/
theorem foldlM_follow_grown {touched : List FileName → Prop} {t t' : FileTree} (h : Grown touched t t')
    {steps : List FileName} {first last : List FileName} (hsteps : steps.foldlM (follow t) first = .ok last)
    (hlast : isDirAt t last = true) :
    isDirAt t first = true ∧ steps.foldlM (follow t') first = .ok last := by
  induction steps generalizing first with
  | nil => cases hsteps; exact ⟨hlast, rfl⟩
  | cons piece rest ih =>
    obtain ⟨next, hnext, hrest⟩ := Except.foldlM_cons_eq_ok_iff.mp hsteps
    obtain ⟨hfirst, rfl, -⟩ := follow_eq_ok hnext
    obtain ⟨hdir, hrest⟩ := ih hrest
    refine ⟨hfirst, Except.foldlM_cons_eq_ok_iff.mpr ⟨_, ?_, hrest⟩⟩
    rw [follow, h.isDirAt _ hfirst, isSome_of_isDirAt (h.isDirAt _ hdir)]
    rfl

theorem trace_grown {touched : List FileName → Prop} (h : Grown touched ws.tree ws'.tree)
    (hhere : ws'.here = ws.here) (htrace : ws.trace p = .ok location) (hdir : isDirAt ws.tree location = true) :
    ws'.trace p = .ok location := by
  rw [trace, start, hhere]
  exact (foldlM_follow_grown h htrace hdir).2

end Workspace

end DocModel
