import DocModel.Proofs.Path.Steps

/-!
# Accepted filenames

A filename that is accepted for an output has become ordinary names below the build root, so the steps of its
path are those of the root and these names, and the path is written in one way only. The checks come one after
the other and overlap; together they let exactly the `IsSafe` filenames through, and what they let through
cannot fail the last of them, which looks at the path that was put together.

* `outputPath_eq`: the checks in their order, without the last one.
* `eq_of_outputPath`: what an accepted filename has become.
* `eq_of_same`: paths of outputs under one root that have the same steps are the same text.
* `outputPath_exact`: which filenames are accepted, and where they lead.
-/

namespace DocModel

namespace Output

open DocModel.Path (IsOrdinary)

/-! ## Segments -/

/-- Whether a filename starts from the build root itself. -/
def isRooted (filename : String) : Bool := filename.toList.head? = some '/'

/-- What follows a slash that opens a filename, all of it if none does. -/
def belowRoot (filename : String) : List Char :=
  if isRooted filename then filename.toList.tail else filename.toList

/-- The segments of a filename; a slash that opens it is none of them. -/
def segmentsOf (filename : String) : List String := (Text.splitChars '/' (belowRoot filename)).map String.ofList

theorem segmentFault?_eq_none_iff {filename : String} {segments : List String} :
    segmentFault? filename segments = none ↔ ∀ s ∈ segments, s ≠ "" ∧ s ≠ "." ∧ s ≠ ".." := by
  induction segments with
  | nil => simp [segmentFault?]
  | cons s rest ih =>
    rw [segmentFault?, List.forall_mem_cons, ← ih]
    by_cases hparent : s = ".."
    · simp [hparent]
    · by_cases hother : s = "" ∨ s = "."
      · rcases hother with rfl | rfl <;> simp
      · obtain ⟨hempty, hcurrent⟩ := not_or.mp hother
        simp [hparent, hempty, hcurrent]

/-- A bad segment is never said to lead out of the root. -/
theorem segmentFault?_ne_escapesRoot (filename name : String) (segments : List String) :
    segmentFault? filename segments ≠ some (.escapesRoot name) := by
  induction segments with
  | nil => exact nofun
  | cons s rest ih =>
    rw [segmentFault?]
    split
    · exact nofun
    split
    · exact nofun
    · exact ih

theorem not_mem_of_mem_segmentsOf {filename s : String} (h : s ∈ segmentsOf filename) : '/' ∉ s.toList := by
  obtain ⟨piece, hpiece, rfl⟩ := List.mem_map.mp h
  rw [String.toList_ofList]
  exact Text.not_mem_of_mem_splitChars hpiece

theorem segmentsOf_ne_nil (filename : String) : segmentsOf filename ≠ [] := by
  simpa [segmentsOf] using Text.splitChars_ne_nil '/' _

theorem isOrdinary_of_segmentFault? {filename : String}
    (h : segmentFault? filename (segmentsOf filename) = none) : ∀ s ∈ segmentsOf filename, IsOrdinary s := by
  intro s hs
  obtain ⟨hempty, hcurrent, hparent⟩ := segmentFault?_eq_none_iff.mp h s hs
  exact ⟨hempty, hcurrent, hparent, not_mem_of_mem_segmentsOf hs⟩

/-! ## Categories -/

/-- The output goes to the directory of its template's category: its filename is a single segment without a
slash before it, and the template's key has several segments of which this ordinary one is the first. -/
structure TakesCategory (key filename name : String) : Prop where
  not_rooted : isRooted filename = false
  alone : (segmentsOf filename).length = 1
  first : (Text.split '/' key).head? = some name
  several : 2 ≤ (Text.split '/' key).length
  ne_empty : name ≠ ""
  ne_current : name ≠ "."
  ne_parent : name ≠ ".."

theorem category?_eq_some_iff {key name : String} :
    category? key = some name ↔
      (Text.split '/' key).head? = some name ∧ 2 ≤ (Text.split '/' key).length ∧
        name ≠ "" ∧ name ≠ "." ∧ name ≠ ".." := by
  rw [category?]
  split
  · next first next rest hsplit =>
    rw [hsplit, List.head?_cons, Option.some.injEq]
    constructor
    · intro h
      split at h
      · cases h
      · next hordinary =>
        cases h
        simp only [Bool.or_eq_true, decide_eq_true_eq, not_or] at hordinary
        exact ⟨rfl, by simp, hordinary.1.1, hordinary.1.2, hordinary.2⟩
    · rintro ⟨rfl, -, hempty, hcurrent, hparent⟩
      simp [hempty, hcurrent, hparent]
  · next hshort =>
    -- With fewer than two segments there is no category.
    refine iff_of_false nofun ?_
    rintro ⟨hfirst, hseveral, -⟩
    obtain ⟨rest, hkey⟩ := List.head?_eq_some_iff.mp hfirst
    cases rest with
    | nil => simp [hkey] at hseveral
    | cons next rest => exact hshort name next rest hkey

/-- The directory that an output goes to besides what its filename says. -/
def categoryOf (key filename : String) : Option String :=
  if isRooted filename = false ∧ (segmentsOf filename).length = 1 then category? key else none

theorem categoryOf_eq_some_iff {key filename name : String} :
    categoryOf key filename = some name ↔ TakesCategory key filename name := by
  rw [categoryOf]
  constructor
  · intro h
    split at h
    · next hplain =>
      obtain ⟨hfirst, hseveral, hempty, hcurrent, hparent⟩ := category?_eq_some_iff.mp h
      exact ⟨hplain.1, hplain.2, hfirst, hseveral, hempty, hcurrent, hparent⟩
    · cases h
  · intro h
    rw [if_pos ⟨h.not_rooted, h.alone⟩, category?_eq_some_iff]
    exact ⟨h.first, h.several, h.ne_empty, h.ne_current, h.ne_parent⟩

theorem TakesCategory.isOrdinary {key filename name : String} (h : TakesCategory key filename name) :
    IsOrdinary name := by
  refine ⟨h.ne_empty, h.ne_current, h.ne_parent, ?_⟩
  obtain ⟨piece, hpiece, rfl⟩ := List.mem_map.mp (List.mem_of_head? h.first)
  rw [String.toList_ofList]
  exact Text.not_mem_of_mem_splitChars hpiece

theorem placedSegments_eq (key filename : String) :
    placedSegments key (isRooted filename) (segmentsOf filename) =
      (categoryOf key filename).toList ++ segmentsOf filename := by
  rw [categoryOf]
  split
  · next hplain =>
    obtain ⟨segment, hsegment⟩ := List.length_eq_one_iff.mp hplain.2
    rw [hplain.1, hsegment]
    rfl
  · next hother =>
    rw [placedSegments.eq_2]
    · rfl
    · intro segment hrooted hsegment
      exact hother ⟨hrooted, by rw [hsegment]; rfl⟩

/-! ## Accepted filenames -/

/-- The names below the build root that a filename becomes. -/
def namesOf (key filename : String) : List String := (categoryOf key filename).toList ++ segmentsOf filename

theorem namesOf_ne_nil (key filename : String) : namesOf key filename ≠ [] :=
  List.append_ne_nil_of_right_ne_nil _ (segmentsOf_ne_nil filename)

theorem isOrdinary_namesOf {key filename : String}
    (h : segmentFault? filename (segmentsOf filename) = none) : ∀ s ∈ namesOf key filename, IsOrdinary s := by
  intro s hs
  rcases List.mem_append.mp hs with hs | hs
  · exact (categoryOf_eq_some_iff.mp (Option.mem_toList.mp hs)).isOrdinary
  · exact isOrdinary_of_segmentFault? h s hs

/-- What is put together from ordinary names is below the root. -/
theorem passes_last_check {names : List String} (hne : names ≠ []) (h : ∀ s ∈ names, IsOrdinary s) (root : Path) :
    ((root.join ⟨Text.join "/" names⟩).startsWith root &&
      (Path.mk (Text.join "/" names)).steps.all PathStep.isName) = true := by
  rw [Bool.and_eq_true, Path.startsWith, Path.steps_join_names root hne h, Path.steps_names hne h, List.all_map]
  exact ⟨List.isPrefixOf_iff_prefix.mpr (List.prefix_append _ _), List.all_eq_true.mpr fun _ _ => rfl⟩

/-- The checks in their order; what passes the others passes the last one. -/
theorem outputPath_eq (key filename : String) (root : Path) :
    outputPath key filename root =
      if filename = "" then .error .empty
      else if filename.toList.contains '\\' || hasDrive filename then .error (.absolute filename)
      else if (belowRoot filename).head? = some '/' then .error (.absolute filename)
      else
        match segmentFault? filename (segmentsOf filename) with
        | some fault => .error fault
        | none => .ok (root.join ⟨Text.join "/" (namesOf key filename)⟩) := by
  rw [outputPath]
  by_cases hempty : filename = ""
  · rw [if_pos hempty, if_pos hempty]
  rw [if_neg hempty, if_neg hempty]
  by_cases habsolute : (filename.toList.contains '\\' || hasDrive filename) = true
  · rw [if_pos habsolute, if_pos habsolute]
  rw [if_neg habsolute, if_neg habsolute]
  split
  next rooted relative hopened =>
  obtain ⟨rfl, rfl⟩ : isRooted filename = rooted ∧ belowRoot filename = relative := by
    rw [belowRoot]
    split at hopened
    · next rest hfile =>
      cases hopened
      simp [isRooted, hfile]
    · next hfile =>
      cases hopened
      have hrooted : isRooted filename = false := by
        rw [isRooted, decide_eq_false_iff_not, List.head?_eq_some_iff]
        rintro ⟨rest, hrest⟩
        exact hfile rest hrest
      simp [hrooted]
  by_cases hslash : (belowRoot filename).head? = some '/'
  · rw [if_pos hslash, if_pos hslash]
  rw [if_neg hslash, if_neg hslash, ← segmentsOf]
  dsimp only
  rw [placedSegments_eq, ← namesOf]
  cases hfault : segmentFault? filename (segmentsOf filename) with
  | some fault => rfl
  | none => exact if_pos (passes_last_check (namesOf_ne_nil _ _) (isOrdinary_namesOf hfault) root)

/-- An accepted filename has become ordinary names below the build root. -/
theorem eq_of_outputPath {key filename : String} {root p : Path} (h : outputPath key filename root = .ok p) :
    (∀ s ∈ namesOf key filename, IsOrdinary s) ∧ p = root.join ⟨Text.join "/" (namesOf key filename)⟩ := by
  rw [outputPath_eq] at h
  split at h
  · cases h
  split at h
  · cases h
  split at h
  · cases h
  split at h
  · cases h
  · next hnone =>
    cases h
    exact ⟨isOrdinary_namesOf hnone, rfl⟩

/-- Paths of outputs under one root that have the same steps are the same text. -/
theorem eq_of_same {key key' filename filename' : String} {root p q : Path}
    (hp : outputPath key filename root = .ok p) (hq : outputPath key' filename' root = .ok q)
    (h : p.same q = true) : p = q := by
  obtain ⟨hnames, rfl⟩ := eq_of_outputPath hp
  obtain ⟨hnames', rfl⟩ := eq_of_outputPath hq
  rw [Path.same, beq_iff_eq, Path.steps_join_names root (namesOf_ne_nil _ _) hnames,
    Path.steps_join_names root (namesOf_ne_nil _ _) hnames', List.append_cancel_left_eq] at h
  rw [(List.map_inj_right fun _ _ heq => FileName.text.inj (PathStep.name.inj heq)).mp h]

/-- A filename that is not empty, has no backslash, does not start with a drive, and has nothing but ordinary
segments. -/
structure IsSafe (filename : String) : Prop where
  ne_empty : filename ≠ ""
  no_backslash : '\\' ∉ filename.toList
  no_drive : ∀ drive rest, filename.toList = drive :: ':' :: rest → isLetter drive = true →
    rest ≠ [] ∧ rest.head? ≠ some '/'
  segments : ∀ s ∈ segmentsOf filename, s ≠ "" ∧ s ≠ "." ∧ s ≠ ".."

theorem hasDrive_eq_false_iff {filename : String} :
    hasDrive filename = false ↔
      ∀ drive rest, filename.toList = drive :: ':' :: rest → isLetter drive = true →
        rest ≠ [] ∧ rest.head? ≠ some '/' := by
  rw [hasDrive]
  split
  · next drive hfile => simp [hfile]
  · next drive rest hfile => simp [hfile]
  · next hshort hlong =>
    refine iff_of_true rfl fun drive rest hfile _ => ⟨?_, fun hslash => ?_⟩
    · rintro rfl
      exact hshort drive hfile
    · obtain ⟨more, rfl⟩ := List.head?_eq_some_iff.mp hslash
      exact hlong drive more hfile

/-- A second slash at the start would leave an empty segment. -/
theorem empty_mem_segmentsOf {filename : String} (h : (belowRoot filename).head? = some '/') :
    "" ∈ segmentsOf filename := by
  obtain ⟨rest, hrest⟩ := List.head?_eq_some_iff.mp h
  rw [segmentsOf, hrest, Text.splitChars, if_pos rfl]
  exact List.mem_cons_self

theorem exists_outputPath_iff (key filename : String) (root : Path) :
    (∃ p, outputPath key filename root = .ok p) ↔ IsSafe filename := by
  rw [outputPath_eq]
  constructor
  · rintro ⟨p, h⟩
    split at h
    · cases h
    next hempty =>
    split at h
    · cases h
    next habsolute =>
    split at h
    · cases h
    split at h
    · cases h
    next hnone =>
    obtain ⟨hbackslash, hdrive⟩ := not_or.mp (mt Bool.or_eq_true_iff.mpr habsolute)
    exact ⟨hempty, by simpa using hbackslash, hasDrive_eq_false_iff.mp (by simpa using hdrive),
      segmentFault?_eq_none_iff.mp hnone⟩
  · intro h
    have habsolute : (filename.toList.contains '\\' || hasDrive filename) = false := by
      rw [hasDrive_eq_false_iff.mpr h.no_drive, Bool.or_false]
      simpa using h.no_backslash
    have hslash : ¬ (belowRoot filename).head? = some '/' := fun hslash =>
      (h.segments "" (empty_mem_segmentsOf hslash)).1 rfl
    rw [if_neg h.ne_empty, habsolute, if_neg Bool.false_ne_true, if_neg hslash,
      segmentFault?_eq_none_iff.mpr h.segments]
    exact ⟨_, rfl⟩

/-- Exactly the safe filenames are accepted, for every root. An accepted filename leads to its segments below
the root, and first to the category of its template where it takes one; no step below the root is anything but
an ordinary name, and none leads out. No filename is refused for what its path came to. -/
theorem outputPath_exact (key filename : String) (root : Path) :
    ((∃ p, outputPath key filename root = .ok p) ↔ IsSafe filename) ∧
    (∀ p, outputPath key filename root = .ok p →
      ∃ category : Option String, (∀ name, category = some name ↔ TakesCategory key filename name) ∧
        p = root.join ⟨Text.join "/" (category.toList ++ segmentsOf filename)⟩ ∧
        p.relativeSteps? root = some ((category.toList ++ segmentsOf filename).map (.name ·)) ∧
        (∀ s ∈ category.toList ++ segmentsOf filename, IsOrdinary s) ∧
        ∀ ws : Workspace, ws.Inside root p) ∧
    ∀ name, outputPath key filename root ≠ .error (.escapesRoot name) := by
  refine ⟨exists_outputPath_iff key filename root, fun p h => ?_, fun name h => ?_⟩
  · obtain ⟨hnames, hp⟩ := eq_of_outputPath h
    refine ⟨categoryOf key filename, fun name => categoryOf_eq_some_iff, hp, ?_, hnames,
      fun ws => ws.inside_outputPath h⟩
    rw [Path.relativeSteps?_eq_some_iff, hp]
    exact Path.steps_join_names root (namesOf_ne_nil key filename) hnames
  · rw [outputPath_eq] at h
    split at h
    · cases h
    split at h
    · cases h
    split at h
    · cases h
    split at h
    · next hfault =>
      cases h
      exact segmentFault?_ne_escapesRoot _ _ _ hfault
    · cases h

/-- A colon in a name is no drive, and the root is kept as it was given. -/
example : outputPath "pages/post.html" "x:notes.txt" ⟨"../o/."⟩ = .ok ⟨"../o/./pages/x:notes.txt"⟩ := rfl

end Output

end DocModel
