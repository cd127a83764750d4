import DocModel.Proofs.Path.Names
import DocModel.Proofs.Workspace.Location

/-!
# Steps of paths

What a path means are its steps, and paths are compared and ordered by them.

* `listBefore_trans`, `listBefore_trichotomy`: the order of lists of steps is strict and total.
* `steps_join_names`: joining ordinary names to a path adds them to its steps.
* `before_trans`, `before_trichotomy`: the order of paths is strict, and total up to paths with the same steps.
-/

namespace DocModel

namespace PathStep

theorem before_iff {a b : PathStep} :
    a.before b = true ↔ a.rank < b.rank ∨ ∃ m n, a = name m ∧ b = name n ∧ m < n := by
  cases a <;> cases b <;> simp [before, rank]

theorem before_irrefl (a : PathStep) : ¬ a.before a = true := by
  rw [before_iff]
  rintro (hlt | ⟨m, n, rfl, heq, hlt⟩)
  · exact Nat.lt_irrefl _ hlt
  · cases heq
    exact FileName.lt_irrefl m hlt

theorem before_trans {a b c : PathStep} (hab : a.before b = true) (hbc : b.before c = true) :
    a.before c = true := by
  rw [before_iff] at *
  rcases hab with hab | ⟨m, n, rfl, rfl, hab⟩ <;> rcases hbc with hbc | ⟨n', l, heq, rfl, hbc⟩
  · exact .inl (Nat.lt_trans hab hbc)
  · subst heq
    exact .inl hab
  · exact .inl hbc
  · cases heq
    exact .inr ⟨m, l, rfl, rfl, FileName.lt_trans hab hbc⟩

theorem before_trichotomy (a b : PathStep) : a.before b = true ∨ a = b ∨ b.before a = true := by
  rw [before_iff, before_iff]
  rcases Nat.lt_trichotomy a.rank b.rank with hrank | hrank | hrank
  · exact .inl (.inl hrank)
  · cases a with
    | name m =>
      cases b with
      | name n =>
        rcases FileName.lt_trichotomy m n with hname | rfl | hname
        · exact .inl (.inr ⟨m, n, rfl, rfl, hname⟩)
        · exact .inr (.inl rfl)
        · exact .inr (.inr (.inr ⟨n, m, rfl, rfl, hname⟩))
      | _ => cases hrank
    | _ => cases b <;> first | exact .inr (.inl rfl) | cases hrank
  · exact .inr (.inr (.inl hrank))

theorem listBefore_cons_cons {a b : PathStep} {as bs : List PathStep} :
    listBefore (a :: as) (b :: bs) = true ↔ a.before b = true ∨ a = b ∧ listBefore as bs = true := by
  simp [listBefore]

theorem listBefore_irrefl (as : List PathStep) : ¬ listBefore as as = true := by
  induction as with
  | nil => exact Bool.false_ne_true
  | cons a as ih =>
    rw [listBefore_cons_cons]
    rintro (h | ⟨-, h⟩)
    · exact before_irrefl a h
    · exact ih h

theorem listBefore_trans {as bs cs : List PathStep} (hab : listBefore as bs = true)
    (hbc : listBefore bs cs = true) : listBefore as cs = true := by
  induction as generalizing bs cs with
  | nil =>
    cases cs with
    | nil => cases bs <;> cases hbc
    | cons c cs => rfl
  | cons a as ih =>
    cases bs with
    | nil => cases hab
    | cons b bs =>
      cases cs with
      | nil => cases hbc
      | cons c cs =>
        rw [listBefore_cons_cons] at *
        rcases hab with hab | ⟨rfl, hab⟩ <;> rcases hbc with hbc | ⟨rfl, hbc⟩
        · exact .inl (before_trans hab hbc)
        · exact .inl hab
        · exact .inl hbc
        · exact .inr ⟨rfl, ih hab hbc⟩

theorem listBefore_trichotomy (as bs : List PathStep) :
    listBefore as bs = true ∨ as = bs ∨ listBefore bs as = true := by
  induction as generalizing bs with
  | nil =>
    cases bs with
    | nil => exact .inr (.inl rfl)
    | cons b bs => exact .inl rfl
  | cons a as ih =>
    cases bs with
    | nil => exact .inr (.inr rfl)
    | cons b bs =>
      rw [listBefore_cons_cons, listBefore_cons_cons]
      rcases before_trichotomy a b with h | rfl | h
      · exact .inl (.inl h)
      · rcases ih bs with h | rfl | h
        · exact .inl (.inr ⟨rfl, h⟩)
        · exact .inr (.inl rfl)
        · exact .inr (.inr (.inr ⟨rfl, h⟩))
      · exact .inr (.inr (.inl h))

/-- What both lists start with decides nothing. -/
theorem listBefore_append_left (steps as bs : List PathStep) :
    listBefore (steps ++ as) (steps ++ bs) = listBefore as bs := by
  induction steps with
  | nil => rfl
  | cons step rest ih =>
    rw [Bool.eq_iff_iff, List.cons_append, List.cons_append, listBefore_cons_cons, ih]
    simp [before_irrefl]

theorem after?_eq_some_iff {base steps rest : List PathStep} : after? base steps = some rest ↔ steps = base ++ rest := by
  rw [after?]
  split
  · next hprefix =>
    obtain ⟨more, rfl⟩ := List.isPrefixOf_iff_prefix.mp hprefix
    rw [List.drop_left, Option.some.injEq, List.append_cancel_left_eq]
  · next hnot =>
    refine ⟨nofun, fun heq => absurd ?_ hnot⟩
    exact List.isPrefixOf_iff_prefix.mpr ⟨rest, heq.symm⟩

/-- The last name below a base is the last one of all. -/
theorem lastName?_append {base : List PathStep} {names : List FileName} (hne : names ≠ []) :
    lastName? (base ++ names.map name) = names.getLast? := by
  obtain ⟨init, last, rfl⟩ := (List.eq_nil_or_concat names).resolve_left hne
  simp [lastName?]

end PathStep

namespace Text

theorem splitChars_joinChars {sep : Char} {pieces : List (List Char)} (hne : pieces ≠ [])
    (h : ∀ piece ∈ pieces, sep ∉ piece) : splitChars sep (joinChars sep pieces) = pieces := by
  induction pieces with
  | nil => exact absurd rfl hne
  | cons piece rest ih =>
    obtain ⟨hpiece, hrest⟩ := List.forall_mem_cons.mp h
    cases rest with
    | nil => exact splitChars_of_not_mem hpiece
    | cons next rest =>
      rw [joinChars, splitChars_append, splitChars_of_not_mem hpiece, ih (List.cons_ne_nil _ _) hrest]
      rfl

theorem toList_join_slash (pieces : List String) :
    (join "/" pieces).toList = joinChars '/' (pieces.map String.toList) := by
  induction pieces with
  | nil => rfl
  | cons piece rest ih =>
    cases rest with
    | nil => rfl
    | cons next rest =>
      rw [join, String.toList_append, String.toList_append, ih, List.append_assoc]
      rfl

theorem not_mem_of_mem_splitChars {sep : Char} {cs piece : List Char} (h : piece ∈ splitChars sep cs) :
    sep ∉ piece := by
  induction cs generalizing piece with
  | nil =>
    rw [List.mem_singleton.mp h]
    exact List.not_mem_nil
  | cons c cs ih =>
    rw [splitChars] at h
    split at h
    · rcases List.mem_cons.mp h with rfl | h
      · exact List.not_mem_nil
      · exact ih h
    · next hc =>
      split at h
      · rw [List.mem_singleton.mp h]
        simpa using Ne.symm hc
      · next first rest hs =>
        rw [hs] at ih
        rcases List.mem_cons.mp h with rfl | h
        · exact List.not_mem_cons_of_ne_of_not_mem (Ne.symm hc) (ih List.mem_cons_self)
        · exact ih (List.mem_cons_of_mem _ h)

end Text

namespace Path

/-- The steps of pieces between separators; only the first piece can be a leading dot. -/
def stepsFrom (first : Bool) : List (List Char) → List PathStep
  | [] => []
  | piece :: rest => (stepOf? first piece).toList ++ rest.filterMap (stepOf? false)

theorem map_fst_spansFrom_false (offset : Nat) (pieces : List (List Char)) :
    (spansFrom false offset pieces).map Prod.fst = pieces.filterMap (stepOf? false) := by
  induction pieces generalizing offset with
  | nil => rfl
  | cons piece rest ih =>
    rw [spansFrom, List.filterMap_cons]
    cases stepOf? false piece with
    | none => exact ih _
    | some step => exact congrArg (step :: ·) (ih _)

theorem map_fst_spansFrom (first : Bool) (offset : Nat) (pieces : List (List Char)) :
    (spansFrom first offset pieces).map Prod.fst = stepsFrom first pieces := by
  cases pieces with
  | nil => rfl
  | cons piece rest =>
    rw [spansFrom, stepsFrom]
    cases stepOf? first piece with
    | none => exact map_fst_spansFrom_false _ rest
    | some step => exact congrArg (step :: ·) (map_fst_spansFrom_false _ rest)

theorem steps_eq (p : Path) :
    p.steps = (if p.isAbsolute then [.root] else []) ++
      stepsFrom (!p.isAbsolute) (Text.splitChars '/' p.text.toList) := by
  rw [steps, spans]
  cases p.isAbsolute with
  | false => exact map_fst_spansFrom true 0 _
  | true => exact congrArg (PathStep.root :: ·) (map_fst_spansFrom false 0 _)

theorem stepsFrom_append (first : Bool) {pieces : List (List Char)} (hne : pieces ≠ [])
    (others : List (List Char)) :
    stepsFrom first (pieces ++ others) = stepsFrom first pieces ++ others.filterMap (stepOf? false) := by
  obtain ⟨piece, rest, rfl⟩ := List.exists_cons_of_ne_nil hne
  rw [List.cons_append, stepsFrom, stepsFrom, List.filterMap_append, List.append_assoc]

/-- What follows a slash adds its steps. -/
theorem steps_of_toList_eq {p base : Path} {rest : List Char}
    (h : p.text.toList = base.text.toList ++ '/' :: rest) (hbase : base.text.toList ≠ []) :
    p.steps = base.steps ++ (Text.splitChars '/' rest).filterMap (stepOf? false) := by
  have habs : p.isAbsolute = base.isAbsolute := by
    obtain ⟨c, cs, hc⟩ := List.exists_cons_of_ne_nil hbase
    rw [isAbsolute, isAbsolute, h, hc]
    rfl
  rw [steps_eq, steps_eq base, habs, h, Text.splitChars_append,
    stepsFrom_append _ (Text.splitChars_ne_nil _ _), List.append_assoc]

/-- So does what follows a slash at the end. -/
theorem steps_of_toList_eq_slash {p base : Path} {init rest : List Char}
    (h : p.text.toList = init ++ '/' :: rest) (hbase : base.text.toList = init ++ ['/']) :
    p.steps = base.steps ++ (Text.splitChars '/' rest).filterMap (stepOf? false) := by
  have habs : p.isAbsolute = base.isAbsolute := by
    rw [isAbsolute, isAbsolute, h, hbase]
    cases init <;> rfl
  have hend : (Text.splitChars '/' []).filterMap (stepOf? false) = [] := rfl
  rw [steps_eq, steps_eq base, habs, h, hbase, Text.splitChars_append, Text.splitChars_append,
    stepsFrom_append _ (Text.splitChars_ne_nil _ _), stepsFrom_append _ (Text.splitChars_ne_nil _ _), hend,
    List.append_nil, List.append_assoc]

/-! ## Ordinary names -/

/-- A name that can stand between two slashes and means a step of its own. -/
structure IsOrdinary (s : String) : Prop where
  ne_empty : s ≠ ""
  ne_current : s ≠ "."
  ne_parent : s ≠ ".."
  not_mem : '/' ∉ s.toList

instance (s : String) : Decidable (IsOrdinary s) :=
  decidable_of_iff (s ≠ "" ∧ s ≠ "." ∧ s ≠ ".." ∧ '/' ∉ s.toList)
    ⟨fun ⟨hempty, hcurrent, hparent, hslash⟩ => ⟨hempty, hcurrent, hparent, hslash⟩,
      fun h => ⟨h.ne_empty, h.ne_current, h.ne_parent, h.not_mem⟩⟩

theorem IsOrdinary.stepOf?_eq {s : String} (h : IsOrdinary s) (first : Bool) :
    stepOf? first s.toList = some (.name s) := by
  have hne : ∀ {t : String}, s ≠ t → s.toList ≠ t.toList := fun hst heq => hst (String.toList_injective heq)
  have hempty : s.toList ≠ [] := hne h.ne_empty
  have hcurrent : s.toList ≠ ['.'] := hne h.ne_current
  have hparent : s.toList ≠ ['.', '.'] := hne h.ne_parent
  rw [stepOf?, if_neg hempty, if_neg hcurrent, if_neg hparent, String.ofList_toList]

theorem filterMap_stepOf?_ordinary {names : List String} (h : ∀ s ∈ names, IsOrdinary s) :
    (names.map String.toList).filterMap (stepOf? false) = names.map (.name ·) := by
  induction names with
  | nil => rfl
  | cons s rest ih =>
    obtain ⟨hs, hrest⟩ := List.forall_mem_cons.mp h
    rw [List.map_cons, List.filterMap_cons, hs.stepOf?_eq, ih hrest]
    rfl

theorem splitChars_join {names : List String} (hne : names ≠ []) (h : ∀ s ∈ names, IsOrdinary s) :
    Text.splitChars '/' (Text.join "/" names).toList = names.map String.toList := by
  rw [Text.toList_join_slash, Text.splitChars_joinChars (by simpa using hne)]
  intro piece hp
  obtain ⟨s, hs, rfl⟩ := List.mem_map.mp hp
  exact (h s hs).not_mem

theorem not_isAbsolute_join {names : List String} (hne : names ≠ []) (h : ∀ s ∈ names, IsOrdinary s) :
    (⟨Text.join "/" names⟩ : Path).isAbsolute = false := by
  obtain ⟨s, rest, rfl⟩ := List.exists_cons_of_ne_nil hne
  have hsplit := splitChars_join hne h
  rw [isAbsolute, decide_eq_false_iff_not]
  intro hhead
  obtain ⟨cs, hcs⟩ := List.head?_eq_some_iff.mp hhead
  -- A leading slash would leave an empty first piece.
  rw [hcs, Text.splitChars, if_pos rfl, List.map_cons] at hsplit
  exact (h s List.mem_cons_self).ne_empty (String.toList_eq_nil_iff.mp (List.cons.inj hsplit).1.symm)

/-- Joining ordinary names to a path adds them to its steps. -/
theorem steps_join_names (root : Path) {names : List String} (hne : names ≠ [])
    (h : ∀ s ∈ names, IsOrdinary s) :
    (root.join ⟨Text.join "/" names⟩).steps = root.steps ++ names.map (.name ·) := by
  rw [join, not_isAbsolute_join hne h]
  rcases List.eq_nil_or_concat root.text.toList with hnil | ⟨init, c, hroot⟩
  · obtain ⟨text⟩ := root
    obtain rfl : text = "" := String.toList_eq_nil_iff.mp hnil
    obtain ⟨s, rest, rfl⟩ := List.exists_cons_of_ne_nil hne
    obtain ⟨hs, hrest⟩ := List.forall_mem_cons.mp h
    show steps ⟨Text.join "/" (s :: rest)⟩ = steps ⟨""⟩ ++ _
    rw [steps_eq, not_isAbsolute_join hne h, splitChars_join hne h, List.map_cons, stepsFrom, hs.stepOf?_eq,
      filterMap_stepOf?_ordinary hrest]
    rfl
  · have hlast : root.text.toList.getLast? = some c := by rw [hroot]; simp
    have hnonempty : root.text.toList ≠ [] := by rw [hroot]; simp
    rw [hlast]
    by_cases hc : c = '/'
    · subst hc
      have hjoin : (root.text ++ Text.join "/" names).toList = init ++ '/' :: (Text.join "/" names).toList := by
        rw [String.toList_append, hroot, List.concat_eq_append, List.append_assoc]
        rfl
      have hslash : root.text.toList = init ++ ['/'] := by rw [hroot, List.concat_eq_append]
      show steps ⟨root.text ++ Text.join "/" names⟩ = _
      rw [steps_of_toList_eq_slash hjoin hslash, splitChars_join hne h, filterMap_stepOf?_ordinary h]
    · have hjoin : (root.text ++ "/" ++ Text.join "/" names).toList =
          root.text.toList ++ '/' :: (Text.join "/" names).toList := by
        rw [String.toList_append, String.toList_append, List.append_assoc]
        rfl
      simp only [Bool.false_eq_true, if_false]
      rw [steps_of_toList_eq hjoin hnonempty, splitChars_join hne h, filterMap_stepOf?_ordinary h]

/-- Ordinary names with slashes between them are a path of these names. -/
theorem steps_names {names : List String} (hne : names ≠ []) (h : ∀ s ∈ names, IsOrdinary s) :
    (⟨Text.join "/" names⟩ : Path).steps = names.map (.name ·) := by
  have hjoin : (⟨""⟩ : Path).join ⟨Text.join "/" names⟩ = ⟨Text.join "/" names⟩ := by
    rw [join, not_isAbsolute_join hne h]
    rfl
  rw [← hjoin, steps_join_names ⟨""⟩ hne h]
  rfl

theorem relativeSteps?_eq_some_iff {p base : Path} {steps : List PathStep} :
    p.relativeSteps? base = some steps ↔ p.steps = base.steps ++ steps :=
  PathStep.after?_eq_some_iff

end Path

namespace FileName

/-- There is no slash in the name. -/
def IsSlashless : FileName → Prop
  | text s => '/' ∉ s.toList
  | raw name => 0x2F ∉ name.bytes

instance : DecidablePred IsSlashless
  | text s => inferInstanceAs (Decidable ('/' ∉ s.toList))
  | raw name => inferInstanceAs (Decidable (0x2F ∉ name.bytes))

/-- A name that a directory can have an entry of. -/
structure IsOrdinary (name : FileName) : Prop where
  ne_empty : name ≠ ""
  ne_current : name ≠ "."
  ne_parent : name ≠ ".."
  slashless : name.IsSlashless

instance (name : FileName) : Decidable name.IsOrdinary :=
  decidable_of_iff (name ≠ "" ∧ name ≠ "." ∧ name ≠ ".." ∧ name.IsSlashless)
    ⟨fun ⟨hempty, hcurrent, hparent, hslash⟩ => ⟨hempty, hcurrent, hparent, hslash⟩,
      fun h => ⟨h.ne_empty, h.ne_current, h.ne_parent, h.slashless⟩⟩

theorem isOrdinary_text {s : String} (h : Path.IsOrdinary s) : (text s).IsOrdinary where
  ne_empty := mt text.inj h.ne_empty
  ne_current := mt text.inj h.ne_current
  ne_parent := mt text.inj h.ne_parent
  slashless := h.not_mem

end FileName

namespace Path

/-! ## The order of paths -/

theorem same_iff {a b : Path} : a.same b = true ↔ a.steps = b.steps := beq_iff_eq

theorem same_self (a : Path) : a.same a = true := same_iff.mpr rfl

theorem same_comm (a b : Path) : a.same b = b.same a := by
  rw [Bool.eq_iff_iff, same_iff, same_iff]
  exact eq_comm

/-- A path can be replaced by one with the same steps. -/
theorem same_congr {a b : Path} (h : a.same b = true) (c : Path) : a.same c = b.same c := by
  rw [same, same, same_iff.mp h]

theorem before_irrefl (a : Path) : ¬ a.before a = true := PathStep.listBefore_irrefl a.steps

theorem before_trans {a b c : Path} (hab : a.before b = true) (hbc : b.before c = true) : a.before c = true :=
  PathStep.listBefore_trans hab hbc

theorem not_same_of_before {a b : Path} (h : a.before b = true) : a.same b = false := by
  rw [← Bool.not_eq_true, same_iff]
  intro heq
  rw [before, heq] at h
  exact PathStep.listBefore_irrefl _ h

theorem before_trichotomy (a b : Path) : a.before b = true ∨ a.same b = true ∨ b.before a = true := by
  rw [same_iff]
  exact PathStep.listBefore_trichotomy a.steps b.steps

end Path

namespace SourcePath

theorem same_iff {a b : SourcePath} : a.same b = true ↔ a.steps = b.steps := beq_iff_eq

theorem same_comm (a b : SourcePath) : a.same b = b.same a := by
  rw [Bool.eq_iff_iff, same_iff, same_iff]
  exact eq_comm

theorem relativeSteps?_eq_some_iff {p : SourcePath} {base : Path} {steps : List PathStep} :
    p.relativeSteps? base = some steps ↔ p.steps = base.steps ++ steps :=
  PathStep.after?_eq_some_iff

end SourcePath

end DocModel
