import DocModel.Proofs.Dict.Insertion
import DocModel.Proofs.Except
import DocModel.Proofs.Path.Steps
import DocModel.Proofs.Workspace.Writes

/-!
# What writing leaves alone

Writing a file makes the directories that are missing and one file. A directory stays a directory, and no file
comes, goes or changes but the one that is written.

* `FileTree.at?_append`, `FileTree.at?_put_append`: what is found on the way to a location and beyond it.
* `Grown`: one tree has come from another one by writing at some locations, and no others.
* `grown_putDir`, `grown_putFile`: the two ways in which a node is placed.
* `Wrote`: what was written between two states of a workspace, with all else as it was.
* `TouchesOnly`: all files that a build writes have a property. `TouchesOnly.bind`, `TouchesOnly.tryCatch` and
  `TouchesOnly.writeAll` are how the parts of a build go together.
-/

namespace DocModel

namespace FileTree

/-- The content of the file at a location. -/
def file? (t : FileTree) (location : List FileName) : Option (List UInt8) :=
  match t.at? location with
  | some (file content) => some content
  | _ => none

/-- The entries of a directory as a file system can have them: each name is there once, and is a name. -/
structure ProperEntries (entries : List (FileName × FileTree)) : Prop where
  nodup : (Dict.keys entries).Nodup
  isOrdinary : ∀ name ∈ Dict.keys entries, name.IsOrdinary

/-- All directories have proper entries. -/
def IsProper (t : FileTree) : Prop := ∀ location es, t.at? location = some (dir es) → ProperEntries es

theorem at?_append (t : FileTree) (a b : List FileName) : t.at? (a ++ b) = (t.at? a).bind (·.at? b) := by
  induction a generalizing t with
  | nil => rfl
  | cons name rest ih =>
    rw [List.cons_append, at?, at?]
    cases Dict.get? t.entries name with
    | none => rfl
    | some child => exact ih child

theorem isProper_file (content : List UInt8) : (file content).IsProper := by
  intro location es hes
  cases location <;> cases hes

theorem isProper_dir {es : List (FileName × FileTree)} (h : ProperEntries es) (hchildren : ∀ e ∈ es, e.2.IsProper) :
    (dir es).IsProper := by
  intro location es' hes'
  cases location with
  | nil => cases hes'; exact h
  | cons name rest =>
    rw [at?, entries_dir] at hes'
    cases hget : Dict.get? es name with
    | none => rw [hget] at hes'; cases hes'
    | some child =>
      rw [hget] at hes'
      exact hchildren _ (Dict.mem_of_get? hget) rest es' hes'

/-- On the way to the location of a new node is what was there, with the node placed in it. -/
theorem at?_put_append (t : FileTree) (a b : List FileName) (new : FileTree) :
    (t.put (a ++ b) new).at? a = some (((t.at? a).getD (dir [])).put b new) := by
  induction a generalizing t with
  | nil => rfl
  | cons name rest ih =>
    rw [List.cons_append, put, at?, at?, entries_dir, Dict.get?_insert_self]
    dsimp only
    rw [ih]
    cases Dict.get? t.entries name with
    | some child => rfl
    | none =>
      cases rest with
      | nil => rfl
      | cons next rest => rfl

/-- Nothing is below a node without entries. -/
theorem at?_cons_of_entries {t : FileTree} (h : t.entries = []) (name : FileName) (rest : List FileName) :
    t.at? (name :: rest) = none := by
  rw [at?, h]
  rfl

theorem ProperEntries.insert {es : List (FileName × FileTree)} (h : ProperEntries es) {name : FileName}
    (hname : name.IsOrdinary) (child : FileTree) : ProperEntries (Dict.insert es name child) := by
  cases hc : Dict.contains es name with
  | true =>
    rw [Dict.insert, if_pos hc]
    exact ⟨by rw [Dict.keys_replace]; exact h.nodup, by rw [Dict.keys_replace]; exact h.isOrdinary⟩
  | false =>
    have hperm := Dict.keys_insert_perm hc child
    have hnew : name ∉ Dict.keys es := fun hm => by simp [Dict.contains_eq_true_iff.mpr hm] at hc
    refine ⟨hperm.nodup_iff.mpr (List.nodup_cons.mpr ⟨hnew, h.nodup⟩), fun other ho => ?_⟩
    rcases List.mem_cons.mp (hperm.mem_iff.mp ho) with rfl | ho
    · exact hname
    · exact h.isOrdinary other ho

end FileTree

open Workspace (isDirAt follow target pieces)

theorem isDirAt_iff {t : FileTree} {location : List FileName} :
    isDirAt t location = true ↔ ∃ es, t.at? location = some (.dir es) := by
  rw [isDirAt]
  cases t.at? location with
  | none => simp
  | some node => cases node <;> simp [FileTree.isDir]

/-- What leads to something is a directory. -/
theorem isDirAt_of_append {t : FileTree} {a b : List FileName} (hb : b ≠ []) (h : (t.at? (a ++ b)).isSome = true) :
    isDirAt t a = true := by
  obtain ⟨name, rest, rfl⟩ := List.exists_cons_of_ne_nil hb
  rw [FileTree.at?_append] at h
  rw [isDirAt]
  cases ha : t.at? a with
  | none => rw [ha] at h; cases h
  | some node =>
    cases node with
    | dir es => rfl
    | file content => rw [ha] at h; cases h

theorem isSome_of_isDirAt {t : FileTree} {location : List FileName} (h : isDirAt t location = true) :
    (t.at? location).isSome = true := by
  obtain ⟨es, hes⟩ := isDirAt_iff.mp h
  rw [hes]
  rfl

theorem isDirAt_above {t : FileTree} {a b : List FileName} (hab : a <+: b) (h : isDirAt t b = true) :
    isDirAt t a = true := by
  obtain ⟨rest, rfl⟩ := hab
  cases rest with
  | nil => rwa [List.append_nil] at h
  | cons name rest => exact isDirAt_of_append (List.cons_ne_nil name rest) (isSome_of_isDirAt h)

/-- What is there in a proper tree has names all the way. -/
theorem FileTree.IsProper.isOrdinary {t : FileTree} (h : t.IsProper) {location : List FileName}
    (hnode : (t.at? location).isSome = true) : ∀ name ∈ location, name.IsOrdinary := by
  intro name hname
  obtain ⟨a, b, rfl⟩ := List.append_of_mem hname
  obtain ⟨es, hes⟩ := isDirAt_iff.mp (isDirAt_of_append (List.cons_ne_nil name b) hnode)
  refine (h a es hes).isOrdinary name (Dict.contains_eq_true_iff.mp ?_)
  rw [FileTree.at?_append, hes, Option.bind_some, FileTree.at?, FileTree.entries_dir] at hnode
  rw [Dict.contains]
  cases hget : Dict.get? es name with
  | none => rw [hget] at hnode; cases hnode
  | some child => rfl

theorem FileTree.file?_of_isDirAt {t : FileTree} {location : List FileName} (h : isDirAt t location = true) :
    t.file? location = none := by
  obtain ⟨es, hes⟩ := isDirAt_iff.mp h
  rw [FileTree.file?, hes]

/-- Nothing is below what is no directory. -/
theorem at?_below_of_not_isDirAt {t : FileTree} {location : List FileName} (h : isDirAt t location = false)
    (below : FileName) (rest : List FileName) : t.at? (location ++ below :: rest) = none := by
  cases hnode : t.at? (location ++ below :: rest) with
  | none => rfl
  | some node =>
    have hdir := isDirAt_of_append (List.cons_ne_nil below rest) (by rw [hnode]; rfl)
    rw [hdir] at h
    cases h

/-- Any location lies above a given one, is that one, lies below it, or lies elsewhere. -/
theorem lies (location other : List FileName) :
    (∃ b, b ≠ [] ∧ other ++ b = location) ∨ other = location ∨
      (∃ below rest, other = location ++ below :: rest) ∨ FileTree.Unrelated location other := by
  by_cases hdown : location <+: other
  · obtain ⟨rest, rfl⟩ := hdown
    cases rest with
    | nil => exact .inr (.inl (List.append_nil location))
    | cons below rest => exact .inr (.inr (.inl ⟨below, rest, rfl⟩))
  · by_cases hup : other <+: location
    · obtain ⟨b, rfl⟩ := hup
      exact .inl ⟨b, fun hnil => hdown ⟨[], by simp [hnil]⟩, rfl⟩
    · exact .inr (.inr (.inr ⟨hdown, hup⟩))

/-! ## Trees that grow -/

/-- By writing at some locations a tree has come from another one: directories have stayed, and the files
elsewhere are the same. -/
structure Grown (touched : List FileName → Prop) (t t' : FileTree) : Prop where
  isDirAt : ∀ location, isDirAt t location = true → isDirAt t' location = true
  file? : ∀ location, ¬ touched location → t'.file? location = t.file? location
  isProper : t.IsProper → t'.IsProper

theorem Grown.refl (touched : List FileName → Prop) (t : FileTree) : Grown touched t t :=
  ⟨fun _ => id, fun _ _ => rfl, id⟩

theorem Grown.trans {touched : List FileName → Prop} {t t' t'' : FileTree} (h : Grown touched t t')
    (h' : Grown touched t' t'') : Grown touched t t'' :=
  ⟨fun location hd => h'.isDirAt location (h.isDirAt location hd),
    fun location hl => (h'.file? location hl).trans (h.file? location hl), fun hp => h'.isProper (h.isProper hp)⟩

theorem Grown.mono {touched touched' : List FileName → Prop} {t t' : FileTree} (h : Grown touched t t')
    (himp : ∀ location, touched location → touched' location) : Grown touched' t t' :=
  ⟨h.isDirAt, fun location hl => h.file? location (mt (himp location) hl), h.isProper⟩

/-- A directory on the way to a new node gets the next name on the way as an entry. -/
theorem at?_put_of_isDirAt {t : FileTree} {parent : List FileName} {name : FileName} (h : isDirAt t parent = true)
    (new : FileTree) {a b : List FileName} (hb : b ≠ []) (hab : a ++ b = parent ++ [name]) :
    ∃ es first child, t.at? a = some (.dir es) ∧ first ∈ parent ++ [name] ∧
      (t.put (parent ++ [name]) new).at? a = some (.dir (Dict.insert es first child)) := by
  have hprefix : a <+: parent := by
    obtain ⟨init, last, rfl⟩ := (List.eq_nil_or_concat b).resolve_left hb
    rw [List.concat_eq_append, ← List.append_assoc] at hab
    exact ⟨init, (List.append_inj' hab rfl).1⟩
  obtain ⟨es, hes⟩ := isDirAt_iff.mp (isDirAt_above hprefix h)
  obtain ⟨first, rest, rfl⟩ := List.exists_cons_of_ne_nil hb
  refine ⟨es, first, ((Dict.get? es first).getD (.dir [])).put rest new, hes, ?_, ?_⟩
  · rw [← hab]
    exact List.mem_append_right a List.mem_cons_self
  · rw [← hab, FileTree.at?_put_append, hes]
    rfl

/-- A node without entries is placed in a directory, where no directory is yet. -/
theorem grown_put {t new : FileTree} {parent : List FileName} {name : FileName} {touched : List FileName → Prop}
    (hparent : isDirAt t parent = true) (hname : name.IsOrdinary) (hentries : new.entries = [])
    (hnot : isDirAt t (parent ++ [name]) = false)
    (hfile : ¬ touched (parent ++ [name]) → (t.put (parent ++ [name]) new).file? (parent ++ [name]) =
      t.file? (parent ++ [name])) : Grown touched t (t.put (parent ++ [name]) new) := by
  have hat := FileTree.at?_put t (parent ++ [name]) new
  have hbelow : ∀ below rest, (t.put (parent ++ [name]) new).at? (parent ++ [name] ++ below :: rest) = none := by
    intro below rest
    rw [FileTree.at?_append, hat]
    exact FileTree.at?_cons_of_entries hentries below rest
  have hbelow' := at?_below_of_not_isDirAt hnot
  refine ⟨fun location hd => ?_, fun location hl => ?_, fun hp location es hes => ?_⟩
  all_goals obtain ⟨b, hb, hab⟩ | rfl | ⟨below, rest, rfl⟩ | hunrelated := lies (parent ++ [name]) location
  · obtain ⟨es, first, child, -, -, hput⟩ := at?_put_of_isDirAt hparent new hb hab
    exact isDirAt_iff.mpr ⟨_, hput⟩
  · rw [hd] at hnot
    cases hnot
  · rw [isDirAt, hbelow'] at hd
    cases hd
  · rwa [isDirAt, FileTree.at?_put_of_unrelated t new hunrelated]
  · obtain ⟨es, first, child, hes, -, hput⟩ := at?_put_of_isDirAt hparent new hb hab
    rw [FileTree.file?_of_isDirAt (isDirAt_iff.mpr ⟨_, hput⟩),
      FileTree.file?_of_isDirAt (isDirAt_iff.mpr ⟨es, hes⟩)]
  · exact hfile hl
  · rw [FileTree.file?, FileTree.file?, hbelow, hbelow']
  · rw [FileTree.file?, FileTree.file?, FileTree.at?_put_of_unrelated t new hunrelated]
  · obtain ⟨es', first, child, hes', hfirst, hput⟩ := at?_put_of_isDirAt hparent new hb hab
    obtain rfl : Dict.insert es' first child = es := by simpa [hput] using hes
    refine (hp location es' hes').insert ?_ child
    rcases List.mem_append.mp hfirst with hfirst | hfirst
    · exact hp.isOrdinary (isSome_of_isDirAt hparent) first hfirst
    · rwa [List.mem_singleton.mp hfirst]
  · obtain rfl : new = .dir es := by simpa [hat] using hes
    obtain rfl : es = [] := hentries
    exact ⟨List.nodup_nil, nofun⟩
  · rw [hbelow] at hes
    cases hes
  · rw [FileTree.at?_put_of_unrelated t new hunrelated] at hes
    exact hp location es hes

/-- A file that is placed in a directory makes no directory, and takes none away. -/
theorem isDirAt_putFile {t : FileTree} {parent : List FileName} {name : FileName} (hparent : isDirAt t parent = true)
    (hnot : isDirAt t (parent ++ [name]) = false) (content : List UInt8) (location : List FileName) :
    isDirAt (t.put (parent ++ [name]) (.file content)) location = isDirAt t location := by
  have hat := FileTree.at?_put t (parent ++ [name]) (.file content)
  obtain ⟨b, hb, hab⟩ | rfl | ⟨below, rest, rfl⟩ | hunrelated := lies (parent ++ [name]) location
  · obtain ⟨es, first, child, hes, -, hput⟩ := at?_put_of_isDirAt hparent (.file content) hb hab
    rw [isDirAt, isDirAt, hes, hput]
    rfl
  · rw [hnot, isDirAt, hat]
    rfl
  · rw [isDirAt, isDirAt, at?_below_of_not_isDirAt hnot, FileTree.at?_append, hat, Option.bind_some,
      FileTree.at?_cons_of_entries rfl]
  · rw [isDirAt, isDirAt, FileTree.at?_put_of_unrelated t _ hunrelated]

/-! ## Following pieces -/

theorem follow_eq_ok {t : FileTree} {location next : List FileName} {piece : FileName}
    (h : follow t location piece = .ok next) :
    isDirAt t location = true ∧ next = target location piece ∧ (t.at? next).isSome = true := by
  rw [follow] at h
  split at h
  · cases h
  · next hdir =>
    split at h
    · next hsome => cases h; exact ⟨by simpa using hdir, rfl, hsome⟩
    · split at h <;> cases h

/-- A piece leads to a name below, or back to a directory that is there. -/
theorem target_cases {t : FileTree} {location : List FileName} (h : isDirAt t location = true) {piece : FileName}
    (hslash : piece.IsSlashless) :
    isDirAt t (target location piece) = true ∨
      target location piece = location ++ [piece] ∧ piece.IsOrdinary := by
  rw [target]
  by_cases hstay : piece = "" ∨ piece = "."
  · exact .inl (by rwa [if_pos (by simpa using hstay)])
  · rw [if_neg (by simpa using hstay)]
    by_cases hup : piece = ".."
    · rw [if_pos hup]
      have habove : location.dropLast <+: location := List.dropLast_prefix location
      exact .inl (isDirAt_above habove h)
    · rw [if_neg hup]
      obtain ⟨hempty, hcurrent⟩ := not_or.mp hstay
      exact .inr ⟨rfl, hempty, hcurrent, hup, hslash⟩

theorem follow_eq_notFound {t : FileTree} {location : List FileName} {piece : FileName}
    (h : follow t location piece = .error .notFound) :
    isDirAt t location = true ∧ t.at? (target location piece) = none := by
  rw [follow] at h
  split at h
  · cases h
  · next hdir =>
    split at h
    · cases h
    · next hnone => exact ⟨by simpa using hdir, by simpa using hnone⟩

theorem foldlM_follow_eq_ok {t : FileTree} {names : List FileName} {location last : List FileName}
    (h : names.foldlM (follow t) location = .ok last) : last = names.foldl target location := by
  induction names generalizing location with
  | nil => exact (Except.ok.inj h).symm
  | cons piece rest ih =>
    obtain ⟨next, hnext, hrest⟩ := Except.foldlM_cons_eq_ok_iff.mp h
    obtain ⟨-, rfl, -⟩ := follow_eq_ok hnext
    exact ih hrest

theorem isSlashless_of_mem_pieces {p : Path} {piece : FileName} (h : piece ∈ pieces p) : piece.IsSlashless := by
  obtain ⟨s, hs, rfl⟩ := List.mem_map.mp h
  obtain ⟨cs, hcs, rfl⟩ := List.mem_map.mp hs
  rw [FileName.IsSlashless, String.toList_ofList]
  exact Text.not_mem_of_mem_splitChars hcs

/-! ## Writing -/

theorem isDirAt_eq_false {t : FileTree} {location : List FileName} (h : t.at? location = none) :
    isDirAt t location = false := by
  rw [isDirAt, h]
  rfl

theorem FileTree.file?_of_at?_eq_none {t : FileTree} {location : List FileName} (h : t.at? location = none) :
    t.file? location = none := by
  rw [FileTree.file?, h]

/-- A directory is made where there was nothing. -/
theorem grown_putDir {t : FileTree} {location : List FileName} {piece : FileName} (hslash : piece.IsSlashless)
    (h : follow t location piece = .error .notFound) :
    Grown (fun _ => False) t (t.put (target location piece) (.dir [])) := by
  obtain ⟨hdir, hnone⟩ := follow_eq_notFound h
  obtain hfalse | ⟨htarget, hname⟩ := target_cases hdir hslash
  · rw [isDirAt, hnone] at hfalse
    cases hfalse
  · rw [htarget] at hnone ⊢
    refine grown_put hdir hname rfl (isDirAt_eq_false hnone) fun _ => ?_
    rw [FileTree.file?, FileTree.at?_put, FileTree.file?_of_at?_eq_none hnone]

/-- Making directories changes no file. -/
theorem grown_makeDirsAt {names : List FileName} (h : ∀ piece ∈ names, piece.IsSlashless) (t : FileTree)
    (location : List FileName) : Grown (fun _ => False) t (Workspace.makeDirsAt t location names).2 := by
  induction names generalizing t location with
  | nil => exact .refl _ t
  | cons piece rest ih =>
    obtain ⟨hpiece, hrest⟩ := List.forall_mem_cons.mp h
    rw [Workspace.makeDirsAt]
    cases hf : follow t location piece with
    | ok next => exact ih hrest t next
    | error fault =>
      cases fault with
      | notFound => exact (grown_putDir hpiece hf).trans (ih hrest _ _)
      | _ => exact .refl _ t

theorem grown_makeDirs (ws : Workspace) (p : Path) : Grown (fun _ => False) ws.tree (ws.makeDirs p).2.tree := by
  rw [Workspace.makeDirs]
  split
  · exact .refl _ ws.tree
  · exact grown_makeDirsAt (fun _ => isSlashless_of_mem_pieces) ws.tree (ws.start p)

theorem exists_pieces_eq (p : Path) : ∃ init name, pieces p = init ++ [name] := by
  obtain ⟨init, name, hpieces⟩ :=
    (List.eq_nil_or_concat (pieces p)).resolve_left
      (by simpa [pieces, Text.split] using Text.splitChars_ne_nil _ _)
  exact ⟨init, name, by rw [hpieces, List.concat_eq_append]⟩

/-- The way to a file goes through all pieces of its path but the last, and ends in a directory. -/
theorem way_of_fileLocation {ws : Workspace} {p : Path} {location : List FileName}
    (h : ws.fileLocation p = .ok location) :
    p.fault? = none ∧ ∃ init name parent, pieces p = init ++ [name] ∧
      init.foldlM (follow ws.tree) (ws.start p) = .ok parent ∧ isDirAt ws.tree parent = true ∧
      location = target parent name ∧ isDirAt ws.tree location = false := by
  obtain ⟨init, name, hpieces⟩ := exists_pieces_eq p
  rw [Workspace.fileLocation, hpieces, List.dropLast_concat, List.getLast?_concat, Option.getD_some] at h
  split at h
  · cases h
  · next hfault =>
    obtain ⟨parent, hparent, h⟩ := Except.bind_eq_ok_iff.mp h
    dsimp only at h
    refine ⟨Option.eq_none_iff_forall_ne_some.mpr hfault, init, name, parent, hpieces, hparent, ?_⟩
    cases hf : follow ws.tree parent name with
    | ok next =>
      obtain ⟨hdir, rfl, -⟩ := follow_eq_ok hf
      rw [hf] at h
      simp only at h
      split at h
      · cases h
      · next hnot => cases h; exact ⟨hdir, rfl, by simpa using hnot⟩
    | error fault =>
      rw [hf] at h
      cases fault with
      | notFound =>
        obtain ⟨hdir, hnone⟩ := follow_eq_notFound hf
        cases h
        exact ⟨hdir, rfl, isDirAt_eq_false hnone⟩
      | _ => cases h

/-- A file is placed where its path leads: in a directory, under a name of its own. -/
theorem fileLocation_eq_ok {ws : Workspace} {p : Path} {location : List FileName}
    (h : ws.fileLocation p = .ok location) :
    location = ws.location p ∧ ∃ parent name, location = parent ++ [name] ∧ name.IsOrdinary ∧
      isDirAt ws.tree parent = true ∧ isDirAt ws.tree location = false := by
  obtain ⟨-, init, name, parent, hpieces, hparent, hdir, rfl, hnot⟩ := way_of_fileLocation h
  have hslash : name.IsSlashless := isSlashless_of_mem_pieces (p := p) (by rw [hpieces]; simp)
  have hlocation : ws.location p = target parent name := by
    rw [Workspace.location, hpieces, List.foldl_append, ← foldlM_follow_eq_ok hparent]
    rfl
  obtain hfalse | ⟨htarget, hname⟩ := target_cases hdir hslash
  · rw [hnot] at hfalse
    cases hfalse
  · exact ⟨hlocation.symm, parent, name, htarget, hname, hdir, hnot⟩

theorem grown_putFile {ws : Workspace} {p : Path} {location : List FileName} (h : ws.fileLocation p = .ok location)
    (text : String) : Grown (· = ws.location p) ws.tree (ws.tree.put location (.ofText text)) := by
  obtain ⟨rfl, parent, name, hlocation, hname, hdir, hnot⟩ := fileLocation_eq_ok h
  rw [hlocation] at hnot ⊢
  exact grown_put hdir hname rfl hnot fun hl => absurd rfl hl

theorem location_congr {ws ws' : Workspace} (h : ws'.here = ws.here) (p : Path) :
    ws'.location p = ws.location p := by
  rw [Workspace.location, Workspace.location, Workspace.start, Workspace.start, h]

/-- Writing a file touches the location of its path alone, and not even that if it fails. -/
theorem grown_write (w : FileWrite) (ws : Workspace) :
    Grown (fun location => (Build.write w ws).1 = .ok () ∧ ws.location w.path = location) ws.tree
      (Build.write w ws).2.tree := by
  have hdirs := grown_makeDirs ws (w.path.parent?.getD ⟨""⟩)
  have hhere := (Build.here_makeDirs ws (w.path.parent?.getD ⟨""⟩)).1
  rw [Build.write, Workspace.write]
  cases hm : ws.makeDirs (w.path.parent?.getD ⟨""⟩) with
  | mk r ws' =>
    rw [hm] at hdirs hhere
    cases r with
    | error fault => exact hdirs.mono fun _ => False.elim
    | ok =>
      dsimp only
      cases hl : ws'.fileLocation w.path with
      | error fault => exact hdirs.mono fun _ => False.elim
      | ok location =>
        refine (hdirs.mono fun _ => False.elim).trans ((grown_putFile hl w.content).mono ?_)
        rintro location rfl
        exact ⟨rfl, (location_congr hhere w.path).symm⟩

/-! ## Builds -/

/-- Between two states these files were written, and nothing else has touched a file. -/
structure Wrote (written : List FileWrite) (ws ws' : Workspace) : Prop where
  here_eq : ws'.here = ws.here
  log : ws'.log = ws.log ++ written
  grown : Grown (fun location => ∃ w ∈ written, ws.location w.path = location) ws.tree ws'.tree

theorem Wrote.refl (ws : Workspace) : Wrote [] ws ws := ⟨rfl, (List.append_nil _).symm, .refl _ ws.tree⟩

theorem Wrote.trans {written written' : List FileWrite} {ws ws' ws'' : Workspace} (h : Wrote written ws ws')
    (h' : Wrote written' ws' ws'') : Wrote (written ++ written') ws ws'' := by
  refine ⟨h'.here_eq.trans h.here_eq, by rw [h'.log, h.log, List.append_assoc], ?_⟩
  refine (h.grown.mono fun location hl => ?_).trans (h'.grown.mono fun location hl => ?_)
  · obtain ⟨w, hw, hl⟩ := hl
    exact ⟨w, List.mem_append_left _ hw, hl⟩
  · obtain ⟨w, hw, hl⟩ := hl
    exact ⟨w, List.mem_append_right _ hw, (location_congr h.here_eq w.path).symm.trans hl⟩

/-- A file at a location that no path leads to is as it was. -/
theorem Wrote.file?_eq {written : List FileWrite} {ws ws' : Workspace} (h : Wrote written ws ws')
    {location : List FileName} (hl : ∀ w ∈ written, ws.location w.path ≠ location) :
    ws'.tree.file? location = ws.tree.file? location :=
  h.grown.file? location fun ⟨w, hw, heq⟩ => hl w hw heq

theorem wrote_write (w : FileWrite) (ws : Workspace) :
    ∃ written, Wrote written ws (Build.write w ws).2 ∧ ∀ w' ∈ written, w' = w := by
  have hgrown := grown_write w ws
  rcases Build.write_cases w ws with ⟨p, fault, ws', hw, hhere, hlog⟩ | ⟨ws', hw, hhere, hlog⟩
  · rw [hw] at hgrown ⊢
    exact ⟨[], ⟨hhere, hlog.trans (List.append_nil _).symm, hgrown.mono fun _ h => nomatch h.1⟩, nofun⟩
  · rw [hw] at hgrown ⊢
    refine ⟨[w], ⟨hhere, hlog, hgrown.mono fun _ h => ⟨w, List.mem_cons_self, h.2⟩⟩, fun w' hw' => ?_⟩
    exact List.mem_singleton.mp hw'

namespace Build

variable {α β : Type} {P : FileWrite → Prop}

/-- Wherever a build starts, it touches no files but those that it writes, and these have the property. -/
def TouchesOnly (P : FileWrite → Prop) (x : Build α) : Prop :=
  ∀ ws, ∃ written, Wrote written ws (x ws).2 ∧ ∀ w ∈ written, P w

theorem TouchesOnly.writesOnly {x : Build α} (h : TouchesOnly P x) : WritesOnly P x := fun ws =>
  let ⟨written, hwrote, hwritten⟩ := h ws
  ⟨hwrote.here_eq, written, hwrote.log, hwritten⟩

theorem TouchesOnly.ofRead (read : Workspace → Except BuildError α) : TouchesOnly P (Build.ofRead read) :=
  fun ws => ⟨[], .refl ws, nofun⟩

theorem TouchesOnly.ofExcept (r : Except BuildError α) : TouchesOnly P (Build.ofExcept r) := .ofRead fun _ => r

theorem TouchesOnly.pure (a : α) : TouchesOnly P (Pure.pure a : Build α) := fun ws => ⟨[], .refl ws, nofun⟩

theorem TouchesOnly.throw (e : BuildError) : TouchesOnly P (MonadExcept.throw e : Build α) :=
  fun ws => ⟨[], .refl ws, nofun⟩

/-- What is done next can use what has been found so far. -/
theorem TouchesOnly.bind_of {x : Build α} {f : α → Build β} (hx : TouchesOnly P x)
    (hf : ∀ ws a, (x ws).1 = .ok a → TouchesOnly P (f a)) : TouchesOnly P (x >>= f) := by
  intro ws
  obtain ⟨written, hwrote, hwritten⟩ := hx ws
  have hnext := hf ws
  rw [bind_apply]
  cases hr : x ws with
  | mk r ws' =>
    rw [hr] at hwrote hnext
    cases r with
    | error e => exact ⟨written, hwrote, hwritten⟩
    | ok a =>
      obtain ⟨written', hwrote', hwritten'⟩ := hnext a rfl ws'
      refine ⟨written ++ written', hwrote.trans hwrote', fun w hw => ?_⟩
      exact (List.mem_append.mp hw).elim (hwritten w) (hwritten' w)

theorem TouchesOnly.bind {x : Build α} {f : α → Build β} (hx : TouchesOnly P x)
    (hf : ∀ a, TouchesOnly P (f a)) : TouchesOnly P (x >>= f) := hx.bind_of fun _ a _ => hf a

/-- What goes on from a result can use that it is one. -/
theorem TouchesOnly.ofExcept_bind {r : Except BuildError α} {f : α → Build β}
    (h : ∀ a, r = .ok a → TouchesOnly P (f a)) : TouchesOnly P (Build.ofExcept r >>= f) :=
  (TouchesOnly.ofExcept r).bind_of fun _ a hr => h a hr

theorem TouchesOnly.tryCatch {x : Build α} {handle : BuildError → Build α} (hx : TouchesOnly P x)
    (hh : ∀ e, TouchesOnly P (handle e)) : TouchesOnly P (MonadExcept.tryCatch x handle : Build α) := by
  intro ws
  obtain ⟨written, hwrote, hwritten⟩ := hx ws
  rw [tryCatch_apply]
  cases hr : x ws with
  | mk r ws' =>
    rw [hr] at hwrote
    cases r with
    | ok a => exact ⟨written, hwrote, hwritten⟩
    | error e =>
      obtain ⟨written', hwrote', hwritten'⟩ := hh e ws'
      refine ⟨written ++ written', hwrote.trans hwrote', fun w hw => ?_⟩
      exact (List.mem_append.mp hw).elim (hwritten w) (hwritten' w)

theorem TouchesOnly.write {w : FileWrite} (hw : P w) : TouchesOnly P (Build.write w) := fun ws =>
  let ⟨written, hwrote, hwritten⟩ := wrote_write w ws
  ⟨written, hwrote, fun w' hw' => hwritten w' hw' ▸ hw⟩

theorem TouchesOnly.writeAll {writes : List FileWrite} (h : ∀ w ∈ writes, P w) :
    TouchesOnly P (Build.writeAll writes) := by
  induction writes with
  | nil => exact .pure ()
  | cons w rest ih =>
    obtain ⟨hw, hrest⟩ := List.forall_mem_cons.mp h
    exact .bind (.write hw) fun _ => ih hrest

end Build

end DocModel
