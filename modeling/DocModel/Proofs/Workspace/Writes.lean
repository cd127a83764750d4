import DocModel.Workspace

/-!
# What a build writes

What a build adds to the log, whether it fails or not.

* `WritesOnly`: every file that is added has a property, and relative paths start where they did.
* `bind_apply`, `tryCatch_apply`: how the parts of a build follow each other.
* `write_cases`, `writeAll_cases`: a file is written or it is not, and writing ends at the first fault.
* `FileTree.text?_ofText`: what was written as a text is read as that text.
-/

namespace DocModel

namespace Build

variable {α β : Type} {P : FileWrite → Prop}

/-- From `ws` a build has come to `result`, and all files added on the way have the property. -/
structure Added (P : FileWrite → Prop) (ws : Workspace) (result : Except BuildError α × Workspace) :
    Prop where
  here_eq : result.2.here = ws.here
  log : ∃ writes, result.2.log = ws.log ++ writes ∧ ∀ w ∈ writes, P w

/-- Wherever a build starts, all files that it adds have the property. -/
def WritesOnly (P : FileWrite → Prop) (x : Build α) : Prop := ∀ ws, Added P ws (x ws)

/-- What was written before stays written. -/
theorem Added.mem_log {ws : Workspace} {r : Except BuildError α × Workspace} (h : Added P ws r)
    {w : FileWrite} (hw : w ∈ ws.log) : w ∈ r.2.log := by
  obtain ⟨-, writes, hlog, -⟩ := h
  rw [hlog]
  exact List.mem_append_left _ hw

theorem bind_apply (x : Build α) (f : α → Build β) (ws : Workspace) :
    (x >>= f) ws =
      match x ws with
      | (.ok a, ws) => f a ws
      | (.error e, ws) => (.error e, ws) := by
  show ((x >>= f : ExceptT BuildError (StateM Workspace) β) : Workspace → _) ws = _
  simp only [bind, ExceptT.bind, ExceptT.mk, StateT.bind, ExceptT.bindCont]
  cases x ws with
  | mk r ws' => cases r <;> rfl

theorem bind_eq_ok {x : Build α} {f : α → Build β} {ws ws' : Workspace} {b : β}
    (h : (x >>= f) ws = (.ok b, ws')) : ∃ a mid, x ws = (.ok a, mid) ∧ f a mid = (.ok b, ws') := by
  rw [bind_apply] at h
  cases hx : x ws with
  | mk r mid =>
    rw [hx] at h
    cases r with
    | ok a => exact ⟨a, mid, rfl, h⟩
    | error e => cases h

/-- What only reads goes on where it starts. -/
theorem ofRead_bind_eq_ok {read : Workspace → Except BuildError α} {f : α → Build β} {ws ws' : Workspace} {b : β}
    (h : (Build.ofRead read >>= f) ws = (.ok b, ws')) : ∃ a, read ws = .ok a ∧ f a ws = (.ok b, ws') := by
  rw [bind_apply, Build.ofRead] at h
  cases hr : read ws with
  | error e => rw [hr] at h; cases h
  | ok a => rw [hr] at h; exact ⟨a, rfl, h⟩

theorem tryCatch_apply (x : Build α) (handle : BuildError → Build α) (ws : Workspace) :
    (tryCatch x handle : Build α) ws =
      match x ws with
      | (.ok a, ws) => (.ok a, ws)
      | (.error e, ws) => handle e ws := by
  show ((ExceptT.tryCatch x handle : ExceptT BuildError (StateM Workspace) α) : Workspace → _) ws = _
  simp only [ExceptT.tryCatch, ExceptT.mk, bind, StateT.bind]
  cases x ws with
  | mk r ws' => cases r <;> rfl

theorem tryCatch_bind_of_ok {x : Build α} {ws ws' : Workspace} {a : α} (h : x ws = (.ok a, ws'))
    (handle : BuildError → Build α) (f : α → Build β) : ((tryCatch x handle : Build α) >>= f) ws = f a ws' := by
  rw [bind_apply, tryCatch_apply, h]

theorem tryCatch_bind_of_error {x : Build α} {ws ws' : Workspace} {e : BuildError} (h : x ws = (.error e, ws'))
    (handle : BuildError → Build α) (f : α → Build β) :
    ((tryCatch x handle : Build α) >>= f) ws = (handle e >>= f) ws' := by
  rw [bind_apply, tryCatch_apply, h, bind_apply]

/-! ## Writing -/

theorem here_makeDirs (ws : Workspace) (p : Path) :
    (ws.makeDirs p).2.here = ws.here ∧ (ws.makeDirs p).2.log = ws.log := by
  rw [Workspace.makeDirs]
  split <;> exact ⟨rfl, rfl⟩

/-- A write fails with a fault of the file system and adds nothing to the log, or succeeds. -/
theorem write_cases (w : FileWrite) (ws : Workspace) :
    (∃ p fault ws', Build.write w ws = (.error (.io p fault), ws') ∧ ws'.here = ws.here ∧
      ws'.log = ws.log) ∨
    ∃ ws', Build.write w ws = (.ok (), ws') ∧ ws'.here = ws.here ∧ ws'.log = ws.log ++ [w] := by
  rw [Build.write, Workspace.write]
  have hdirs := here_makeDirs ws (w.path.parent?.getD ⟨""⟩)
  cases hm : ws.makeDirs (w.path.parent?.getD ⟨""⟩) with
  | mk r ws' =>
    rw [hm] at hdirs
    obtain ⟨hhere, hlog⟩ := hdirs
    cases r with
    | error fault => exact .inl ⟨_, fault, ws', rfl, hhere, hlog⟩
    | ok =>
      dsimp only
      cases ws'.fileLocation w.path with
      | error fault => exact .inl ⟨_, fault, ws', rfl, hhere, hlog⟩
      | ok location => exact .inr ⟨_, rfl, hhere, congrArg (· ++ [w]) hlog⟩

/-- Unless the file system fails, all files are written; if it does, those before the failure are. -/
theorem writeAll_cases (writes : List FileWrite) (ws : Workspace) :
    (∃ p fault ws' written, Build.writeAll writes ws = (.error (.io p fault), ws') ∧ written <+: writes ∧
      ws'.log = ws.log ++ written) ∨
      ∃ ws', Build.writeAll writes ws = (.ok (), ws') ∧ ws'.log = ws.log ++ writes := by
  induction writes generalizing ws with
  | nil => exact .inr ⟨ws, rfl, (List.append_nil _).symm⟩
  | cons w rest ih =>
    have hcons : Build.writeAll (w :: rest) ws = (Build.write w >>= fun _ => Build.writeAll rest) ws := rfl
    rw [hcons, bind_apply]
    rcases write_cases w ws with ⟨p, fault, ws', hw, -, hlog⟩ | ⟨ws', hw, -, hlog⟩
    · rw [hw]
      exact .inl ⟨p, fault, ws', [], rfl, List.nil_prefix, hlog.trans (List.append_nil _).symm⟩
    · have happend : ∀ written, ws'.log ++ written = ws.log ++ w :: written := fun written => by
        rw [hlog, List.append_assoc, List.singleton_append]
      rw [hw]
      rcases ih ws' with ⟨p, fault, ws'', written, hrest, hwritten, hlog'⟩ | ⟨ws'', hrest, hlog'⟩
      · exact .inl ⟨p, fault, ws'', w :: written, hrest, (List.prefix_cons_inj w).mpr hwritten,
          hlog'.trans (happend written)⟩
      · exact .inr ⟨ws'', hrest, hlog'.trans (happend rest)⟩

theorem writeAll_append (writes more : List FileWrite) :
    Build.writeAll (writes ++ more) = Build.writeAll writes >>= fun _ => Build.writeAll more :=
  List.forM_append

/-- If all files can be written, so can the first of them. -/
theorem writeAll_of_append {writes more : List FileWrite} {ws : Workspace}
    (h : (Build.writeAll (writes ++ more) ws).1 = .ok ()) :
    ∃ ws', Build.writeAll writes ws = (.ok (), ws') ∧ ws'.log = ws.log ++ writes := by
  rcases writeAll_cases writes ws with ⟨p, fault, ws', -, hwrite, -⟩ | hwritten
  · rw [writeAll_append, bind_apply, hwrite] at h
    cases h
  · exact hwritten

end Build

namespace Workspace

/-- A new file is placed in the directory that its path leads to. -/
theorem fileLocation_of_notFound {ws : Workspace} {p : Path} (parent : List FileName) {name : FileName}
    (hfault : p.fault? = none)
    (hparent : (pieces p).dropLast.foldlM (follow ws.tree) (ws.start p) = .ok parent)
    (hname : (pieces p).getLast? = some name) (hfollow : follow ws.tree parent name = .error .notFound) :
    ws.fileLocation p = .ok (target parent name) := by
  simp only [fileLocation, hfault, hparent, hname, Option.getD_some, hfollow, bind, Except.bind, pure,
    Except.pure]

/-- A file that is there is placed where it is. -/
theorem fileLocation_of_ok {ws : Workspace} {p : Path} (parent : List FileName) {name : FileName}
    {location : List FileName} (hfault : p.fault? = none)
    (hparent : (pieces p).dropLast.foldlM (follow ws.tree) (ws.start p) = .ok parent)
    (hname : (pieces p).getLast? = some name) (hfollow : follow ws.tree parent name = .ok location)
    (hfile : isDirAt ws.tree location = false) : ws.fileLocation p = .ok location := by
  simp only [fileLocation, hfault, hparent, hname, Option.getD_some, hfollow, hfile, bind, Except.bind, pure,
    Except.pure]
  rfl

theorem write_eq_ok {w : FileWrite} {ws ws' : Workspace} {parent : Path} {location : List FileName}
    (hparent : w.path.parent? = some parent) (hdirs : ws.makeDirs parent = (.ok (), ws'))
    (hlocation : ws'.fileLocation w.path = .ok location) :
    Workspace.write w ws =
      (.ok (), { ws' with tree := ws'.tree.put location (.ofText w.content), log := ws'.log ++ [w] }) := by
  simp only [Workspace.write, hparent, Option.getD_some, hdirs, hlocation]

end Workspace

/-! ## Texts -/

theorem toList_loop_eq (bytes : ByteArray) (i : Nat) (read : List UInt8) :
    ByteArray.toList.loop bytes i read = read.reverse ++ bytes.data.toList.drop i := by
  fun_induction ByteArray.toList.loop bytes i read with
  | case1 i read h ih =>
    have hget : bytes.get! i = bytes.data.toList[i] := by
      rw [ByteArray.get!]
      simp [getElem!_pos, h]
    rw [ih, List.reverse_cons, List.append_assoc, List.drop_eq_getElem_cons (i := i) h, hget]
    rfl
  | case2 i read h =>
    rw [List.drop_eq_nil_of_le (Nat.le_of_not_lt h), List.append_nil]

/-- A file that was written with a text holds that text. -/
theorem FileTree.text?_ofText (text : String) : (FileTree.ofText text).text? = some text := by
  have hbytes : (⟨text.toUTF8.toList.toArray⟩ : ByteArray) = text.toUTF8 := by
    rw [ByteArray.toList, toList_loop_eq]
    rfl
  have hvalid : text.toUTF8.IsValidUTF8 := text.isValidUTF8
  rw [FileTree.ofText, FileTree.text?, hbytes, String.fromUTF8?, dif_pos hvalid]
  rfl

end DocModel
