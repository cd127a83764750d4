import DocModel.Proofs.Workspace.Scanning

/-!
# What written files hold

A file that was written is read back with its text, until a later write goes to the same location.

* `Holds`: a path leads to a file with a text.
* `Holds.grown`: it does so as long as no write touches the location.
* `Holds.write`, `Holds.writeAll_textAfter`: what it holds after writes to any locations.
* `holds_of_write`, `holds_of_writeAll`: the last write to a location counts.
* `HasPlace`: a file can be written without making a directory. `exists_writeAll_eq_ok`: so can any number of them.
-/

namespace DocModel

namespace Workspace

variable {ws ws' : Workspace} {p : Path} {text : String}

/-- A path leads to a file with this text. -/
structure Holds (ws : Workspace) (p : Path) (text : String) : Prop where
  fault : p.fault? = none
  trace : ws.trace p = .ok (ws.location p)
  node : ws.tree.at? (ws.location p) = some (.ofText text)

theorem Holds.read (h : ws.Holds p text) : ws.read p = .ok text := by
  refine read_ofText ?_
  rw [Workspace.read, locate_path, h.fault, h.trace]
  simp only [bind, Except.bind]
  rw [h.node]
  rfl

/-- The way to a file leads on in a tree that has grown and still has something there. -/
theorem trace_of_grown {touched : List FileName → Prop} (h : Grown touched ws.tree ws'.tree)
    (hhere : ws'.here = ws.here) {init : List FileName} {name : FileName} (hpieces : pieces p = init ++ [name])
    {parent : List FileName} (hparent : init.foldlM (follow ws.tree) (ws.start p) = .ok parent)
    (hdir : isDirAt ws.tree parent = true) (hnode : (ws'.tree.at? (target parent name)).isSome = true) :
    ws'.trace p = .ok (target parent name) := by
  have hparent' : init.foldlM (follow ws'.tree) (ws'.start p) = .ok parent := by
    rw [start, hhere]
    exact (foldlM_follow_grown h hparent hdir).2
  have hlast : follow ws'.tree parent name = .ok (target parent name) := by
    rw [follow, h.isDirAt parent hdir, hnode]
    rfl
  rw [Workspace.trace, hpieces, List.foldlM_append, hparent']
  show (follow ws'.tree parent name >>= pure) = _
  rw [hlast]
  rfl

/-- The way to a file leads on in a tree that has grown, as long as something is there. -/
theorem Holds.trace_grown {touched : List FileName → Prop} (h : ws.Holds p text)
    (hgrown : Grown touched ws.tree ws'.tree) (hhere : ws'.here = ws.here)
    (hnode : (ws'.tree.at? (ws.location p)).isSome = true) : ws'.trace p = .ok (ws.location p) := by
  have htrace := h.trace
  obtain ⟨init, name, hpieces⟩ := exists_pieces_eq p
  rw [Workspace.trace, hpieces, List.foldlM_append, Except.bind_eq_ok_iff] at htrace
  obtain ⟨parent, hparent, hlast⟩ := htrace
  obtain ⟨next, hnext, hend⟩ := Except.foldlM_cons_eq_ok_iff.mp hlast
  obtain ⟨hdir, rfl, -⟩ := follow_eq_ok hnext
  have htarget : target parent name = ws.location p := Except.ok.inj hend
  rw [← htarget] at hnode ⊢
  exact trace_of_grown hgrown hhere hpieces hparent hdir hnode

/-- A file holds its text as long as no write touches its location. -/
theorem Holds.grown {touched : List FileName → Prop} (h : ws.Holds p text) (hgrown : Grown touched ws.tree ws'.tree)
    (hhere : ws'.here = ws.here) (hnot : ¬ touched (ws.location p)) : ws'.Holds p text := by
  have hlocation := location_congr hhere p
  have hnode : ws'.tree.at? (ws.location p) = some (.ofText text) := by
    have hfile := (hgrown.file? _ hnot).trans (FileTree.file?_eq_some_iff.mpr h.node)
    exact FileTree.file?_eq_some_iff.mp hfile
  refine ⟨h.fault, ?_, hlocation ▸ hnode⟩
  rw [hlocation]
  exact h.trace_grown hgrown hhere (by rw [hnode]; rfl)

/-- A file that was written holds its text. -/
theorem holds_of_write {w : FileWrite} (h : Build.write w ws = (.ok (), ws')) : ws'.Holds w.path w.content := by
  rw [Build.write, Workspace.write] at h
  cases hm : ws.makeDirs (w.path.parent?.getD ⟨""⟩) with
  | mk r made =>
    rw [hm] at h
    cases r with
    | error fault => cases h
    | ok =>
      dsimp only at h
      cases hl : made.fileLocation w.path with
      | error fault => rw [hl] at h; cases h
      | ok location =>
        rw [hl] at h
        have hws := (Prod.mk.inj h).2
        have htree : ws'.tree = made.tree.put location (.ofText w.content) := by rw [← hws]
        have hhere : ws'.here = made.here := by rw [← hws]
        obtain ⟨hlocation, -⟩ := fileLocation_eq_ok hl
        obtain ⟨hfault, init, name, parent, hpieces, hparent, hdir, htarget, -⟩ := way_of_fileLocation hl
        have hgrown := htree ▸ grown_putFile hl w.content
        have hnode : ws'.tree.at? location = some (.ofText w.content) := htree ▸ FileTree.at?_put ..
        have htrace := trace_of_grown hgrown hhere hpieces hparent hdir (by rw [← htarget, hnode]; rfl)
        rw [← htarget, hlocation, ← location_congr hhere] at htrace
        rw [hlocation, ← location_congr hhere] at hnode
        exact ⟨hfault, htrace, hnode⟩

theorem writeAll_cons_eq_ok {w : FileWrite} {rest : List FileWrite}
    (h : Build.writeAll (w :: rest) ws = (.ok (), ws')) :
    ∃ mid, Build.write w ws = (.ok (), mid) ∧ Build.writeAll rest mid = (.ok (), ws') := by
  have hbind : (Build.write w >>= fun _ => Build.writeAll rest) ws = (.ok (), ws') := h
  obtain ⟨_, mid, hw, hrest⟩ := Build.bind_eq_ok hbind
  exact ⟨mid, hw, hrest⟩

theorem here_of_write {w : FileWrite} (h : Build.write w ws = (.ok (), ws')) : ws'.here = ws.here := by
  rcases Build.write_cases w ws with ⟨_, _, _, hfail, -⟩ | ⟨_, hdone, hhere, -⟩
  · exact nomatch hfail.symm.trans h
  · cases hdone.symm.trans h
    exact hhere

theorem here_of_writeAll {writes : List FileWrite} (h : Build.writeAll writes ws = (.ok (), ws')) :
    ws'.here = ws.here := by
  induction writes generalizing ws with
  | nil => cases h; rfl
  | cons w rest ih =>
    obtain ⟨mid, hw, hrest⟩ := writeAll_cons_eq_ok h
    exact (ih hrest).trans (here_of_write hw)

/-- What a file holds after some writes, if it holds a text before them. -/
def textAfter (ws : Workspace) (p : Path) (text : String) (writes : List FileWrite) : String :=
  writes.foldl (fun text w => if ws.location w.path = ws.location p then w.content else text) text

theorem textAfter_congr (hhere : ws'.here = ws.here) (p : Path) (text : String) (writes : List FileWrite) :
    ws'.textAfter p text writes = ws.textAfter p text writes := by
  simp only [textAfter, location_congr hhere]

/-- A write replaces the text of a file exactly if it goes to the location of the file. -/
theorem Holds.write {w : FileWrite} (h : ws.Holds p text) (hw : Build.write w ws = (.ok (), ws')) :
    ws'.Holds p (if ws.location w.path = ws.location p then w.content else text) := by
  have hgrown := grown_write w ws
  have hhere := here_of_write hw
  rw [hw] at hgrown
  split
  · next hsame =>
    have hnode : ws'.tree.at? (ws.location p) = some (.ofText w.content) := by
      have hwritten := (holds_of_write hw).node
      rwa [location_congr hhere, hsame] at hwritten
    refine ⟨h.fault, ?_, ?_⟩
    · rw [location_congr hhere]
      exact h.trace_grown hgrown hhere (by rw [hnode]; rfl)
    · rw [location_congr hhere, hnode]
  · next hother => exact h.grown hgrown hhere fun htouched => hother htouched.2

/-- A file that is there goes on to be, with the text of the last write to its location. -/
theorem Holds.writeAll_textAfter {writes : List FileWrite} (h : ws.Holds p text)
    (hwrites : Build.writeAll writes ws = (.ok (), ws')) : ws'.Holds p (ws.textAfter p text writes) := by
  induction writes generalizing ws text with
  | nil => cases hwrites; exact h
  | cons w rest ih =>
    obtain ⟨mid, hw, hrest⟩ := writeAll_cons_eq_ok hwrites
    have hlater := ih (h.write hw) hrest
    rwa [textAfter_congr (here_of_write hw)] at hlater

theorem textAfter_of_other {writes : List FileWrite} (h : ∀ w ∈ writes, ws.location w.path ≠ ws.location p) :
    ws.textAfter p text writes = text := by
  induction writes with
  | nil => rfl
  | cons w rest ih =>
    obtain ⟨hw, hrest⟩ := List.forall_mem_cons.mp h
    rw [textAfter, List.foldl_cons, if_neg hw]
    exact ih hrest

/-- What a file holds is not changed by writes to other locations. -/
theorem Holds.writeAll {writes : List FileWrite} (h : ws.Holds p text)
    (hwrites : Build.writeAll writes ws = (.ok (), ws'))
    (hother : ∀ w ∈ writes, ws.location w.path ≠ ws.location p) : ws'.Holds p text := by
  have hlater := h.writeAll_textAfter hwrites
  rwa [textAfter_of_other hother] at hlater

/-- Of some writes, the last one to a location counts. -/
theorem holds_of_writeAll {before after : List FileWrite} {w : FileWrite}
    (h : Build.writeAll (before ++ w :: after) ws = (.ok (), ws'))
    (hlast : ∀ w' ∈ after, ws.location w'.path ≠ ws.location w.path) : ws'.Holds w.path w.content := by
  induction before generalizing ws with
  | nil =>
    obtain ⟨mid, hw, hafter⟩ := writeAll_cons_eq_ok h
    refine (holds_of_write hw).writeAll hafter fun w' hw' => ?_
    rw [location_congr (here_of_write hw), location_congr (here_of_write hw)]
    exact hlast w' hw'
  | cons first rest ih =>
    obtain ⟨mid, hfirst, hrest⟩ := writeAll_cons_eq_ok h
    refine ih hrest fun w' hw' => ?_
    rw [location_congr (here_of_write hfirst), location_congr (here_of_write hfirst)]
    exact hlast w' hw'

/-! ## Files that can be written -/

/-- The path leads to a name in a directory that is there, and not to a directory. -/
structure HasPlace (ws : Workspace) (p : Path) : Prop where
  fault : p.fault? = none
  parent : ∃ dir location, p.parent? = some dir ∧ dir.fault? = none ∧ ws.trace dir = .ok location ∧
    isDirAt ws.tree location = true
  place : ∃ init name location, pieces p = init ++ [name] ∧ name.size ≤ longestName ∧
    init.foldlM (follow ws.tree) (ws.start p) = .ok location ∧ isDirAt ws.tree location = true ∧
    isDirAt ws.tree (target location name) = false

/-- No directory has to be made where they are all there. -/
theorem makeDirsAt_of_foldlM {t : FileTree} {names location last : List FileName}
    (h : names.foldlM (follow t) location = .ok last) (hlast : isDirAt t last = true) :
    makeDirsAt t location names = (.ok (), t) := by
  induction names generalizing location with
  | nil =>
    cases h
    rw [makeDirsAt, if_pos hlast]
  | cons piece rest ih =>
    obtain ⟨next, hnext, hrest⟩ := Except.foldlM_cons_eq_ok_iff.mp h
    rw [makeDirsAt, hnext]
    exact ih hrest

theorem HasPlace.fileLocation (h : ws.HasPlace p) : ws.fileLocation p = .ok (ws.location p) := by
  obtain ⟨init, name, parent, hpieces, hshort, hparent, hdir, hnot⟩ := h.place
  have hlocation : ws.location p = target parent name := by
    rw [location, hpieces, List.foldl_append, ← foldlM_follow_eq_ok hparent]
    rfl
  have hinit : (pieces p).dropLast.foldlM (follow ws.tree) (ws.start p) = .ok parent := by
    rwa [hpieces, List.dropLast_concat]
  have hname : (pieces p).getLast? = some name := by rw [hpieces, List.getLast?_concat]
  rw [hlocation]
  cases hnode : (ws.tree.at? (target parent name)).isSome with
  | true =>
    have hfollow : follow ws.tree parent name = .ok (target parent name) := by
      rw [follow, hdir, hnode]
      rfl
    exact fileLocation_of_ok parent h.fault hinit hname hfollow hnot
  | false =>
    have hfollow : follow ws.tree parent name = .error .notFound := by
      rw [follow, hdir, hnode, if_neg (by simp), if_neg (by simp), if_neg (Nat.not_lt.mpr hshort)]
    exact fileLocation_of_notFound parent h.fault hinit hname hfollow

/-- Where there is a place for a file, it is written there and nothing else changes. -/
theorem HasPlace.write {w : FileWrite} (h : ws.HasPlace w.path) : Build.write w ws =
    (.ok (), { ws with tree := ws.tree.put (ws.location w.path) (.ofText w.content), log := ws.log ++ [w] }) := by
  obtain ⟨dir, location, hparent, hfault, htrace, hdir⟩ := h.parent
  have hdirs : ws.makeDirs dir = (.ok (), ws) := by
    rw [makeDirs, hfault, makeDirsAt_of_foldlM htrace hdir]
  exact write_eq_ok hparent hdirs h.fileLocation

/-- A write leaves the places of other files. -/
theorem HasPlace.after {w : FileWrite} (h : ws.HasPlace p) (hw : ws.HasPlace w.path)
    (hwrite : Build.write w ws = (.ok (), ws')) : ws'.HasPlace p := by
  have hgrown := grown_write w ws
  have hhere := here_of_write hwrite
  rw [hwrite] at hgrown
  obtain ⟨dir, location, hparent, hfault, htrace, hdir⟩ := h.parent
  obtain ⟨init, name, parent, hpieces, hshort, hinit, hdir', hnot⟩ := h.place
  refine ⟨h.fault, ⟨dir, location, hparent, hfault, trace_grown hgrown hhere htrace hdir, hgrown.isDirAt _ hdir⟩,
    init, name, parent, hpieces, hshort, ?_, hgrown.isDirAt _ hdir', ?_⟩
  · rw [start, hhere]
    exact (foldlM_follow_grown hgrown hinit hdir').2
  · have htree : ws'.tree = ws.tree.put (ws.location w.path) (.ofText w.content) :=
      congrArg (fun r => r.2.tree) (hwrite.symm.trans hw.write)
    obtain ⟨-, above, last, hlast, -, habove, hfile⟩ := fileLocation_eq_ok hw.fileLocation
    rw [hlast] at hfile
    rwa [htree, hlast, FileTree.ofText, isDirAt_putFile habove hfile]

/-- Files that have their places can be written one after the other. -/
theorem exists_writeAll_eq_ok {writes : List FileWrite} (h : ∀ w ∈ writes, ws.HasPlace w.path) :
    ∃ ws', Build.writeAll writes ws = (.ok (), ws') := by
  induction writes generalizing ws with
  | nil => exact ⟨ws, rfl⟩
  | cons w rest ih =>
    obtain ⟨hw, hrest⟩ := List.forall_mem_cons.mp h
    obtain ⟨ws', hlater⟩ := ih fun w' hw' => (hrest w' hw').after hw hw.write
    refine ⟨ws', ?_⟩
    show (Build.write w >>= fun _ => Build.writeAll rest) ws = _
    rw [Build.bind_apply, hw.write]
    exact hlater

end Workspace

end DocModel
