import DocModel.Output.Location
import DocModel.Proofs.Text.Parts
import DocModel.Workspace

/-!
# Where paths lead

The location of a path is where its pieces lead, `.` and `..` followed on the text alone. A path is *inside*
a root if its location is that of the root or below it.

* `location_join`: the location of a joined path is reached from the location of its base.
* `inside_join`: pieces that are not `..` lead to no place outside.
* `inside_outputPath`: no filename of an output leads out of the build root.
-/

namespace DocModel

namespace Workspace

/-- The location that a path leads to, whatever is there. -/
def location (ws : Workspace) (p : Path) : List FileName := (pieces p).foldl target (ws.start p)

/-- The path leads to the location of the root, or below it. -/
def Inside (ws : Workspace) (root p : Path) : Prop := ws.location root <+: ws.location p

instance (ws : Workspace) (root p : Path) : Decidable (ws.Inside root p) :=
  inferInstanceAs (Decidable (_ <+: _))

/-! ## Joined paths -/

theorem text_mem_pieces {s : String} {p : Path} : .text s ∈ pieces p ↔ s ∈ Text.split '/' p.text :=
  List.mem_map.trans ⟨fun ⟨_, ht, heq⟩ => FileName.text.inj heq ▸ ht, fun hs => ⟨s, hs, rfl⟩⟩

theorem pieces_of_toList_eq {p q r : Path} (h : p.text.toList = q.text.toList ++ '/' :: r.text.toList) :
    pieces p = pieces q ++ pieces r := by
  rw [pieces, Text.split, h, Text.splitChars_append, List.map_append, List.map_append]
  rfl

theorem start_of_toList_eq (ws : Workspace) {p q : Path} {rest : List Char} (hq : q.text.toList ≠ [])
    (h : p.text.toList = q.text.toList ++ rest) : ws.start p = ws.start q := by
  have hhead : p.text.toList.head? = q.text.toList.head? := by
    obtain ⟨c, cs, hc⟩ := List.exists_cons_of_ne_nil hq
    rw [h, hc]
    rfl
  rw [start, start, Path.isAbsolute, Path.isAbsolute, hhead]

/-- The pieces of a joined path are those of its base, but for an empty one at the end, and then its own. -/
theorem pieces_join (ws : Workspace) (base : Path) {rel : Path} (h : rel.isAbsolute = false) :
    ∃ front, (pieces base = front ∨ pieces base = front ++ [.text ""]) ∧ pieces (base.join rel) = front ++ pieces rel ∧
      ws.start (base.join rel) = ws.start base := by
  rw [Path.join, h]
  rcases List.eq_nil_or_concat base.text.toList with hnil | ⟨init, c, hbase⟩
  · obtain ⟨text⟩ := base
    obtain rfl : text = "" := String.toList_eq_nil_iff.mp hnil
    refine ⟨[], .inr rfl, rfl, ?_⟩
    show ws.start rel = ws.start ⟨""⟩
    rw [start, h]
    rfl
  · have hlast : base.text.toList.getLast? = some c := by rw [hbase]; simp
    have hne : base.text.toList ≠ [] := by rw [hbase]; simp
    rw [hlast]
    by_cases hc : c = '/'
    · -- The base ends with a slash, so both go on from what comes before it.
      subst hc
      have hjoin : (base.text ++ rel.text).toList = init ++ '/' :: rel.text.toList := by
        rw [String.toList_append, hbase, List.concat_eq_append, List.append_assoc]
        rfl
      have hpieces : pieces ⟨base.text ++ rel.text⟩ = pieces ⟨String.ofList init⟩ ++ pieces rel :=
        pieces_of_toList_eq (by rw [String.toList_ofList]; exact hjoin)
      have hpieces' : pieces base = pieces ⟨String.ofList init⟩ ++ pieces ⟨""⟩ :=
        pieces_of_toList_eq (by rw [String.toList_ofList, hbase, List.concat_eq_append]; rfl)
      exact ⟨_, .inr hpieces', hpieces, start_of_toList_eq ws hne (String.toList_append ..)⟩
    · have hjoin : (base.text ++ "/" ++ rel.text).toList = base.text.toList ++ '/' :: rel.text.toList := by
        rw [String.toList_append, String.toList_append, List.append_assoc]
        rfl
      simp only [Bool.false_eq_true, if_false]
      exact ⟨_, .inl rfl, pieces_of_toList_eq hjoin, start_of_toList_eq ws hne hjoin⟩

/-- Joining goes on from where the base leads. -/
theorem location_join (ws : Workspace) (base : Path) {rel : Path} (h : rel.isAbsolute = false) :
    ws.location (base.join rel) = (pieces rel).foldl target (ws.location base) := by
  obtain ⟨front, hbase, hjoin, hstart⟩ := pieces_join ws base h
  have hfront : ws.location base = front.foldl target (ws.start base) := by
    rw [location]
    rcases hbase with hbase | hbase
    · rw [hbase]
    · rw [hbase, List.foldl_append]
      rfl
  rw [location, hjoin, hstart, List.foldl_append, hfront]

/-! ## Staying inside -/

/-- Pieces lead on if none of them is `..`. -/
theorem prefix_foldl_target {pieces : List FileName} (h : .text ".." ∉ pieces) (location : List FileName) :
    location <+: pieces.foldl target location := by
  induction pieces generalizing location with
  | nil => exact List.prefix_refl location
  | cons piece rest ih =>
    obtain ⟨hpiece, hrest⟩ := not_or.mp (mt List.mem_cons.mpr h)
    have hnext : location <+: target location piece := by
      rw [target, if_neg (Ne.symm hpiece)]
      split
      · exact List.prefix_refl location
      · exact List.prefix_append location [piece]
    exact hnext.trans (ih hrest _)

theorem inside_join (ws : Workspace) {root base rel : Path} (hb : ws.Inside root base)
    (hrel : rel.isAbsolute = false) (h : .text ".." ∉ pieces rel) : ws.Inside root (base.join rel) := by
  rw [Inside, location_join ws base hrel]
  exact List.IsPrefix.trans hb (prefix_foldl_target h _)

/-! ## Outputs -/

theorem not_parent_mem_of_spansFrom {pieces : List (List Char)} {first : Bool} {offset : Nat}
    (h : (Path.spansFrom first offset pieces).all (fun span => span.1.isName) = true) :
    ['.', '.'] ∉ pieces := by
  induction pieces generalizing first offset with
  | nil => simp
  | cons piece rest ih =>
    rw [Path.spansFrom] at h
    cases hs : Path.stepOf? first piece with
    | none =>
      rw [hs] at h
      have hne : ['.', '.'] ≠ piece := by rintro rfl; cases hs
      exact List.not_mem_cons_of_ne_of_not_mem hne (ih h)
    | some step =>
      rw [hs, List.all_cons, Bool.and_eq_true] at h
      have hne : ['.', '.'] ≠ piece := by
        rintro rfl
        cases hs
        exact Bool.false_ne_true h.1
      exact List.not_mem_cons_of_ne_of_not_mem hne (ih h.2)

/-- A path of ordinary names goes on from any base, and goes up nowhere. -/
theorem relative_of_steps {p : Path} (h : p.steps.all PathStep.isName = true) :
    p.isAbsolute = false ∧ .text ".." ∉ pieces p := by
  have hspans : p.spans.all (fun span => span.1.isName) = true := by
    rw [Path.steps, List.all_map] at h
    exact h
  rw [Path.spans] at hspans
  cases ha : p.isAbsolute with
  | true =>
    rw [ha] at hspans
    cases hspans
  | false =>
    rw [ha] at hspans
    refine ⟨rfl, fun hm => ?_⟩
    obtain ⟨s, hs, heq⟩ := List.mem_map.mp hm
    obtain ⟨piece, hpiece, rfl⟩ := List.mem_map.mp hs
    have heq := FileName.text.inj heq
    have hparent : piece = ['.', '.'] := by rw [← String.toList_ofList (l := piece), heq]; rfl
    exact not_parent_mem_of_spansFrom hspans (hparent ▸ hpiece)

/-- No filename leads out of the build root. -/
theorem inside_outputPath (ws : Workspace) {key filename : String} {root p : Path}
    (h : Output.outputPath key filename root = .ok p) : ws.Inside root p := by
  rw [Output.outputPath] at h
  split at h
  · cases h
  split at h
  · cases h
  -- The checks are the same with and without a leading slash.
  dsimp only at h
  split at h
  all_goals
    split at h
    · cases h
    split at h
    · cases h
    split at h
    · next hsteps =>
      cases h
      obtain ⟨hrel, hnames⟩ := relative_of_steps (Bool.and_eq_true_iff.mp hsteps).2
      exact inside_join ws (List.prefix_refl _) hrel hnames
    · cases h

end Workspace

end DocModel
