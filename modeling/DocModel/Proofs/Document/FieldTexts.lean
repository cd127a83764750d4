import Mathlib
import DocModel.Proofs.Document.Fields
import DocModel.Proofs.Workspace.Location
import DocModel.Schema.Undeclared

/-!
# Texts of field paths

As a text, the keys of a path have a dot between them, and indices stand in brackets. A key with a dot or an
opening bracket in it, or an empty one, can be mistaken for something else; all other paths are read back.

* `readSegment_index`, `readSegment_key`: what is between two dots.
* `ofText?_text`: a path is read back from its text.
* `textFrom_inj`: different paths have different texts, wherever they start.
-/

namespace DocModel

namespace FieldPath

/-- The text of a step, after the text of those before it. -/
def stepText (path : String) : FieldStep → String
  | .member key => Undeclared.memberPath path key
  | .item index => Undeclared.itemPath path index

/-- The text of a path that goes on from a text. -/
def textFrom (start : String) (p : FieldPath) : String := p.foldl stepText start

def text (p : FieldPath) : String := textFrom "" p

theorem textFrom_text (p q : FieldPath) : textFrom p.text q = text (p ++ q) := by
  rw [text, textFrom, textFrom, text, textFrom, List.foldl_append]

theorem text_concat (p : FieldPath) (step : FieldStep) : text (p ++ [step]) = stepText p.text step := by
  rw [← textFrom_text]
  rfl

/-- A key that is no part of a text but for itself. -/
def isReadable (key : String) : Bool := key ≠ "" && !key.toList.contains '.' && !key.toList.contains '['

/-- A path with readable keys. -/
def HasReadableKeys (p : FieldPath) : Prop := ∀ key, .member key ∈ p → isReadable key = true

theorem isReadable_iff {key : String} :
    isReadable key = true ↔ key ≠ "" ∧ '.' ∉ key.toList ∧ '[' ∉ key.toList := by
  simp [isReadable, and_assoc]

/-- Reads what comes after an opening bracket. -/
def readIndex (s : String) : Option FieldStep :=
  ((Text.dropBack? "]" s).bind String.toNat?).map .item

/-- Reads what comes between two dots: a key, if there is one, and indices. -/
def readSegment (s : String) : Option FieldPath :=
  match Text.split '[' s with
  | [] => none
  | key :: indices =>
    (indices.mapM readIndex).map fun items => (if key = "" then [] else [.member key]) ++ items

/-- Reads a path back from its text. -/
def ofText? (s : String) : Option FieldPath := ((Text.split '.' s).mapM readSegment).map List.flatten

/-! ## Reading back -/

theorem readIndex_append (index : Nat) : readIndex (toString index ++ "]") = some (.item index) := by
  have hnumber : (toString index).toNat? = some index := Nat.toNat?_repr index
  rw [readIndex, Text.dropBack?_eq_some_iff.mpr rfl, Option.bind_some, hnumber]
  rfl

theorem not_mem_toString {c : Char} (hc : c.isDigit = false) (index : Nat) : c ∉ (toString index).toList := by
  intro h
  rw [Text.isDigit_of_mem_toString h] at hc
  cases hc

theorem mapM_concat {α β : Type} (f : α → Option β) (xs : List α) (x : α) :
    (xs ++ [x]).mapM f = (xs.mapM f).bind fun ys => (f x).map fun y => ys ++ [y] := by
  rw [List.mapM_append]
  cases xs.mapM f with
  | none => rfl
  | some ys => cases h : f x <;> simp [h]

/-- An index is read after whatever comes before it. -/
theorem readSegment_index (s : String) (index : Nat) :
    readSegment (s ++ ("[" ++ toString index ++ "]")) = (readSegment s).map (· ++ [.item index]) := by
  have hclose : '[' ∉ (toString index ++ "]").toList := by
    rw [String.toList_append, List.mem_append, not_or]
    exact ⟨not_mem_toString rfl index, by decide⟩
  have hsplit : Text.split '[' (s ++ ("[" ++ toString index ++ "]")) =
      Text.split '[' s ++ [toString index ++ "]"] := by
    rw [← Text.split_of_not_mem hclose, ← Text.split_append, String.append_assoc, String.append_assoc]
    rfl
  obtain ⟨key, indices, hcons⟩ := List.exists_cons_of_ne_nil (Text.split_ne_nil '[' s)
  rw [readSegment, readSegment, hsplit, hcons, List.cons_append]
  dsimp only
  rw [mapM_concat, readIndex_append]
  cases indices.mapM readIndex with
  | none => rfl
  | some items => simp

theorem readSegment_key {key : String} (h : isReadable key = true) :
    readSegment key = some [.member key] := by
  obtain ⟨hne, -, hbracket⟩ := isReadable_iff.mp h
  rw [readSegment, Text.split_of_not_mem hbracket]
  simp [hne]

theorem stepText_item (path : String) (index : Nat) :
    stepText path (.item index) = path ++ ("[" ++ toString index ++ "]") := by
  simp only [stepText, Undeclared.itemPath, String.append_assoc]

theorem stepText_ne_empty {path : String} {step : FieldStep}
    (h : ∀ key, step = .member key → isReadable key = true) : stepText path step ≠ "" := by
  cases step with
  | member key =>
    have hkey := (isReadable_iff.mp (h key rfl)).1
    rw [stepText, Undeclared.memberPath]
    split
    · exact hkey
    · exact fun heq => hkey (String.append_eq_empty_iff.mp heq).2
  | item index =>
    intro heq
    rw [stepText, Undeclared.itemPath] at heq
    exact absurd (String.append_eq_empty_iff.mp heq).2 (by decide)

theorem text_eq_empty_iff {p : FieldPath} (h : HasReadableKeys p) : p.text = "" ↔ p = [] := by
  refine ⟨fun heq => ?_, fun heq => heq ▸ rfl⟩
  rcases List.eq_nil_or_concat p with hnil | ⟨init, step, rfl⟩
  · exact hnil
  · rw [List.concat_eq_append, text_concat] at heq
    exact absurd heq (stepText_ne_empty fun key hkey => h key (by simp [hkey]))

/-- A path is read back from its text. -/
theorem ofText?_text {p : FieldPath} (h : HasReadableKeys p) : ofText? p.text = some p := by
  -- Step by step from the end: a key opens a segment of its own, an index goes to the last one.
  induction p using List.reverseRecOn with
  | nil => rfl
  | append_singleton init step ih =>
    have hinit : HasReadableKeys init := fun key hkey => h key (List.mem_append_left _ hkey)
    obtain ⟨segments, hread, hflatten⟩ := Option.map_eq_some_iff.mp (ih hinit)
    rw [text_concat]
    cases step with
    | member key =>
      have hkey := h key (by simp)
      have hdot := (isReadable_iff.mp hkey).2.1
      rw [stepText, Undeclared.memberPath]
      split
      · next hempty =>
        obtain rfl := (text_eq_empty_iff hinit).mp hempty
        rw [ofText?, Text.split_of_not_mem hdot]
        simp [readSegment_key hkey]
      · have hsplit : Text.split '.' (text init ++ "." ++ key) = Text.split '.' (text init) ++ [key] := by
          rw [← Text.split_of_not_mem hdot]
          exact Text.split_append _ _ _
        rw [ofText?, hsplit, mapM_concat, hread, readSegment_key hkey]
        simp [hflatten]
    | item index =>
      have hdot : '.' ∉ ("[" ++ toString index ++ "]").toList := by
        rw [String.toList_append, String.toList_append]
        simp only [List.mem_append, not_or]
        exact ⟨⟨by decide, not_mem_toString rfl index⟩, by decide⟩
      obtain ⟨front, last, hsplit, happend⟩ := Text.split_append_of_not_mem hdot (text init)
      rw [hsplit, mapM_concat] at hread
      rw [stepText_item, ofText?, happend, mapM_concat, readSegment_index]
      cases hfront : front.mapM readSegment with
      | none => rw [hfront] at hread; cases hread
      | some before =>
        rw [hfront, Option.bind_some] at hread
        obtain ⟨segment, hsegment, rfl⟩ := Option.map_eq_some_iff.mp hread
        rw [List.flatten_concat] at hflatten
        simp [hsegment, ← hflatten]

/-- After a text that is not empty, a path goes on in its own way. -/
theorem exists_textFrom_eq (p : FieldPath) :
    ∃ rest, ∀ start, start ≠ "" → textFrom start p = start ++ rest := by
  induction p with
  | nil => exact ⟨"", fun start _ => String.append_empty.symm⟩
  | cons step p ih =>
    obtain ⟨rest, hrest⟩ := ih
    have hstep : ∃ own, own ≠ "" ∧ ∀ start, start ≠ "" → stepText start step = start ++ own := by
      cases step with
      | member key =>
        refine ⟨"." ++ key, fun h => absurd (String.append_eq_empty_iff.mp h).1 (by decide), fun start hne => ?_⟩
        rw [stepText, Undeclared.memberPath, if_neg hne, String.append_assoc]
      | item index =>
        exact ⟨"[" ++ toString index ++ "]", fun h => absurd (String.append_eq_empty_iff.mp h).2 (by decide),
          fun start _ => stepText_item start index⟩
    obtain ⟨own, howne, hown⟩ := hstep
    refine ⟨own ++ rest, fun start hne => ?_⟩
    show textFrom (stepText start step) p = _
    rw [hown start hne, hrest _ fun h => hne (String.append_eq_empty_iff.mp h).1, String.append_assoc]

/-- Paths with readable keys that go on from one text are known from their texts. -/
theorem textFrom_inj {p q : FieldPath} (hp : HasReadableKeys p) (hq : HasReadableKeys q) {start : String}
    (h : textFrom start p = textFrom start q) : p = q := by
  by_cases hstart : start = ""
  · subst hstart
    exact Option.some.inj ((ofText?_text hp).symm.trans ((congrArg ofText? h).trans (ofText?_text hq)))
  · -- What comes after the start comes after the text of an index too, and can be read there.
    obtain ⟨rest, hrest⟩ := exists_textFrom_eq p
    obtain ⟨rest', hrest'⟩ := exists_textFrom_eq q
    rw [hrest start hstart, hrest' start hstart] at h
    have htail : rest = rest' := String.append_right_inj start |>.mp h
    have hindex : ∀ {p : FieldPath}, HasReadableKeys p → HasReadableKeys (.item 0 :: p) :=
      fun hp key hkey => hp key (by simpa using hkey)
    have htext : text (.item 0 :: p) = text (.item 0 :: q) := by
      have hne : stepText "" (.item 0) ≠ "" := by decide
      show textFrom (stepText "" (.item 0)) p = textFrom (stepText "" (.item 0)) q
      rw [hrest _ hne, hrest' _ hne, htail]
    have heq := (ofText?_text (hindex hp)).symm.trans ((congrArg ofText? htext).trans (ofText?_text (hindex hq)))
    exact (List.cons.inj (Option.some.inj heq)).2

end FieldPath

namespace Value

/-- All keys in a value are readable. -/
def hasReadableKeys (v : Value) : Bool := v.everyMap fun entries => (Dict.keys entries).all FieldPath.isReadable

/-- The paths in a value with readable keys have readable keys. -/
theorem hasReadableKeys_of_mem_fieldPaths {v : Value} (h : v.hasReadableKeys = true) {p : FieldPath}
    (hp : p ∈ v.fieldPaths) : p.HasReadableKeys := by
  induction v using induction generalizing p with
  | scalar v hl hm => rw [fieldPaths_scalar hl hm] at hp; cases hp
  | list items ih =>
    obtain ⟨index, x, rest, hget, hrest, rfl⟩ := mem_fieldPaths_list_iff.mp hp
    have hmem := List.mem_of_getElem? hget
    intro key hkey
    exact ih x hmem (everyMap_list_iff.mp h x hmem) hrest key (by simpa using hkey)
  | map entries ih =>
    obtain ⟨hkeys, hentries⟩ := everyMap_map_iff.mp h
    obtain ⟨own, x, rest, hmem, hrest, rfl⟩ := mem_fieldPaths_map_iff.mp hp
    intro key hkey
    rcases List.mem_cons.mp hkey with hkey | hkey
    · obtain rfl := FieldStep.member.inj hkey
      exact List.all_eq_true.mp hkeys _ (List.mem_map_of_mem hmem)
    · rcases hrest with rfl | hrest
      · cases hkey
      · exact ih (own, x) hmem (hentries _ hmem) hrest key hkey

end Value

end DocModel
