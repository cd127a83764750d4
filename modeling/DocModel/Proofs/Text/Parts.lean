import DocModel.Text.Split

/-!
# Parts of texts

A text is split at every occurrence of a character, or something is dropped from one of its ends.

* `split_append`, `split_append_of_not_mem`: the pieces of a joined text.
* `dropFront?_eq_some_iff`, `dropBack?_eq_some_iff`: what is left of a text.
* `isDigit_of_mem_toString`: numbers are written in digits.
-/

namespace DocModel

namespace Text

/-! ## Pieces -/

theorem splitChars_append (sep : Char) (a b : List Char) :
    splitChars sep (a ++ sep :: b) = splitChars sep a ++ splitChars sep b := by
  induction a with
  | nil => simp [splitChars]
  | cons c cs ih =>
    rw [List.cons_append, splitChars, splitChars, ih]
    split
    · rfl
    · cases hs : splitChars sep cs with
      | nil => exact absurd hs (splitChars_ne_nil sep cs)
      | cons piece rest => rfl

theorem splitChars_of_not_mem {sep : Char} {cs : List Char} (h : sep ∉ cs) :
    splitChars sep cs = [cs] := by
  induction cs with
  | nil => rfl
  | cons c cs ih =>
    obtain ⟨hc, hcs⟩ := not_or.mp (mt List.mem_cons.mpr h)
    rw [splitChars, if_neg (Ne.symm hc), ih hcs]

/-- What is added at the end without a separator goes to the last piece. -/
theorem splitChars_append_of_not_mem {sep : Char} {b : List Char} (hb : sep ∉ b) (a : List Char) :
    ∃ front last, splitChars sep a = front ++ [last] ∧ splitChars sep (a ++ b) = front ++ [last ++ b] := by
  induction a with
  | nil => exact ⟨[], [], rfl, splitChars_of_not_mem hb⟩
  | cons c cs ih =>
    obtain ⟨front, last, hcs, happend⟩ := ih
    rw [List.cons_append, splitChars, splitChars, hcs, happend]
    by_cases hc : c = sep
    · exact ⟨[] :: front, last, by simp [hc], by simp [hc]⟩
    · cases front with
      | nil => exact ⟨[], c :: last, by simp [hc], by simp [hc]⟩
      | cons piece rest => exact ⟨(c :: piece) :: rest, last, by simp [hc], by simp [hc]⟩

theorem split_ne_nil (sep : Char) (s : String) : split sep s ≠ [] := by
  rw [split, ne_eq, List.map_eq_nil_iff]
  exact splitChars_ne_nil sep s.toList

theorem split_append (a b : String) (sep : Char) :
    split sep (a ++ String.singleton sep ++ b) = split sep a ++ split sep b := by
  rw [split, String.toList_append, String.toList_append, String.toList_singleton, List.append_assoc,
    List.singleton_append, splitChars_append, List.map_append, split, split]

theorem split_of_not_mem {s : String} {sep : Char} (h : sep ∉ s.toList) : split sep s = [s] := by
  rw [split, splitChars_of_not_mem h, List.map_singleton, String.ofList_toList]

/-- What is added at the end without a separator goes to the last piece. -/
theorem split_append_of_not_mem {b : String} {sep : Char} (hb : sep ∉ b.toList) (a : String) :
    ∃ front last, split sep a = front ++ [last] ∧ split sep (a ++ b) = front ++ [last ++ b] := by
  obtain ⟨front, last, ha, hab⟩ := splitChars_append_of_not_mem hb a.toList
  refine ⟨front.map String.ofList, String.ofList last, ?_, ?_⟩
  · rw [split, ha, List.map_append, List.map_singleton]
  · rw [split, String.toList_append, hab, List.map_append, List.map_singleton, String.ofList_append,
      String.ofList_toList]

/-! ## Ends -/

theorem dropFront?_eq_some_iff {front s t : String} : dropFront? front s = some t ↔ s = front ++ t := by
  rw [dropFront?, ← String.toList_inj, String.toList_append]
  constructor
  · intro h
    split at h
    · next hopens =>
      obtain ⟨rest, hrest⟩ := List.isPrefixOf_iff_prefix.mp hopens
      rw [← Option.some.inj h, String.toList_ofList, ← hrest, List.drop_left]
    · cases h
  · intro h
    rw [h, if_pos (List.isPrefixOf_iff_prefix.mpr (List.prefix_append _ _)), List.drop_left, String.ofList_toList]

theorem dropBack?_eq_some_iff {back s t : String} : dropBack? back s = some t ↔ s = t ++ back := by
  rw [dropBack?, ← String.toList_inj, String.toList_append]
  constructor
  · intro h
    split at h
    · next hends =>
      obtain ⟨rest, hrest⟩ := List.isSuffixOf_iff_suffix.mp hends
      rw [← Option.some.inj h, String.toList_ofList, ← hrest, List.length_append, Nat.add_sub_cancel, List.take_left]
    · cases h
  · intro h
    rw [h, if_pos (List.isSuffixOf_iff_suffix.mpr (List.suffix_append _ _)), List.length_append, Nat.add_sub_cancel,
      List.take_left, String.ofList_toList]

/-- One text opens another one. -/
def Opens (front s : String) : Prop := front.toList <+: s.toList

/-- One text ends another one. -/
def Ends (back s : String) : Prop := back.toList <:+ s.toList

instance (front s : String) : Decidable (Opens front s) := inferInstanceAs (Decidable (_ <+: _))

instance (back s : String) : Decidable (Ends back s) := inferInstanceAs (Decidable (_ <:+ _))

theorem dropFront?_eq_none_iff {front s : String} : dropFront? front s = none ↔ ¬ Opens front s := by
  rw [dropFront?, Opens, ← List.isPrefixOf_iff_prefix]
  split <;> simp_all

theorem dropBack?_eq_none_iff {back s : String} : dropBack? back s = none ↔ ¬ Ends back s := by
  rw [dropBack?, Ends, ← List.isSuffixOf_iff_suffix]
  split <;> simp_all

/-! ## Numbers -/

theorem isDigit_of_mem_toString {c : Char} {n : Nat} (h : c ∈ (toString n).toList) : c.isDigit = true := by
  have hdigits : (toString n).toList = Nat.toDigits 10 n := by
    show (Nat.repr n).toList = _
    rw [Nat.repr_eq_ofList_toDigits, String.toList_ofList]
  rw [hdigits] at h
  exact Nat.isDigit_of_mem_toDigits (by decide) (by decide) h

end Text

end DocModel
