import DocModel.Text.Utf8
import Mathlib.Data.String.Basic
import Mathlib.Tactic.SplitIfs

/-!
# The byte order of texts

Texts come in the order of their characters. The UTF-8 form of characters keeps that order, and the form of
one character is no beginning of the form of another, so this is the order of the bytes of the texts.

* `encode_append_lt`: the forms of two characters decide, whatever follows them.
* `lt_iff_bytes_lt`: one text comes before another if and only if its bytes do.
* `head?_bytes_eq_dot_iff`: a text starts with a dot if and only if its bytes do.
* `ne_of_mem_bytes`: a byte that is in no form of a text.
-/

namespace DocModel

namespace Text

theorem bytes_eq_flatMap (s : String) : bytes s = s.toList.flatMap String.utf8EncodeChar := by
  have h : s.toUTF8 = (s.toList.flatMap String.utf8EncodeChar).toByteArray := by
    conv => lhs; rw [← String.ofList_toList (s := s)]
    rw [String.toUTF8_eq_toByteArray, String.toByteArray_ofList, List.utf8Encode]
  rw [bytes, h, List.data_toByteArray]

/-- Characters end before the form of five bytes would begin. -/
theorem toNat_val_lt (c : Char) : c.val.toNat < 1114112 := by
  have := c.valid
  rw [UInt32.isValidChar, Nat.isValidChar] at this
  omega

/-- The groups of six bits that the bytes of a form hold. -/
theorem sixBits (v : Nat) :
    v = 64 * (v / 64) + v % 64 ∧ v / 64 = 64 * (v / 4096) + v / 64 % 64 ∧
      v / 4096 = 64 * (v / 262144) + v / 4096 % 64 := by
  omega

theorem encode_append_lt {c d : Char} (h : c < d) (xs ys : List UInt8) :
    String.utf8EncodeChar c ++ xs < String.utf8EncodeChar d ++ ys := by
  have hval : c.val.toNat < d.val.toNat := h
  have hmax := toNat_val_lt d
  rw [String.utf8EncodeChar, String.utf8EncodeChar]
  generalize c.val.toNat = v at hval ⊢
  generalize d.val.toNat = w at hval hmax ⊢
  obtain ⟨hv, hv', hv''⟩ := sixBits v
  obtain ⟨hw, hw', hw''⟩ := sixBits w
  -- A greater character has no shorter form, and of forms of two lengths the first bytes differ.
  split_ifs <;>
    simp (disch := omega) only [List.cons_append, List.nil_append, List.cons_lt_cons_iff,
      UInt8.lt_iff_toNat_lt, ← UInt8.toNat_inj, UInt8.toNat_ofNat', Nat.mod_eq_of_lt] <;>
    omega

theorem bytes_lt_of_lt {s t : String} (h : s < t) : bytes s < bytes t := by
  rw [bytes_eq_flatMap, bytes_eq_flatMap]
  have hlist : s.toList < t.toList := h
  generalize s.toList = cs at hlist
  generalize t.toList = ds at hlist
  induction cs generalizing ds with
  | nil =>
    cases ds with
    | nil => exact absurd hlist (List.lt_irrefl _)
    | cons d ds =>
      cases hd : String.utf8EncodeChar d with
      | nil => exact absurd hd String.utf8EncodeChar_ne_nil
      | cons b bs => simp [hd]
  | cons c cs ih =>
    cases ds with
    | nil => exact absurd hlist (List.not_lt_nil _)
    | cons d ds =>
      rw [List.flatMap_cons, List.flatMap_cons]
      rcases List.cons_lt_cons_iff.mp hlist with hlt | ⟨rfl, hlt⟩
      · exact encode_append_lt hlt _ _
      · exact List.append_left_lt (ih ds hlt)

/-- Texts come in the order of their bytes. -/
theorem lt_iff_bytes_lt {s t : String} : s < t ↔ bytes s < bytes t := by
  refine ⟨bytes_lt_of_lt, fun h => ?_⟩
  rcases Std.lt_trichotomy s t with hlt | rfl | hgt
  · exact hlt
  · exact absurd h (List.lt_irrefl _)
  · exact absurd (bytes_lt_of_lt hgt) (List.lt_asymm h)

/-! ## Single bytes -/

theorem head?_encode_eq_dot_iff {c : Char} : (String.utf8EncodeChar c).head? = some 0x2E ↔ c = '.' := by
  have hdot : c = '.' ↔ c.val.toNat = 0x2E := by
    rw [← Char.toNat_inj]
    rfl
  rw [hdot, String.utf8EncodeChar]
  have hmax := toNat_val_lt c
  generalize c.val.toNat = v at hmax ⊢
  split_ifs <;>
    simp (disch := omega) only [List.head?_cons, Option.some.injEq, ← UInt8.toNat_inj, UInt8.toNat_ofNat',
      UInt8.toNat_ofNat, Nat.mod_eq_of_lt] <;>
    omega

theorem head?_bytes_eq_dot_iff {s : String} : (bytes s).head? = some 0x2E ↔ s.toList.head? = some '.' := by
  rw [bytes_eq_flatMap]
  cases s.toList with
  | nil => simp
  | cons c cs =>
    cases hc : String.utf8EncodeChar c with
    | nil => exact absurd hc String.utf8EncodeChar_ne_nil
    | cons b bs =>
      rw [List.flatMap_cons, hc, List.cons_append, List.head?_cons, List.head?_cons, Option.some_inj (b := '.'),
        ← head?_encode_eq_dot_iff, hc, List.head?_cons]

/-- No form of a text has a byte with all bits set. -/
theorem ne_of_mem_bytes {s : String} {b : UInt8} (h : b ∈ bytes s) : b ≠ 0xFF := by
  rw [bytes_eq_flatMap, List.mem_flatMap] at h
  obtain ⟨c, -, hb⟩ := h
  rw [String.utf8EncodeChar] at hb
  have hmax := toNat_val_lt c
  generalize c.val.toNat = v at hb hmax
  rintro rfl
  split_ifs at hb <;>
    simp (disch := omega) only [List.mem_cons, List.not_mem_nil, or_false, ← UInt8.toNat_inj, UInt8.toNat_ofNat',
      UInt8.toNat_ofNat, Nat.mod_eq_of_lt] at hb <;>
    omega

end Text

end DocModel
