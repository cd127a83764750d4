import DocModel.FileName
import DocModel.Proofs.Text.ByteOrder

/-!
# The order of file names

A name is known from its bytes, and names come in the order of their bytes.

* `bytes_injective`: two names with the same bytes are the same.
* `lt_iff_bytes_lt`: one name comes before another if and only if its bytes do.
* `lt_trichotomy`: the order of names is total.
-/

namespace DocModel

theorem Text.bytes_injective {s t : String} (h : bytes s = bytes t) : s = t :=
  String.toByteArray_inj.mp (ByteArray.ext (Array.toList_inj.mp h))

namespace FileName

variable {a b c : FileName}

theorem bytes_injective (h : a.bytes = b.bytes) : a = b := by
  cases a with
  | text s =>
    cases b with
    | text t => exact congrArg text (Text.bytes_injective h)
    | raw name => exact absurd h (name.not_text s)
  | raw name =>
    cases b with
    | text t => exact absurd h.symm (name.not_text t)
    | raw other =>
      obtain ⟨bytes, hname⟩ := name
      obtain ⟨bytes', hother⟩ := other
      obtain rfl : bytes = bytes' := h
      rfl

theorem lt_iff_bytes_lt : a < b ↔ a.bytes < b.bytes := by
  show a.before b = true ↔ _
  cases a with
  | text s =>
    cases b with
    | text t => exact decide_eq_true_iff.trans Text.lt_iff_bytes_lt
    | raw name => exact decide_eq_true_iff
  | raw name => exact decide_eq_true_iff

theorem lt_irrefl (a : FileName) : ¬ a < a := by
  rw [lt_iff_bytes_lt]
  exact List.lt_irrefl _

theorem lt_trans (hab : a < b) (hbc : b < c) : a < c := by
  rw [lt_iff_bytes_lt] at *
  exact List.lt_trans hab hbc

theorem lt_asymm (hab : a < b) : ¬ b < a := fun hba => lt_irrefl a (lt_trans hab hba)

theorem lt_trichotomy (a b : FileName) : a < b ∨ a = b ∨ b < a := by
  rw [lt_iff_bytes_lt, lt_iff_bytes_lt]
  rcases Std.lt_trichotomy a.bytes b.bytes with hlt | heq | hgt
  · exact .inl hlt
  · exact .inr (.inl (bytes_injective heq))
  · exact .inr (.inr hgt)

theorem not_lt_trans (hab : ¬ b < a) (hbc : ¬ c < b) : ¬ c < a := by
  intro hca
  rcases lt_trichotomy a b with hlt | rfl | hlt
  · exact hbc (lt_trans hca hlt)
  · exact hbc hca
  · exact hab hlt

end FileName

end DocModel
