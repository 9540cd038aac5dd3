import Mathlib.Data.List.TakeWhile
import Mathlib.Data.Nat.Notation
import WorkspaceLink.Text.Decimal

/-! Decimal numerals tell their numbers, and consist of digits. The numeral of a larger number is no
shorter, so that a column fits all numbers if it fits the last. -/

namespace WorkspaceLink.Text

variable {c : Char} {m n width width' : ℕ}

theorem ofNat_inj : ofNat m = ofNat n ↔ m = n := by
  constructor
  · intro heq
    have hread := congrArg (Nat.ofDigitChars 10 · 0) heq
    rwa [ofNat, ofNat, Nat.ofDigitChars_ten_toDigits, Nat.ofDigitChars_ten_toDigits] at hread
  · rintro rfl
    rfl

theorem not_mem_ofNat (hc : c.isDigit = false) (n : ℕ) : c ∉ ofNat n := by
  intro hmem
  have hdigit := Nat.isDigit_of_mem_toDigits (by decide) (by decide) hmem
  rw [hc] at hdigit
  cases hdigit

theorem length_ofNat_le (h : m ≤ n) : (ofNat m).length ≤ (ofNat n).length := by
  have hpos : 0 < (ofNat n).length := Nat.length_toDigits_pos
  have hbound : n < 10 ^ (ofNat n).length :=
    (Nat.length_toDigits_le_iff (by decide) hpos).mp (Nat.le_refl _)
  exact (Nat.length_toDigits_le_iff (by decide) hpos).mpr (Nat.lt_of_le_of_lt h hbound)

/-! ### Numerals in a column -/

theorem padded_eq (width n : ℕ) :
    padded width n = List.replicate (width - (ofNat n).length) ' ' ++ ofNat n :=
  rfl

theorem not_mem_padded (hc : c.isDigit = false) (hblank : c ≠ ' ') (width n : ℕ) :
    c ∉ padded width n := by
  rw [padded_eq, List.mem_append, not_or]
  exact ⟨fun hmem => hblank (List.eq_of_mem_replicate hmem), not_mem_ofNat hc n⟩

/-- The number in a column can be read however wide the column is. -/
theorem eq_of_padded_eq (h : padded width m = padded width' n) : m = n := by
  have hread (width n : ℕ) : (padded width n).dropWhile (· == ' ') = ofNat n := by
    have hblanks : ∀ c ∈ List.replicate (width - (ofNat n).length) ' ', (c == ' ') = true :=
      fun c hc => beq_iff_eq.mpr (List.eq_of_mem_replicate hc)
    rw [padded_eq, List.dropWhile_append_of_pos hblanks, List.dropWhile_eq_self_iff]
    intro hpos hblank
    have hmem := List.getElem_mem hpos
    rw [beq_iff_eq.mp hblank] at hmem
    exact not_mem_ofNat (by decide) n hmem
  rw [← ofNat_inj, ← hread width m, ← hread width' n, h]

end WorkspaceLink.Text
