import Mathlib.Data.List.TakeWhile
import WorkspaceLink.Text.Blank

/-! The blanks in front of a text, and what is left of it without those at its ends. -/

namespace WorkspaceLink.Text

variable {blanks s : Text}

/-- How many blanks a text begins with. -/
def indentation (s : Text) : ℕ :=
  (s.takeWhile isBlank).length

theorem isBlank_of_mem_replicate {c : Char} {n : ℕ} (h : c ∈ List.replicate n ' ') :
    isBlank c = true := by
  rw [List.eq_of_mem_replicate h]
  decide

theorem dropWhile_isBlank (hs : ∀ c ∈ s, isBlank c = false) : s.dropWhile isBlank = s := by
  cases s with
  | nil => rfl
  | cons c s => exact List.dropWhile_cons_of_neg (by simp [hs c List.mem_cons_self])

theorem trim_append (hblanks : ∀ c ∈ blanks, isBlank c = true) (hs : ∀ c ∈ s, isBlank c = false) :
    (blanks ++ s).trim = s := by
  have hreverse : ∀ c ∈ s.reverse, isBlank c = false := fun c hc => hs c (List.mem_reverse.mp hc)
  rw [trim, List.dropWhile_append_of_pos hblanks, dropWhile_isBlank hs, trimEnd, dropEndWhile,
    dropWhile_isBlank hreverse, List.reverse_reverse]

theorem indentation_append (hblanks : ∀ c ∈ blanks, isBlank c = true)
    (hs : ∀ c ∈ s, isBlank c = false) : (blanks ++ s).indentation = blanks.length := by
  have hnone : s.takeWhile isBlank = [] := by
    cases s with
    | nil => rfl
    | cons c s => exact List.takeWhile_cons_of_neg (by simp [hs c List.mem_cons_self])
  rw [indentation, List.takeWhile_append_of_pos hblanks, hnone, List.append_nil]

end WorkspaceLink.Text
