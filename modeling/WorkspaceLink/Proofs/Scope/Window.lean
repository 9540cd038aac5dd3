import Mathlib.Algebra.GroupWithZero.Nat
import Mathlib.Data.List.Chain
import WorkspaceLink.Scope.Window

/-! Which lines a window shows. Every line that is kept has one entry, under its number in the file,
and every highlighted line is kept. The marks between the entries stand for all other lines, so that
a window accounts for its whole text. -/

namespace WorkspaceLink

namespace RenderedLine

/-- Whether an entry is the line of a number. -/
def isNumbered (n : ℕ) : RenderedLine → Bool
  | .code _ m _ => m == n
  | .skipped _ => false

def isMark : RenderedLine → Bool
  | .code _ _ _ => false
  | .skipped _ => true

/-- What an entry says of each line that it stands for: the line itself, or nothing. -/
def expanded : RenderedLine → List (Option RenderedLine)
  | .code text number highlighted => [some (.code text number highlighted)]
  | .skipped n => List.replicate n none

theorem length_expanded (entry : RenderedLine) : entry.expanded.length = entry.sourceLines := by
  cases entry with
  | code => rfl
  | skipped n => exact List.length_replicate

end RenderedLine

namespace Window

variable {keep highlighted : ℕ → Bool} {firstLine i j n dropped : ℕ} {ls : List Text} {l text : Text}
  {marked : Bool} {settings : RenderSettings} {highlights : List ℕ}

theorem code_not_mem_marks : .code l n marked ∉ marks dropped := by
  rw [marks]
  split <;> simp

theorem filter_marks : (marks dropped).filter (RenderedLine.isNumbered n) = [] := by
  rw [marks]
  split <;> rfl

theorem mem_entries_iff : .code l n marked ∈ entries keep highlighted firstLine i dropped ls ↔
    ∃ j, ls[j]? = some l ∧ keep (i + j) = true ∧ n = min (firstLine + (i + j)) lastCoord ∧
      marked = highlighted (i + j) := by
  induction ls generalizing i dropped with
  | nil => simp [entries, code_not_mem_marks]
  | cons first ls ih =>
    -- an entry for the first line, or one of the entries for those after it
    rw [← Nat.or_exists_add_one, entries]
    have hnext (j : ℕ) : i + 1 + j = i + (j + 1) := by omega
    split
    · next hkeep =>
      rw [List.mem_append, List.mem_cons, ih, or_iff_right code_not_mem_marks]
      simp [hkeep, hnext, eq_comm (a := first)]
    · next hkeep => simp [ih, hkeep, hnext]

/-- A line that is kept has one entry, as long as numbers do not reach the last coordinate. -/
theorem filter_entries (hl : ls[j]? = some l) (hkeep : keep (i + j) = true)
    (hn : firstLine + (i + j) < lastCoord) :
    (entries keep highlighted firstLine i dropped ls).filter
      (RenderedLine.isNumbered (firstLine + (i + j))) =
        [.code l (firstLine + (i + j)) (highlighted (i + j))] := by
  induction ls generalizing i j dropped with
  | nil => cases hl
  | cons first ls ih =>
    rw [entries]
    cases j with
    | zero =>
      obtain rfl : first = l := Option.some.inj hl
      -- the entries after it have higher numbers
      have hlater : (entries keep highlighted firstLine (i + 1) 0 ls).filter
          (RenderedLine.isNumbered (firstLine + i)) = [] := by
        refine List.filter_eq_nil_iff.mpr fun entry hentry hnumber => ?_
        cases entry with
        | skipped count => cases hnumber
        | code l m marked =>
          obtain ⟨k, -, -, hm, -⟩ := mem_entries_iff.mp hentry
          have hmn : m = firstLine + i := beq_iff_eq.mp hnumber
          omega
      have hmin : min (firstLine + i) lastCoord = firstLine + i := Nat.min_eq_left (by omega)
      rw [Nat.add_zero] at hkeep ⊢
      rw [if_pos hkeep, List.filter_append, filter_marks, hmin, List.filter_cons_of_pos, hlater]
      · rfl
      · exact beq_self_eq_true (firstLine + i)
    | succ j =>
      have hnext : i + (j + 1) = i + 1 + j := by omega
      rw [hnext] at hkeep hn ⊢
      have hrest (dropped : ℕ) : (entries keep highlighted firstLine (i + 1) dropped ls).filter
          (RenderedLine.isNumbered (firstLine + (i + 1 + j))) =
            [.code l (firstLine + (i + 1 + j)) (highlighted (i + 1 + j))] := ih hl hkeep hn
      -- the entry of the first line, if it has one, has a lower number
      split
      · have hother : min (firstLine + i) lastCoord ≠ firstLine + (i + 1 + j) := by omega
        rw [List.filter_append, filter_marks, List.filter_cons_of_neg, hrest]
        · rfl
        · exact fun hnumber => hother (beq_iff_eq.mp hnumber)
      · exact hrest _

/-- However short the head, the tail and the context are, a highlighted line is kept. -/
theorem keeps_of_mem (hmem : i ∈ highlights) (hlt : i < n) : keeps settings n highlights i = true := by
  have hnear : highlights.any (fun h => decide (h < n) && decide (h - settings.contextLines ≤ i) &&
      decide (i ≤ h + settings.contextLines)) = true := by
    refine List.any_eq_true.mpr ⟨i, hmem, ?_⟩
    simp [hlt]
  rw [keeps, hnear, Bool.or_true]

theorem mem_render_iff : .code l n marked ∈ render settings text firstLine highlights ↔
    ∃ j, text.lines[j]? = some l ∧ keeps settings text.lines.length highlights j = true ∧
      n = min (firstLine + j) lastCoord ∧ marked = highlights.contains j := by
  rw [render, mem_entries_iff]
  simp only [Nat.zero_add]

/-- Every highlighted line of the text has one entry, which is highlighted. -/
theorem filter_render (hl : text.lines[j]? = some l) (hmem : j ∈ highlights)
    (hn : firstLine + j < lastCoord) :
    (render settings text firstLine highlights).filter (RenderedLine.isNumbered (firstLine + j)) =
      [.code l (firstLine + j) true] := by
  obtain ⟨hlt, -⟩ := List.getElem?_eq_some_iff.mp hl
  have hkeep : keeps settings text.lines.length highlights (0 + j) = true := by
    rw [Nat.zero_add]
    exact keeps_of_mem hmem hlt
  have hmark : highlights.contains (0 + j) = true := by
    rw [Nat.zero_add]
    exact List.contains_iff_mem.mpr hmem
  have hnumber : firstLine + j = firstLine + (0 + j) := by rw [Nat.zero_add]
  rw [render, ← hmark, hnumber]
  exact filter_entries hl hkeep (hnumber ▸ hn)

/-! ### The whole text -/

/-- Whether a line is to be kept: the text is short, the line is one of its first or of its last, or
it is near a highlighted line of the text. -/
def Kept (settings : RenderSettings) (total : ℕ) (highlights : List ℕ) (i : ℕ) : Prop :=
  total ≤ settings.maxLines ∨ i < settings.headLines ∨ (total : ℤ) - settings.tailLines ≤ i ∨
    ∃ h ∈ highlights, h < total ∧ ((i : ℤ) - h).natAbs ≤ settings.contextLines

theorem keeps_iff : keeps settings n highlights i = true ↔ Kept settings n highlights i := by
  have htail : n - settings.tailLines ≤ i ↔ (n : ℤ) - settings.tailLines ≤ i := by omega
  have hnear (h : ℕ) : h - settings.contextLines ≤ i ∧ i ≤ h + settings.contextLines ↔
      ((i : ℤ) - h).natAbs ≤ settings.contextLines := by
    omega
  simp only [keeps, Kept, Bool.or_eq_true, decide_eq_true_eq, List.any_eq_true, Bool.and_eq_true,
    htail, and_assoc, hnear, or_assoc]

instance : DecidablePred (Kept settings n highlights) :=
  fun _ => decidable_of_iff _ keeps_iff

theorem expanded_marks : (marks dropped).flatMap RenderedLine.expanded =
    List.replicate dropped none := by
  rw [marks]
  split
  · next h => rw [h]; rfl
  · exact List.append_nil _

/-- Line by line, the entries say what becomes of the lines dropped before and of those to come. -/
theorem expanded_entries : (entries keep highlighted firstLine i dropped ls).flatMap
    RenderedLine.expanded = List.replicate dropped none ++ ls.mapIdx fun j l =>
      if keep (i + j) then
        some (.code l (min (firstLine + (i + j)) lastCoord) (highlighted (i + j)))
      else none := by
  -- the lines dropped so far stand in front, so that a dropped line is one more of them
  induction ls generalizing i dropped with
  | nil => rw [entries, expanded_marks, List.mapIdx_nil, List.append_nil]
  | cons first ls ih =>
    have hnext (j : ℕ) : i + 1 + j = i + (j + 1) := by omega
    rw [entries, List.mapIdx_cons]
    simp only [Nat.add_zero]
    split
    · rw [List.flatMap_append, expanded_marks, List.flatMap_cons, ih]
      simp only [hnext]
      rfl
    · rw [ih, List.replicate_succ', List.append_assoc]
      simp only [hnext]
      rfl

theorem pos_of_mem_marks (h : .skipped n ∈ marks dropped) : 0 < n := by
  rw [marks] at h
  split at h
  · cases h
  · next hdropped =>
    obtain rfl : n = dropped := RenderedLine.skipped.inj (List.mem_singleton.mp h)
    exact Nat.pos_of_ne_zero hdropped

theorem pos_of_mem_entries
    (h : .skipped n ∈ entries keep highlighted firstLine i dropped ls) : 0 < n := by
  induction ls generalizing i dropped with
  | nil => exact pos_of_mem_marks h
  | cons first ls ih =>
    rw [entries] at h
    split at h
    · rcases List.mem_append.mp h with h | h
      · exact pos_of_mem_marks h
      · rcases List.mem_cons.mp h with h | h
        · cases h
        · exact ih h
    · exact ih h

/-- Two entries that are not both marks. -/
def Apart (a b : RenderedLine) : Prop :=
  ¬(a.isMark = true ∧ b.isMark = true)

theorem isChain_code_cons {entries : List RenderedLine} (h : entries.IsChain Apart) :
    (.code l n marked :: entries).IsChain Apart :=
  h.cons fun _ _ hmarks => nomatch hmarks.1

theorem isChain_entries : (entries keep highlighted firstLine i dropped ls).IsChain Apart := by
  induction ls generalizing i dropped with
  | nil =>
    rw [entries, marks]
    split
    · exact .nil
    · exact .singleton _
  | cons first ls ih =>
    rw [entries]
    split
    · -- a mark is only made before the entry of a kept line, which parts it from the next one
      rw [marks]
      split
      · exact isChain_code_cons ih
      · exact (isChain_code_cons ih).cons_cons fun hmarks => nomatch hmarks.2
    · exact ih

theorem sum_sourceLines (entries : List RenderedLine) :
    (entries.map (·.sourceLines)).sum = (entries.flatMap RenderedLine.expanded).length := by
  rw [List.length_flatMap]
  simp only [RenderedLine.length_expanded]

/-- Entries that account for a text: they tell of each line in turn, by an entry of its own if the
line is to be kept and by a mark if not, with one mark for each run of dropped lines. -/
structure Accounts (settings : RenderSettings) (text : Text) (firstLine : ℕ) (highlights : List ℕ)
    (entries : List RenderedLine) : Prop where
  lines : entries.flatMap RenderedLine.expanded = text.lines.mapIdx fun i l =>
    if Kept settings text.lines.length highlights i then
      some (.code l (min (firstLine + i) lastCoord) (decide (i ∈ highlights)))
    else none
  counts : ∀ n, .skipped n ∈ entries → 1 ≤ n
  apart : entries.IsChain Apart
  total : (entries.map (·.sourceLines)).sum = text.lines.length

/-- A window accounts for every line of its text. -/
theorem render_accounts (settings : RenderSettings) (text : Text) (firstLine : ℕ)
    (highlights : List ℕ) :
    Accounts settings text firstLine highlights (render settings text firstLine highlights) := by
  have hlines : (render settings text firstLine highlights).flatMap RenderedLine.expanded =
      text.lines.mapIdx fun i l =>
        if Kept settings text.lines.length highlights i then
          some (.code l (min (firstLine + i) lastCoord) (decide (i ∈ highlights)))
        else none := by
    rw [render, expanded_entries, List.replicate_zero, List.nil_append]
    simp only [Nat.zero_add, keeps_iff, List.contains_eq_mem]
  refine ⟨hlines, fun n hn => pos_of_mem_entries hn, isChain_entries, ?_⟩
  rw [sum_sourceLines, hlines, List.length_mapIdx]

end Window

end WorkspaceLink
