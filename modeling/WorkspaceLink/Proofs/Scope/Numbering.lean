import WorkspaceLink.Proofs.Text.Cuts
import WorkspaceLink.Proofs.Text.Decimal
import WorkspaceLink.Proofs.Text.Lines
import WorkspaceLink.Scope.Window

/-! Texts with line numbers. Each line stands once, behind its number, and the numbers are set to the
right in one column as wide as the last of them. Without the column the lines are the text again, and
no other text has the same listing. A counter that holds coordinates gives these numbers exactly if it
does not run over. -/

namespace WorkspaceLink.Text

variable {s t l l' : Text} {ls ls' rows : List Text} {first first' width width' m n : ℕ}

/-! ### One line -/

/-- A line behind its number. -/
def numberedLine (width n : ℕ) (l : Text) : Text :=
  padded width n ++ "| " ++ l

theorem numberedLine_eq (width n : ℕ) (l : Text) :
    numberedLine width n l = padded width n ++ '|' :: ' ' :: l := by
  rw [numberedLine, List.append_assoc]
  rfl

theorem not_mem_numberedLine (h : '\n' ∉ l) (width n : ℕ) : '\n' ∉ numberedLine width n l := by
  have hnumber : '\n' ∉ padded width n := not_mem_padded (by decide) (by decide) width n
  simp [numberedLine_eq, hnumber, h]

/-- The number is what stands before the first bar, and the line what stands behind that bar, even
if there are others in it. -/
theorem numberedLine_inj (h : numberedLine width m l = numberedLine width' n l') :
    m = n ∧ l = l' := by
  have hbar (width n : ℕ) : '|' ∉ padded width n :=
    not_mem_padded (by decide) (by decide) width n
  rw [numberedLine_eq, numberedLine_eq, append_cons_inj (hbar _ _) (hbar _ _)] at h
  exact ⟨eq_of_padded_eq h.1, (List.cons.inj h.2).2⟩

/-! ### All lines -/

/-- Lines behind their numbers, which are counted from `first`. -/
def numberedLines (width first : ℕ) (ls : List Text) : List Text :=
  (ls.zipIdx first).map fun (l, n) => numberedLine width n l

theorem numberedLines_cons (width first : ℕ) (l : Text) (ls : List Text) :
    numberedLines width first (l :: ls) =
      numberedLine width first l :: numberedLines width (first + 1) ls :=
  rfl

theorem getElem?_numberedLines (width first : ℕ) (ls : List Text) (i : ℕ) :
    (numberedLines width first ls)[i]? = ls[i]?.map (numberedLine width (first + i)) := by
  rw [numberedLines, List.getElem?_map, List.getElem?_zipIdx, Option.map_map]
  rfl

theorem numberedLines_inj (h : numberedLines width m ls = numberedLines width' n ls') :
    ls = ls' := by
  induction ls generalizing ls' m n with
  | nil =>
    cases ls' with
    | nil => rfl
    | cons l' ls' => cases h
  | cons l ls ih =>
    cases ls' with
    | nil => cases h
    | cons l' ls' =>
      rw [numberedLines_cons, numberedLines_cons] at h
      obtain ⟨hline, hothers⟩ := List.cons.inj h
      rw [(numberedLine_inj hline).2, ih hothers]

/-- The width of the column for the numbers of some lines: that of the last one, where counting stops
at the last coordinate. -/
def columnWidth (first count : ℕ) : ℕ :=
  (ofNat (min (first + (count - 1)) lastCoord)).length

theorem numbered_eq (s : Text) (first : ℕ) : s.numbered first =
    terminated (numberedLines (columnWidth first s.lines.length) first s.lines) := by
  rw [numbered]
  congr 1
  rw [List.mapIdx_eq_iff]
  intro i
  rw [getElem?_numberedLines]
  rfl

theorem lines_numbered (s : Text) (first : ℕ) : (s.numbered first).lines =
    numberedLines (columnWidth first s.lines.length) first s.lines ++ [[]] := by
  rw [numbered_eq, lines_terminated]
  intro row hrow
  obtain ⟨⟨l, n⟩, hl, rfl⟩ := List.mem_map.mp hrow
  exact not_mem_numberedLine (not_mem_of_mem_splitOn (List.fst_mem_of_mem_zipIdx hl)) _ _

/-- A listing tells its text, and where counting began. -/
theorem numbered_inj : s.numbered first = t.numbered first' ↔ s = t ∧ first = first' := by
  constructor
  · intro h
    have hrows := congrArg lines h
    rw [lines_numbered, lines_numbered, List.append_left_inj] at hrows
    have hlines : s.lines = t.lines := numberedLines_inj hrows
    -- there is a first line, even in the empty text, and it has the first number
    obtain ⟨l, ls, hs⟩ := List.exists_cons_of_ne_nil (List.splitOn_ne_nil '\n' s)
    rw [← hlines, lines, hs, numberedLines_cons, numberedLines_cons] at hrows
    have hfirst : first = first' := (numberedLine_inj (List.cons.inj hrows).1).1
    exact ⟨by rw [← ofLines_lines s, hlines, ofLines_lines], hfirst⟩
  · rintro ⟨rfl, rfl⟩
    rfl

/-! ### The column -/

/-- Lines with their numbers, which are counted from `first` and set to the right in a column of
`width` characters. -/
structure Aligned (first width : ℕ) (ls rows : List Text) : Prop where
  length : rows.length = ls.length
  row : ∀ i l, ls[i]? = some l → ∃ blanks, blanks + (ofNat (first + i)).length = width ∧
    rows[i]? = some (List.replicate blanks ' ' ++ ofNat (first + i) ++ "| " ++ l)

theorem aligned_numberedLines
    (h : ∀ i < ls.length, (ofNat (first + i)).length ≤ width) :
    Aligned first width ls (numberedLines width first ls) := by
  constructor
  · rw [numberedLines, List.length_map, List.length_zipIdx]
  · intro i l hl
    have hfits := h i (List.getElem?_eq_some_iff.mp hl).1
    refine ⟨width - (ofNat (first + i)).length, Nat.sub_add_cancel hfits, ?_⟩
    rw [getElem?_numberedLines, hl]
    rfl

/-- Behind the column and the bar stand the lines. -/
theorem Aligned.map_drop (h : Aligned first width ls rows) :
    rows.map (List.drop (width + 2)) = ls := by
  apply List.ext_getElem?
  intro i
  rw [List.getElem?_map]
  cases hl : ls[i]? with
  | none =>
    rw [List.getElem?_eq_none_iff] at hl
    rw [List.getElem?_eq_none (h.length ▸ hl)]
    rfl
  | some l =>
    obtain ⟨blanks, hwidth, hrow⟩ := h.row i l hl
    have hlabel : (List.replicate blanks ' ' ++ ofNat (first + i) ++ "| ").length = width + 2 := by
      rw [List.length_append, List.length_append, List.length_replicate, hwidth]
      rfl
    rw [hrow, Option.map_some, List.drop_left' hlabel]

theorem columnWidth_eq (h : first + n ≤ lastCoord) :
    columnWidth first n = (ofNat (first + (n - 1))).length := by
  rw [columnWidth, Nat.min_eq_left (by omega)]

/-! ### The counter -/

/-- The coordinate after `n`, if `n` is not the last. -/
def nextCoord? (n : ℕ) : Option ℕ :=
  if n < lastCoord then some (n + 1) else none

/-- Lines with the numbers that a counter gives them, which stands at `n`. It is moved on as it is
read, and it is read once more before it is seen that no line is left. -/
def countLines? (n : ℕ) : List Text → Option (List (Text × ℕ))
  | [] => do
    let _ ← nextCoord? n
    return []
  | l :: ls => do
    let next ← nextCoord? n
    let counted ← countLines? next ls
    return (l, n) :: counted

/-- The counter gives each line one number, unless it comes to the last coordinate. -/
theorem countLines?_eq (n : ℕ) (ls : List Text) : countLines? n ls =
    if n + ls.length < lastCoord then some (ls.zipIdx n) else none := by
  induction ls generalizing n with
  | nil =>
    have hcount : n + ([] : List Text).length = n := rfl
    rw [countLines?, nextCoord?, hcount]
    by_cases hn : n < lastCoord
    · rw [if_pos hn, if_pos hn]
      rfl
    · rw [if_neg hn, if_neg hn]
      rfl
  | cons l ls ih =>
    -- the counter is one further, and there is one line less to come
    have hcount : n + 1 + ls.length = n + (ls.length + 1) := by omega
    rw [countLines?, nextCoord?, List.length_cons]
    by_cases hn : n < lastCoord
    · rw [if_pos hn, Option.bind_eq_bind, Option.bind_some, ih, hcount]
      split <;> rfl
    · rw [if_neg hn, if_neg (by omega)]
      rfl

/-- A text with its line numbers, where lines, their numbers and all sums are counted in coordinates
and only the counter can run over. -/
def numberedInCoords? (s : Text) (first : ℕ) : Option Text := do
  let count := min s.lines.length lastCoord
  let counted ← countLines? first s.lines
  return terminated (counted.map fun (l, n) => numberedLine (columnWidth first count) n l)

theorem numberedInCoords?_eq (s : Text) (first : ℕ) : s.numberedInCoords? first =
    if first + s.lines.length < lastCoord then some (s.numbered first) else none := by
  rw [numberedInCoords?, countLines?_eq]
  split
  · next h =>
    have hcount : min s.lines.length lastCoord = s.lines.length := by omega
    rw [hcount, numbered_eq]
    rfl
  · rfl

/-- Where counting stays below the last coordinate, each line stands behind its own number in a
column as wide as the last number. What is left without the column is the text, and no other text
and no other first number have the same listing. -/
theorem numbered_aligned (h : first + s.lines.length < lastCoord) :
    s.numberedInCoords? first = some (s.numbered first) ∧
    (∃ width rows, width = (ofNat (first + (s.lines.length - 1))).length ∧
      (s.numbered first).lines = rows ++ [[]] ∧ Aligned first width s.lines rows ∧
      ofLines (rows.map (List.drop (width + 2))) = s) ∧
    ∀ t first', t.numbered first' = s.numbered first ↔ t = s ∧ first' = first := by
  have hwidth := columnWidth_eq (Nat.le_of_lt h)
  have haligned : Aligned first (columnWidth first s.lines.length) s.lines
      (numberedLines (columnWidth first s.lines.length) first s.lines) := by
    -- no number has more digits than the last one
    apply aligned_numberedLines
    intro i hi
    rw [hwidth]
    exact length_ofNat_le (by omega)
  refine ⟨?_, ⟨_, _, hwidth, lines_numbered s first, haligned, ?_⟩, fun _ _ => numbered_inj⟩
  · rw [numberedInCoords?_eq, if_pos h]
  · rw [haligned.map_drop, ofLines_lines]

/-- Numbers of two and three digits, an empty line, and a line that looks as if it were numbered. -/
theorem pastHundred_aligned :
    98 + (lines "a\n12| b\n").length < lastCoord ∧
    numberedInCoords? "a\n12| b\n" 98 = some " 98| a\n 99| 12| b\n100| \n" ∧
    Aligned 98 3 ["a", "12| b", ""] [" 98| a", " 99| 12| b", "100| "] := by
  have hlines : lines "a\n12| b\n" = ["a", "12| b", ""] := by
    decide +kernel
  have hlisting : numbered "a\n12| b\n" 98 = " 98| a\n 99| 12| b\n100| \n" := by
    decide +kernel
  have hcount : 98 + (lines "a\n12| b\n").length < lastCoord := by
    rw [hlines]
    decide
  obtain ⟨hcounted, ⟨width, rows, hwidth, hrows, haligned, -⟩, -⟩ := numbered_aligned hcount
  rw [hlisting] at hcounted hrows
  have hlast : lines " 98| a\n 99| 12| b\n100| \n" =
      ([" 98| a", " 99| 12| b", "100| "] : List Text) ++ [[]] := by
    decide +kernel
  rw [hlines] at hwidth haligned
  rw [hlast, List.append_left_inj] at hrows
  subst hrows
  have hthree : width = 3 := by
    rw [hwidth]
    decide +kernel
  exact ⟨hcount, hcounted, hthree ▸ haligned⟩

end WorkspaceLink.Text
