import WorkspaceLink.Proofs.Text.Lines
import WorkspaceLink.Scope.SourceText

/-! What ranges and windows select from a source, line by line. -/

namespace WorkspaceLink

theorem le_coordAfter (a n : Nat) : a ≤ coordAfter a n := by
  rw [coordAfter]
  omega

/-- What a range covers of line `n`, which it cuts only if it starts or ends there. -/
def Range.cut (r : Range) (n : Nat) (l : Text) : Text :=
  let front := if n = r.stop.line then l.take r.stop.character else l
  if n = r.start.line then front.drop r.start.character else front

theorem Range.cut_subset (r : Range) (n : Nat) (l : Text) : r.cut n l ⊆ l := by
  have hfront : (if n = r.stop.line then l.take r.stop.character else l) ⊆ l := by
    split
    · exact List.take_subset _ _
    · exact List.Subset.refl _
  rw [cut]
  split
  · exact fun _ hc => hfront (List.drop_subset _ _ hc)
  · exact hfront

/-- A range that starts at the beginning of a line and ends at or past the end of one cuts no
line. -/
theorem Range.cut_eq_self {first last n c : Nat} {l : Text} (h : n = last → l.length ≤ c) :
    Range.cut ⟨⟨first, 0⟩, ⟨last, c⟩⟩ n l = l := by
  rw [cut]
  dsimp only
  rw [List.drop_zero, ite_self]
  split
  · next hn => exact List.take_of_length_le (h hn)
  · rfl

namespace SourceText

variable {source : SourceText} {first last n : Nat} {l : Text} {r : Range}

theorem line?_eq_some_iff : source.line? n = some l ↔ source.line n = .ok l := by
  rw [line]
  cases source.line? n <;> simp

theorem exists_line (h : n < source.lineCount) : ∃ l, source.line? n = some l :=
  ⟨source.lines[n], List.getElem?_eq_getElem h⟩

theorem line_of_le (h : source.lineCount ≤ n) :
    source.line n = .error (.lineOutOfRange n source.lineCount) := by
  rw [line, line?, List.getElem?_eq_none h]

/-! ### Slices -/

theorem getElem?_slice (i : Nat) : (source.slice first last)[i]? =
    if first + i ≤ last then source.line? (first + i) else none := by
  rw [slice, List.getElem?_take, List.getElem?_drop, line?]
  have hiff : i < last + 1 - first ↔ first + i ≤ last := by omega
  simp only [hiff]

theorem length_slice (h : last < source.lineCount) :
    (source.slice first last).length = last + 1 - first := by
  rw [lineCount] at h
  rw [slice, List.length_take, List.length_drop]
  omega

/-! ### Excerpts -/

/-- The lines from `first` to `last`, each cut by its number. -/
def excerpt (source : SourceText) (cut : Nat → Text → Text) (first last : Nat) : List Text :=
  (source.slice first last).mapIdx fun i l => cut (first + i) l

variable {cut : Nat → Text → Text}

theorem getElem?_excerpt (i : Nat) : (source.excerpt cut first last)[i]? =
    if first + i ≤ last then (source.line? (first + i)).map (cut (first + i)) else none := by
  rw [excerpt, List.getElem?_mapIdx, getElem?_slice]
  split <;> rfl

theorem excerpt_whole : source.excerpt (fun _ l => l) first last = source.slice first last :=
  List.mapIdx_eq_iff.mpr fun i => by cases (source.slice first last)[i]? <;> rfl

/-- An excerpt put together to a text has its own lines again, if cutting adds no newline. -/
theorem lines_ofLines_excerpt (hsource : ∀ l ∈ source.lines, '\n' ∉ l)
    (hcut : ∀ n l, cut n l ⊆ l) (hle : first ≤ last) (hlast : last < source.lineCount) :
    (Text.ofLines (source.excerpt cut first last)).lines = source.excerpt cut first last := by
  apply Text.lines_ofLines
  · apply List.ne_nil_of_length_pos
    rw [excerpt, List.length_mapIdx, length_slice hlast]
    omega
  · intro l hl
    obtain ⟨i, hi⟩ := List.getElem?_of_mem hl
    rw [getElem?_excerpt] at hi
    split at hi
    · obtain ⟨whole, hwhole, rfl⟩ := Option.map_eq_some_iff.mp hi
      exact fun hmem => hsource whole (List.mem_of_getElem? hwhole) (hcut _ _ hmem)
    · cases hi

/-- Between its first line and its last a range covers whole lines. -/
theorem excerpt_cut {a b : Text} (hlt : r.start.line < r.stop.line)
    (ha : source.line? r.start.line = some a) (hb : source.line? r.stop.line = some b) :
    source.excerpt r.cut r.start.line r.stop.line = a.drop r.start.character ::
      source.slice (r.start.line + 1) (r.stop.line - 1) ++ [b.take r.stop.character] := by
  obtain ⟨hstop, -⟩ := List.getElem?_eq_some_iff.mp hb
  have hinner : (source.slice (r.start.line + 1) (r.stop.line - 1)).length =
      r.stop.line - 1 - r.start.line := by
    rw [length_slice (by rw [lineCount]; omega)]
    omega
  apply List.ext_getElem?
  intro i
  rw [getElem?_excerpt, List.cons_append]
  cases i with
  | zero =>
    -- the first line, which is not the last
    have hcut : r.cut r.start.line a = a.drop r.start.character := by
      simp [Range.cut, Nat.ne_of_lt hlt]
    rw [Nat.add_zero, if_pos (Nat.le_of_lt hlt), ha, List.getElem?_cons_zero, ← hcut]
    rfl
  | succ i =>
    rw [List.getElem?_cons_succ, List.getElem?_append, hinner]
    by_cases hi : i < r.stop.line - 1 - r.start.line
    · -- a line between the two
      have hstart : r.start.line + (i + 1) ≠ r.start.line := by omega
      have hinside : r.start.line + (i + 1) ≠ r.stop.line := by omega
      have hwhole : r.cut (r.start.line + (i + 1)) = id := by
        funext l
        rw [Range.cut, if_neg hinside, if_neg hstart]
        rfl
      have hnext : r.start.line + 1 + i = r.start.line + (i + 1) := by omega
      rw [if_pos hi, getElem?_slice, hwhole, Option.map_id, id, hnext, if_pos (by omega),
        if_pos (by omega)]
    · -- the last line, or none
      rw [if_neg hi]
      by_cases hlast : r.start.line + (i + 1) = r.stop.line
      · have hcut : r.cut r.stop.line b = b.take r.stop.character := by
          simp [Range.cut, Nat.ne_of_gt hlt]
        have hindex : i - (r.stop.line - 1 - r.start.line) = 0 := by omega
        rw [hlast, if_pos (Nat.le_refl _), hb, hindex, List.getElem?_cons_zero, ← hcut]
        rfl
      · rw [if_neg (by omega), List.getElem?_eq_none]
        rw [List.length_singleton]
        omega

/-- On one line a range selects what is between its ends. -/
theorem textOf_line (hl : source.line? n = some l) (i j : Nat) :
    source.textOf ⟨⟨n, i⟩, ⟨n, j⟩⟩ = .ok ((l.take j).drop i) := by
  rw [textOf]
  simp only [line?_eq_some_iff.mp hl, bind, Except.bind]
  rw [if_neg (Nat.lt_irrefl n), if_pos trivial]

/-- A range over several lines selects whole lines between those that it starts and ends on. -/
theorem textOf_lines {a b : Text} (hlt : r.start.line < r.stop.line)
    (ha : source.line? r.start.line = some a) (hb : source.line? r.stop.line = some b) :
    source.textOf r = .ok (Text.ofLines (a.drop r.start.character ::
      source.slice (r.start.line + 1) (r.stop.line - 1) ++ [b.take r.stop.character])) := by
  rw [textOf, line?_eq_some_iff.mp ha, line?_eq_some_iff.mp hb]
  dsimp only [bind, Except.bind]
  rw [if_neg (by omega), if_neg (by omega)]

theorem textOf_eq (hle : r.start.line ≤ r.stop.line) (hlast : r.stop.line < source.lineCount) :
    source.textOf r = .ok (Text.ofLines (source.excerpt r.cut r.start.line r.stop.line)) := by
  obtain ⟨a, ha⟩ := exists_line (Nat.lt_of_le_of_lt hle hlast)
  obtain ⟨b, hb⟩ := exists_line hlast
  rcases Nat.lt_or_eq_of_le hle with hlt | heq
  · rw [textOf_lines hlt ha hb, excerpt_cut hlt ha hb]
  · -- on one line the range cuts at both ends
    have hlines : source.slice r.start.line r.stop.line = [a] := by
      apply List.ext_getElem?
      intro i
      rw [getElem?_slice]
      cases i with
      | zero => rw [Nat.add_zero, if_pos hle, ha, List.getElem?_cons_zero]
      | succ i => rw [if_neg (by omega), List.getElem?_eq_none (by simp)]
    have hcut : r.cut r.start.line a = (a.take r.stop.character).drop r.start.character := by
      simp [Range.cut, heq]
    have hstop : (⟨r.start.line, r.stop.character⟩ : Position) = r.stop := by rw [heq]
    have htext : source.textOf r = .ok ((a.take r.stop.character).drop r.start.character) := by
      rw [← textOf_line ha, hstop]
    rw [htext, excerpt, hlines, List.mapIdx_cons, Nat.add_zero, hcut]
    exact congrArg Except.ok (List.append_nil _).symm

/-- From the beginning of a line to the end of one a range selects whole lines. -/
theorem textOf_wholeLines {c : Nat} (hle : first ≤ last) (hl : source.line? last = some l)
    (hc : l.length ≤ c) :
    source.textOf ⟨⟨first, 0⟩, ⟨last, c⟩⟩ = .ok (Text.ofLines (source.slice first last)) := by
  have hwhole : source.excerpt (Range.cut ⟨⟨first, 0⟩, ⟨last, c⟩⟩) first last =
      source.slice first last := by
    apply List.ext_getElem?
    intro i
    rw [getElem?_excerpt, getElem?_slice]
    cases hline : source.line? (first + i) with
    | none => rfl
    | some line =>
      have hfits : first + i = last → line.length ≤ c := by
        rintro rfl
        rwa [Option.some.inj (hline.symm.trans hl)]
      rw [Option.map_some, Range.cut_eq_self hfits]
  obtain ⟨hlast, -⟩ := List.getElem?_eq_some_iff.mp hl
  rw [textOf_eq hle hlast, hwhole]

theorem lt_of_line_eq_ok (h : source.line n = .ok l) : n < source.lineCount := by
  obtain ⟨hlt, -⟩ := List.getElem?_eq_some_iff.mp (line?_eq_some_iff.mpr h)
  exact hlt

/-- A range selects nothing exactly if one of the lines that it starts and ends on does not exist,
or it ends on a line before the one that it starts on. -/
theorem textOf_eq_error_iff : (∃ e, source.textOf r = .error e) ↔
    source.lineCount ≤ r.start.line ∨ source.lineCount ≤ r.stop.line ∨
      r.stop.line < r.start.line := by
  constructor
  · rintro ⟨e, he⟩
    refine Decidable.byContradiction fun hvalid => ?_
    rw [textOf_eq (by omega) (by omega)] at he
    cases he
  · intro hinvalid
    rw [textOf]
    cases ha : source.line r.start.line with
    | error e => exact ⟨e, rfl⟩
    | ok a =>
      cases hb : source.line r.stop.line with
      | error e => exact ⟨e, rfl⟩
      | ok b =>
        have hstart := lt_of_line_eq_ok ha
        have hstop := lt_of_line_eq_ok hb
        have hlt : r.stop.line < r.start.line := by omega
        exact ⟨_, if_pos hlt⟩

/-! ### Windows -/

theorem linesBetween_eq (hle : first ≤ last) (hlast : last < source.lineCount) :
    source.linesBetween first last = .ok (Text.ofLines (source.slice first last)) := by
  obtain ⟨l, hl⟩ := exists_line hlast
  rw [linesBetween, line?_eq_some_iff.mp hl]
  exact if_neg (by omega)

/-- The last line of the window around a line. The first is `radius` lines before the line, or the
first of the source. -/
def windowEnd (source : SourceText) (n radius : Nat) : Nat :=
  min (coordAfter n radius) (source.lineCount - 1)

theorem windowEnd_lt (h : n < source.lineCount) (radius : Nat) :
    source.windowEnd n radius < source.lineCount := by
  rw [windowEnd]
  omega

theorem le_windowEnd (h : n < source.lineCount) (radius : Nat) :
    n ≤ source.windowEnd n radius := by
  have hafter := le_coordAfter n radius
  rw [windowEnd]
  omega

theorem contextWindow_eq {last : Text} (h : n < source.lineCount) (radius : Nat)
    (hlast : source.line? (source.windowEnd n radius) = some last) :
    source.contextWindow n radius =
      .ok (Text.ofLines (source.slice (n - radius) (source.windowEnd n radius)),
        ⟨⟨n - radius, 0⟩, ⟨source.windowEnd n radius, min last.length lastCoord⟩⟩) := by
  obtain ⟨l, hl⟩ := exists_line h
  have hbefore : n - radius ≤ source.windowEnd n radius :=
    Nat.le_trans (Nat.sub_le n radius) (le_windowEnd h radius)
  rw [contextWindow, line?_eq_some_iff.mp hl, ← windowEnd]
  dsimp only [bind, Except.bind]
  rw [linesBetween_eq hbefore (windowEnd_lt h radius), hlast]
  rfl

theorem contextWindow_of_lt (h : n < source.lineCount) (radius : Nat) : ∃ stop,
    source.contextWindow n radius =
      .ok (Text.ofLines (source.slice (n - radius) (source.windowEnd n radius)),
        ⟨⟨n - radius, 0⟩, ⟨source.windowEnd n radius, stop⟩⟩) := by
  obtain ⟨last, hlast⟩ := exists_line (windowEnd_lt h radius)
  exact ⟨_, contextWindow_eq h radius hlast⟩

theorem contextWindow_of_le (h : source.lineCount ≤ n) (radius : Nat) :
    source.contextWindow n radius = .error (.lineOutOfRange n source.lineCount) := by
  rw [contextWindow, line_of_le h]
  rfl

end SourceText

end WorkspaceLink
