import WorkspaceLink.Proofs.Scope.Lines
import WorkspaceLink.Proofs.Text.Offsets

/-! Selecting from a source is slicing its text. What a range selects is what lies between the texts
before its ends, so that neighbouring ranges select neighbouring pieces. Lines are cut at byte
offsets, never outside a line nor inside a character. -/

namespace WorkspaceLink

namespace SourceText

variable {source : SourceText} {r : Range} {a b c : Position} {l : Text} {n i j : Nat}

/-! ### The text before a position -/

/-- The text of a source before a position. Characters past the end of a line count as its end. -/
def textBefore (source : SourceText) (p : Position) : Text :=
  Text.ofLines (source.lines.take p.line ++ [((source.line? p.line).getD []).take p.character])

theorem textBefore_eq (h : source.line? a.line = some l) :
    source.textBefore a = Text.ofLines (source.lines.take a.line ++ [l.take a.character]) := by
  rw [textBefore, h]
  rfl

theorem take_lines {firstLine : Text} (hlt : i < j) (hfirst : source.line? i = some firstLine) :
    source.lines.take j = source.lines.take i ++ firstLine :: source.slice (i + 1) (j - 1) := by
  obtain ⟨hi, rfl⟩ := List.getElem?_eq_some_iff.mp hfirst
  have hcount : j - i = j - 1 + 1 - (i + 1) + 1 := by omega
  rw [← Text.take_append_drop_take (Nat.le_of_lt hlt), List.drop_take,
    List.drop_eq_getElem_cons hi, hcount, List.take_succ_cons, slice]

/-- Up to the end of a range the text is that up to its start and what the range selects. -/
theorem textBefore_append (hab : a ≤ b) (hb : b.line < source.lineCount) :
    ∃ t, source.textOf ⟨a, b⟩ = .ok t ∧ source.textBefore b = source.textBefore a ++ t := by
  obtain ⟨last, hlast⟩ := exists_line hb
  rcases Position.le_def.mp hab with hlt | ⟨hline, hle⟩
  · -- the line of `a` is cut in two, and the lines after it are whole before `b`
    obtain ⟨first, hfirst⟩ := exists_line (Nat.lt_trans hlt hb)
    refine ⟨_, textOf_lines hlt hfirst hlast, ?_⟩
    rw [textBefore_eq hlast, textBefore_eq hfirst, take_lines hlt hfirst, List.append_assoc,
      List.cons_append]
    dsimp only
    rw [List.cons_append, ← Text.ofLines_append_cons, List.take_append_drop]
  · -- both are on the last line that the text before them has
    obtain ⟨n, i⟩ := a
    obtain ⟨m, j⟩ := b
    obtain rfl : n = m := hline
    have htext (k : Nat) : source.textBefore ⟨n, k⟩ =
        Text.ofLines (source.lines.take n ++ [last.take k]) :=
      textBefore_eq hlast
    refine ⟨_, textOf_line hlast i j, ?_⟩
    calc source.textBefore ⟨n, j⟩
        = Text.ofLines (source.lines.take n ++ [last.take i ++ (last.take j).drop i]) := by
          rw [htext, Text.take_append_drop_take hle]
      _ = Text.ofLines (source.lines.take n ++ [last.take i]) ++
            Text.ofLines [(last.take j).drop i] := Text.ofLines_append_cons
      _ = source.textBefore ⟨n, i⟩ ++ (last.take j).drop i := by
          rw [htext, Text.ofLines, Text.ofLines, List.intercalate_singleton]

/-- Neighbouring ranges select neighbouring pieces of a text. -/
theorem textOf_append (hab : a ≤ b) (hbc : b ≤ c) (hc : c.line < source.lineCount) :
    ∃ s t, source.textOf ⟨a, b⟩ = .ok s ∧ source.textOf ⟨b, c⟩ = .ok t ∧
      source.textOf ⟨a, c⟩ = .ok (s ++ t) := by
  have hb : b.line < source.lineCount := by
    rw [Position.le_def] at hbc
    omega
  obtain ⟨s, hs, hsbefore⟩ := textBefore_append hab hb
  obtain ⟨t, ht, htbefore⟩ := textBefore_append hbc hc
  obtain ⟨u, hu, hubefore⟩ := textBefore_append (Position.le_trans hab hbc) hc
  have hst : u = s ++ t := by
    rw [htbefore, hsbefore, List.append_assoc] at hubefore
    exact (List.append_cancel_left hubefore).symm
  exact ⟨s, t, hs, ht, hst ▸ hu⟩

/-- The range over all lines selects the whole text. -/
theorem textOf_whole (hne : source.lines ≠ []) : ∃ l,
    source.line? (source.lineCount - 1) = some l ∧ ∀ k, l.length ≤ k →
      source.textOf ⟨⟨0, 0⟩, ⟨source.lineCount - 1, k⟩⟩ = .ok (Text.ofLines source.lines) := by
  have hpos : 0 < source.lineCount := List.length_pos_iff.mpr hne
  obtain ⟨l, hl⟩ := exists_line (Nat.sub_lt hpos Nat.one_pos)
  have hslice : source.slice 0 (source.lineCount - 1) = source.lines := by
    rw [slice, List.drop_zero, Nat.sub_add_cancel hpos]
    exact List.take_length
  refine ⟨l, hl, fun k hk => ?_⟩
  rw [textOf_wholeLines (Nat.zero_le _) hl hk, hslice]

/-! ### Byte offsets -/

/-- What a range selects if lines are cut at byte offsets. There is nothing if a cut cannot be
made. -/
def textByBytes? (source : SourceText) (r : Range) : Except ScopeError (Option Text) := do
  let first ← source.line r.start.line
  let last ← source.line r.stop.line
  if r.stop.line < r.start.line then
    .error (.lineOutOfRange r.stop.line source.lineCount)
  else
    let start := first.byteOffset r.start.character
    if r.start.line = r.stop.line then
      let stop := max (first.byteOffset r.stop.character) start
      .ok (first.sliceBytes? start stop)
    else
      .ok do
        let front ← first.sliceBytes? start first.byteCount
        let back ← last.sliceBytes? 0 (last.byteOffset r.stop.character)
        let inner := source.slice (r.start.line + 1) (r.stop.line - 1)
        some (Text.ofLines (front :: inner ++ [back]))

theorem textByBytes?_eq (source : SourceText) (r : Range) :
    source.textByBytes? r = (source.textOf r).map some := by
  rw [textByBytes?, textOf]
  cases source.line r.start.line with
  | error => rfl
  | ok first =>
    cases source.line r.stop.line with
    | error => rfl
    | ok last =>
      dsimp only [bind, Except.bind]
      split
      · rfl
      · split
        · rw [Text.sliceBytes?_byteOffset]
          rfl
        · rw [Text.sliceBytes?_from, Text.sliceBytes?_to]
          rfl

/-! ### Slices of a content -/

/-- A content as a source: its text is the content with newlines for carriage returns and newlines,
its lines are those of the text, and ranges select slices of it. -/
structure Slices (content : Text) (source : SourceText) (whole : Text) : Prop where
  replaced : Text.NewlinesReplaced content whole
  lines : ∀ l ∈ source.lines, '\n' ∉ l
  joined : Text.ofLines source.lines = whole
  fails_iff : ∀ r, (∃ e, source.textOf r = .error e) ↔
    source.lineCount ≤ r.start.line ∨ source.lineCount ≤ r.stop.line ∨ r.stop.line < r.start.line
  atOffsets : ∀ r, source.textByBytes? r = (source.textOf r).map some
  append : ∀ a b c : Position, a ≤ b → b ≤ c → c.line < source.lineCount →
    ∃ s t, source.textOf ⟨a, b⟩ = .ok s ∧ source.textOf ⟨b, c⟩ = .ok t ∧
      source.textOf ⟨a, c⟩ = .ok (s ++ t)
  all : ∃ l, source.line? (source.lineCount - 1) = some l ∧ ∀ k, l.length ≤ k →
    source.textOf ⟨⟨0, 0⟩, ⟨source.lineCount - 1, k⟩⟩ = .ok whole
  inverted : ∀ n i j, n < source.lineCount → j ≤ i → source.textOf ⟨⟨n, i⟩, ⟨n, j⟩⟩ = .ok []

theorem ofContent_slices (content : Text) :
    Slices content (.ofContent content) content.normalizeNewlines where
  replaced := Text.newlinesReplaced_normalizeNewlines content
  lines := fun l hl => Text.not_mem_of_mem_splitOn hl
  joined := Text.ofLines_lines content.normalizeNewlines
  fails_iff := fun _ => textOf_eq_error_iff
  atOffsets := fun r => textByBytes?_eq _ r
  append := fun _ _ _ hab hbc hc => textOf_append hab hbc hc
  all := by
    have hne : (ofContent content).lines ≠ [] := List.splitOn_ne_nil _ _
    have hjoined : Text.ofLines (ofContent content).lines = content.normalizeNewlines :=
      Text.ofLines_lines content.normalizeNewlines
    rw [← hjoined]
    exact textOf_whole hne
  inverted := by
    intro n i j hn hji
    obtain ⟨l, hl⟩ := exists_line hn
    have hnone : (l.take j).drop i = [] :=
      List.drop_eq_nil_of_le (Nat.le_trans (List.length_take_le j l) hji)
    rw [textOf_line hl, hnone]

end SourceText

end WorkspaceLink
