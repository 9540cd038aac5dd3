import WorkspaceLink.Proofs.Scope.Slicing

/-! Whole lines come from a source in three ways: by their numbers, by a range, and around a line.
The three agree. Columns are capped at the last coordinate, so that a range misses what is behind it
on a longer line. -/

namespace WorkspaceLink

namespace SourceText

/-- What a window around line `n` is. Its range is that of the whole lines at most `radius` away,
down to the last one, `last`, and its text is that of these lines. Coordinates permitting, no line
of the source is left out for another reason than its distance, and the range ends with `last`. -/
structure WindowAround (source : SourceText) (n radius : Nat) (text : Text) (window : Range)
    (last : Text) : Prop where
  start : window.start = ⟨n - radius, 0⟩
  stopLine : window.stop.line = min (source.lineCount - 1) (coordAfter n radius)
  reach : source.lineCount ≤ coordBound →
    window.stop.line = min (source.lineCount - 1) (n + radius)
  stop : source.line? window.stop.line = some last ∧
    window.stop.character = min last.length lastCoord
  byLines : source.linesBetween window.start.line window.stop.line = .ok text
  byRange : source.textOf window = .ok text ↔ last.length ≤ lastCoord
  covers : ∀ l, source.line? n = some l → ∀ k, k ≤ l.length → k ≤ lastCoord →
    window.contains ⟨n, k⟩ = true

variable {source : SourceText} {first last n c : Nat} {l : Text}

/-- A range that ends inside its last line does not select all of its lines. -/
theorem textOf_wholeLines_iff (hle : first ≤ last) (hl : source.line? last = some l) :
    source.textOf ⟨⟨first, 0⟩, ⟨last, c⟩⟩ = .ok (Text.ofLines (source.slice first last)) ↔
      l.length ≤ c := by
  refine ⟨fun h => Decidable.byContradiction fun hshort => ?_, textOf_wholeLines hle hl⟩
  have hlt : c < l.length := Nat.lt_of_not_le hshort
  have hstart : (⟨first, 0⟩ : Position) ≤ ⟨last, c⟩ := by
    rw [Position.le_def]
    dsimp only
    omega
  have hstop : (⟨last, c⟩ : Position) ≤ ⟨last, l.length⟩ := .inr ⟨rfl, Nat.le_of_lt hlt⟩
  obtain ⟨hlast, -⟩ := List.getElem?_eq_some_iff.mp hl
  -- the rest of the last line follows what is selected, and must be empty
  obtain ⟨s, t, hs, ht, hst⟩ := textOf_append hstart hstop hlast
  rw [textOf_wholeLines hle hl (Nat.le_refl _)] at hst
  obtain rfl : Text.ofLines (source.slice first last) = s := Except.ok.inj (h.symm.trans hs)
  obtain rfl : t = [] := List.self_eq_append_right.mp (Except.ok.inj hst)
  rw [textOf_line hl, List.take_length] at ht
  have hrest : l.length ≤ c := List.drop_eq_nil_iff.mp (Except.ok.inj ht)
  omega

theorem contextWindow_windowAround (h : n < source.lineCount) (radius : Nat) :
    ∃ text window last, source.contextWindow n radius = .ok (text, window) ∧
      WindowAround source n radius text window last := by
  obtain ⟨last, hlast⟩ := exists_line (windowEnd_lt h radius)
  have hend := le_windowEnd h radius
  refine ⟨_, _, last, contextWindow_eq h radius hlast, rfl, Nat.min_comm _ _, ?_, ⟨hlast, rfl⟩, ?_,
    ?_, ?_⟩
  · intro hcount
    dsimp only
    rw [windowEnd, coordAfter, lastCoord]
    omega
  · exact linesBetween_eq (by dsimp only; omega) (windowEnd_lt h radius)
  · rw [textOf_wholeLines_iff (by omega) hlast]
    omega
  · intro l hl k hk hcoord
    rw [Range.contains_iff, Position.le_def, Position.le_def]
    dsimp only
    refine ⟨by omega, ?_⟩
    rcases Nat.lt_or_eq_of_le hend with hlt | heq
    · exact .inl hlt
    · -- on the last line of the window, whose end is that of the range
      rw [← heq, hl] at hlast
      obtain rfl := Option.some.inj hlast
      exact .inr ⟨heq, by omega⟩

/-- Lines by their numbers are those of the range from the beginning of the first to the end of the
last, and there is a window around each line. -/
theorem extractions_agree (source : SourceText) :
    (∀ first last c l, first ≤ last → source.line? last = some l → l.length ≤ c →
      source.linesBetween first last = .ok (Text.ofLines (source.slice first last)) ∧
      source.textOf ⟨⟨first, 0⟩, ⟨last, c⟩⟩ = .ok (Text.ofLines (source.slice first last))) ∧
    ∀ n radius, n < source.lineCount → ∃ text window last,
      source.contextWindow n radius = .ok (text, window) ∧
        WindowAround source n radius text window last := by
  refine ⟨fun first last c l hle hl hc => ?_, fun n radius h => contextWindow_windowAround h radius⟩
  obtain ⟨hlast, -⟩ := List.getElem?_eq_some_iff.mp hl
  exact ⟨linesBetween_eq hle hlast, textOf_wholeLines hle hl hc⟩

def umlautSource : SourceText := .ofContent "ä\r\n\r\nö = 1"

theorem umlautSource_extractions :
    (0 ≤ 2 ∧ umlautSource.line? 2 = some "ö = 1" ∧ ("ö = 1" : Text).length ≤ 9 ∧
      umlautSource.linesBetween 0 2 = .ok "ä\n\nö = 1" ∧
      umlautSource.textOf ⟨⟨0, 0⟩, ⟨2, 9⟩⟩ = .ok "ä\n\nö = 1") ∧
    1 < umlautSource.lineCount ∧ ∃ text window last,
      umlautSource.contextWindow 1 lastCoord = .ok (text, window) ∧
        WindowAround umlautSource 1 lastCoord text window last := by
  obtain ⟨hwhole, hwindow⟩ := extractions_agree umlautSource
  have hline : umlautSource.line? 2 = some "ö = 1" := by decide
  have hlength : ("ö = 1" : Text).length ≤ 9 := by decide
  have hcount : 1 < umlautSource.lineCount := by decide
  obtain ⟨hlines, hrange⟩ := hwhole 0 2 9 _ (Nat.zero_le 2) hline hlength
  exact ⟨⟨Nat.zero_le 2, hline, hlength, hlines, hrange⟩, hcount, hwindow 1 lastCoord hcount⟩

example : umlautSource.contextWindow 1 lastCoord =
    .ok ("ä\n\nö = 1", ⟨⟨0, 0⟩, ⟨2, 5⟩⟩) :=
  rfl

/-- A line of `n` characters. -/
def lineOfLength (n : Nat) : SourceText :=
  .ofContent (List.replicate n 'x')

theorem line?_lineOfLength (n : Nat) : (lineOfLength n).line? 0 = some (List.replicate n 'x') := by
  rw [lineOfLength, ofContent, Text.normalizeNewlines_of_not_mem (by simp), line?,
    Text.lines_of_not_mem (by simp), List.getElem?_cons_zero]

theorem contextWindow_lineOfLength {n : Nat} (hlong : lastCoord < n) : ∃ text,
    (lineOfLength n).contextWindow 0 0 = .ok (text, ⟨⟨0, 0⟩, ⟨0, lastCoord⟩⟩) ∧
    (lineOfLength n).linesBetween 0 0 = .ok text ∧
    (lineOfLength n).textOf ⟨⟨0, 0⟩, ⟨0, lastCoord⟩⟩ ≠ .ok text := by
  obtain ⟨hcount, -⟩ := List.getElem?_eq_some_iff.mp (line?_lineOfLength n)
  have hend : (lineOfLength n).windowEnd 0 0 = 0 := by
    have hafter : coordAfter 0 0 = 0 := by decide
    rw [windowEnd, hafter, Nat.zero_min]
  have hwindow := contextWindow_eq hcount 0 (hend ▸ line?_lineOfLength n)
  rw [hend, List.length_replicate, Nat.min_eq_right (Nat.le_of_lt hlong), Nat.sub_zero] at hwindow
  refine ⟨_, hwindow, linesBetween_eq (Nat.le_refl 0) hcount, fun hwhole => ?_⟩
  have hshort := (textOf_wholeLines_iff (Nat.le_refl 0) (line?_lineOfLength n)).mp hwhole
  rw [List.length_replicate] at hshort
  exact Nat.not_le_of_lt hlong hshort

/-- The window around a line that goes on past the last coordinate ends before the line does, and
its range selects less than its text. -/
theorem overlongLine_cut : ∃ text window,
    (lineOfLength coordBound).contextWindow 0 0 = .ok (text, window) ∧
    (∃ l, (lineOfLength coordBound).line? 0 = some l ∧ window.stop.character < l.length) ∧
    (lineOfLength coordBound).linesBetween 0 0 = .ok text ∧
    (lineOfLength coordBound).textOf window ≠ .ok text := by
  have hlong : lastCoord < coordBound := by decide
  obtain ⟨text, hwindow, hlines, hrange⟩ := contextWindow_lineOfLength hlong
  refine ⟨text, _, hwindow, ⟨_, line?_lineOfLength coordBound, ?_⟩, hlines, hrange⟩
  rwa [List.length_replicate]

end SourceText

end WorkspaceLink
