import WorkspaceLink.Proofs.Text.Blank
import WorkspaceLink.Proofs.Text.Lines
import WorkspaceLink.Report.Diagnostics

/-! What is shown of the line of a diagnostic. It is always a piece of the line without its blanks,
of bounded length. The piece begins half the limit before the column, but counted in the line with
its blanks, so that a long line is shown around the column only if it is not indented too far. -/

namespace WorkspaceLink.DiagnosticsReport

open Text

variable {content l s shown before piece after : Text} {c : Char} {d : Diagnostic}
  {i indent length column : ℕ}

/-! ### Pieces -/

/-- Whether a text is a piece of another, but for marks of what is clipped away on either side. -/
structure IsPiece (s before piece after shown : Text) : Prop where
  whole : s = before ++ piece ++ after
  marked : ∃ front ∈ [[], ellipsis], ∃ back ∈ [[], ellipsis], shown = front ++ piece ++ back

theorem IsPiece.mem (h : IsPiece s before piece after shown) (hstart : before.length ≤ i)
    (hstop : i < before.length + piece.length) (hc : s[i]? = some c) : c ∈ shown := by
  obtain ⟨front, -, back, -, rfl⟩ := h.marked
  rw [h.whole, List.append_assoc, List.getElem?_append_right hstart,
    List.getElem?_append_left (by omega)] at hc
  rw [List.append_assoc]
  exact List.mem_append_right front (List.mem_append_left back (List.mem_of_getElem? hc))

/-- Where what is shown of a line begins in the line without its blanks. -/
def clipStart (length column : ℕ) : ℕ :=
  if length ≤ contextLimit then 0 else column - contextLimit / 2

/-- How many characters are shown of a line that goes on for as long. -/
def clipCount (length column : ℕ) : ℕ :=
  if clipStart length column = 0 then contextLimit else contextLimit - ellipsis.length

theorem clipEnd_eq (s : Text) : ∃ back ∈ [[], ellipsis],
    (if contextLimit < s.length then s.take contextLimit ++ ellipsis else s) =
      s.take contextLimit ++ back := by
  split
  · exact ⟨ellipsis, by simp, rfl⟩
  · next hshort => exact ⟨[], by simp, by rw [List.take_of_length_le (by omega), List.append_nil]⟩

theorem clip_isPiece (l : Text) (column : ℕ) :
    IsPiece l.trim (l.trim.take (clipStart l.trim.length column))
      ((l.trim.drop (clipStart l.trim.length column)).take (clipCount l.trim.length column))
      ((l.trim.drop (clipStart l.trim.length column)).drop (clipCount l.trim.length column))
      (clip l column) := by
  refine ⟨?_, ?_⟩
  · rw [List.append_assoc, List.take_append_drop, List.take_append_drop]
  unfold clip
  dsimp only
  generalize l.trim = s
  rcases Nat.lt_or_ge contextLimit s.length with hlong | hshort
  · have hstart : clipStart s.length column = column - contextLimit / 2 :=
      if_neg (Nat.not_le_of_lt hlong)
    rw [if_neg (Nat.not_le_of_lt hlong), hstart]
    rcases Nat.lt_or_ge (contextLimit / 2) column with hfar | hnear
    · have hcount : clipCount s.length column = contextLimit - ellipsis.length :=
        if_neg (by omega)
      have hfront : ellipsis.take contextLimit = ellipsis := rfl
      obtain ⟨back, hback, heq⟩ := clipEnd_eq (ellipsis ++ s.drop (column - contextLimit / 2))
      rw [if_pos hfar, heq, hcount, List.take_append, hfront]
      exact ⟨ellipsis, by simp, back, hback, rfl⟩
    · have hcount : clipCount s.length column = contextLimit := if_pos (by omega)
      obtain ⟨back, hback, heq⟩ := clipEnd_eq s
      rw [if_neg (Nat.not_lt_of_le hnear), heq, hcount, Nat.sub_eq_zero_of_le hnear, List.drop_zero]
      exact ⟨[], by simp, back, hback, rfl⟩
  · have hstart : clipStart s.length column = 0 := if_pos hshort
    have hcount : clipCount s.length column = contextLimit := if_pos hstart
    rw [if_pos hshort, hstart, hcount, List.drop_zero, List.take_of_length_le hshort]
    exact ⟨[], by simp, [], by simp, by rw [List.nil_append, List.append_nil]⟩

theorem clip_length_le (l : Text) (column : ℕ) :
    (clip l column).length ≤ contextLimit + ellipsis.length := by
  unfold clip
  dsimp only
  split
  · omega
  · generalize (if contextLimit / 2 < column then _ else _ : Text) = s
    split
    · rw [List.length_append, List.length_take]
      omega
    · omega

/-! ### Columns -/

/-- Whether a text is a piece of a line without its blanks, but for marks of what is clipped away,
and the piece has the character at a column of the line. -/
def ShowsColumn (l : Text) (column : ℕ) (shown : Text) : Prop :=
  ∃ before piece after, IsPiece l.trim before piece after shown ∧
    l.indentation + before.length ≤ column ∧
    column < l.indentation + before.length + piece.length

theorem clip_showsColumn (hstart : l.indentation ≤ column)
    (hstop : column < l.indentation + l.trim.length)
    (hfits : l.trim.length ≤ contextLimit ∨ l.indentation ≤ contextLimit / 2) :
    ShowsColumn l column (clip l column) := by
  refine ⟨_, _, _, clip_isPiece l column, ?_⟩
  have hlimit : contextLimit = 80 := rfl
  have hellipsis : ellipsis.length = 3 := rfl
  rw [List.length_take, List.length_take, List.length_drop, clipCount, clipStart, hlimit, hellipsis]
  rw [hlimit] at hfits
  split <;> split <;> omega

/-- A long line that is indented by more than half the limit is clipped to what is behind the
column. -/
theorem not_mem_clip (hlong : contextLimit < l.trim.length)
    (hdeep : contextLimit / 2 < l.indentation) (hcolumn : l.indentation ≤ column)
    (hc : c ∉ ellipsis) (hrest : c ∉ l.trim.drop (column - l.indentation + 1)) :
    c ∉ clip l column := by
  intro hmem
  have hstart : clipStart l.trim.length column = column - contextLimit / 2 :=
    if_neg (Nat.not_le_of_lt hlong)
  have hbehind : column - l.indentation + 1 ≤ clipStart l.trim.length column := by
    omega
  have hmarks : ∀ s ∈ [[], ellipsis], c ∉ s := by
    simp [hc]
  obtain ⟨front, hfront, back, hback, heq⟩ := (clip_isPiece l column).marked
  rw [heq, List.mem_append, List.mem_append] at hmem
  rcases hmem with (hmem | hmem) | hmem
  · exact hmarks front hfront hmem
  · exact hrest (List.drop_subset_drop_left _ hbehind (List.mem_of_mem_take hmem))
  · exact hmarks back hback hmem

/-- Whether a diagnostic at a column is about a line with so many blanks in front of so many
characters. -/
structure HasLayout (content : Text) (d : Diagnostic) (l : Text) (indent length column : ℕ) :
    Prop where
  line : (SourceText.ofContent content).line? d.range.start.line = some l
  indentation : l.indentation = indent
  length : l.trim.length = length
  column : d.range.start.character = column

/-- Whether diagnostics at a column of such lines are always shown with the character there. -/
def AlwaysShown (indent length column : ℕ) : Prop :=
  ∀ content d l, HasLayout content d l indent length column →
    ∃ shown, lineContext? (.ofContent content) d = some shown ∧ ShowsColumn l column shown

/-! ### Lines that are indented far -/

/-- Letters of one kind after blanks, with another letter at a column. -/
def markedLine (indent length column : ℕ) : Text :=
  List.replicate indent ' ' ++ (List.replicate length 'y').set (column - indent) 'x'

/-- A diagnostic at a column of the first line. -/
def diagnosticAt (column : ℕ) : Diagnostic :=
  ⟨⟨⟨0, column⟩, ⟨0, column⟩⟩, none, none, none, []⟩

theorem eq_of_mem_markedLetters (h : c ∈ (List.replicate length 'y').set i 'x') :
    c = 'y' ∨ c = 'x' :=
  (List.mem_or_eq_of_mem_set h).imp_left List.eq_of_mem_replicate

theorem not_isBlank_of_mem_markedLetters (h : c ∈ (List.replicate length 'y').set i 'x') :
    isBlank c = false := by
  rcases eq_of_mem_markedLetters h with rfl | rfl <;> decide

theorem markedLine_trim (indent length column : ℕ) : (markedLine indent length column).trim =
    (List.replicate length 'y').set (column - indent) 'x' :=
  trim_append (fun _ => isBlank_of_mem_replicate) fun _ => not_isBlank_of_mem_markedLetters

theorem markedLine_indentation (indent length column : ℕ) :
    (markedLine indent length column).indentation = indent := by
  rw [markedLine, indentation_append (fun _ => isBlank_of_mem_replicate)
    fun _ => not_isBlank_of_mem_markedLetters, List.length_replicate]

theorem hasLayout_markedLine (indent length column : ℕ) :
    HasLayout (markedLine indent length column) (diagnosticAt column)
      (markedLine indent length column) indent length column := by
  refine ⟨?_, markedLine_indentation _ _ _, ?_, rfl⟩
  · have hletters : ∀ c ∈ markedLine indent length column, c ≠ '\r' ∧ c ≠ '\n' := by
      intro c hc
      rcases List.mem_append.mp hc with hc | hc
      · rw [List.eq_of_mem_replicate hc]
        decide
      · rcases eq_of_mem_markedLetters hc with rfl | rfl <;> decide
    rw [SourceText.ofContent, normalizeNewlines_of_not_mem fun hmem => (hletters _ hmem).1 rfl,
      lines_of_not_mem fun hmem => (hletters _ hmem).2 rfl]
    rfl
  · rw [markedLine_trim, List.length_set, List.length_replicate]

theorem not_showsColumn_markedLine (hlong : contextLimit < length)
    (hdeep : contextLimit / 2 < indent) (hstart : indent ≤ column)
    (hstop : column < indent + length) :
    ¬ShowsColumn (markedLine indent length column) column
      (clip (markedLine indent length column) column) := by
  rintro ⟨before, piece, after, hpiece, hfirst, hlast⟩
  have htrim := markedLine_trim indent length column
  have hindent := markedLine_indentation indent length column
  rw [hindent] at hfirst hlast
  -- the letter at the column would be shown, but it stands nowhere in what is left
  have hshown : 'x' ∈ clip (markedLine indent length column) column := by
    refine hpiece.mem (i := column - indent) (by omega) (by omega) ?_
    rw [htrim, List.getElem?_set_self (by rw [List.length_replicate]; omega)]
  refine not_mem_clip ?_ ?_ ?_ (by decide) ?_ hshown
  · rwa [htrim, List.length_set, List.length_replicate]
  · rwa [hindent]
  · rwa [hindent]
  · rw [htrim, hindent, List.drop_set_of_lt (Nat.lt_succ_self _), List.drop_replicate]
    intro hmem
    cases List.eq_of_mem_replicate hmem

/-- What is shown of a line is always a piece of it of bounded length. It has the character at the
column, whatever the line says, exactly if the line is short or indented by no more than half the
limit. -/
theorem lineContext?_shows (hstart : indent ≤ column) (hstop : column < indent + length) :
    (∀ source d l, source.line? d.range.start.line = some l →
      ∃ shown before piece after, lineContext? source d = some shown ∧
        shown.length ≤ contextLimit + ellipsis.length ∧
        IsPiece l.trim before piece after shown) ∧
    (AlwaysShown indent length column ↔ length ≤ contextLimit ∨ indent ≤ contextLimit / 2) := by
  refine ⟨fun source d l hline => ?_, fun halways => ?_, fun hfits content d l hlayout => ?_⟩
  · rw [lineContext?, hline, Option.map_some]
    exact ⟨_, _, _, _, rfl, clip_length_le _ _, clip_isPiece _ _⟩
  · by_contra hdeep
    rw [not_or, Nat.not_le, Nat.not_le] at hdeep
    have hlayout := hasLayout_markedLine indent length column
    obtain ⟨shown, hcontext, hshows⟩ := halways _ _ _ hlayout
    rw [lineContext?, hlayout.line, Option.map_some] at hcontext
    rw [← Option.some.inj hcontext] at hshows
    exact not_showsColumn_markedLine hdeep.1 hdeep.2 hstart hstop hshows
  · obtain ⟨hline, rfl, rfl, rfl⟩ := hlayout
    rw [lineContext?, hline, Option.map_some]
    exact ⟨_, rfl, clip_showsColumn hstart hstop hfits⟩

theorem halfIndentedLine_shown : 40 ≤ 90 ∧ 90 < 40 + 100 ∧ AlwaysShown 40 100 90 := by
  have hstart : 40 ≤ 90 := by decide
  have hstop : 90 < 40 + 100 := by decide
  exact ⟨hstart, hstop, (lineContext?_shows hstart hstop).2.mpr (.inr (Nat.le_refl _))⟩

/-- A diagnostic at the first letter of 81 after 41 blanks: only letters behind it are shown. -/
theorem deepLine_not_shown :
    HasLayout (markedLine 41 81 41) (diagnosticAt 41) (markedLine 41 81 41) 41 81 41 ∧
    lineContext? (.ofContent (markedLine 41 81 41)) (diagnosticAt 41) =
      some (ellipsis ++ List.replicate 77 'y' ++ ellipsis) ∧
    ¬ShowsColumn (markedLine 41 81 41) 41 (ellipsis ++ List.replicate 77 'y' ++ ellipsis) := by
  have hclip : clip (markedLine 41 81 41) 41 = ellipsis ++ List.replicate 77 'y' ++ ellipsis := by
    decide +kernel
  have hlayout := hasLayout_markedLine 41 81 41
  refine ⟨hlayout, ?_, ?_⟩
  · rw [lineContext?, hlayout.line, Option.map_some]
    exact congrArg some hclip
  · rw [← hclip]
    exact not_showsColumn_markedLine (by decide) (by decide) (by decide) (by decide)

end WorkspaceLink.DiagnosticsReport
