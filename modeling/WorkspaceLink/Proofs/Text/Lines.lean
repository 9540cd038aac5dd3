import WorkspaceLink.Text.Basic

/-! Texts cut at a character. No piece holds the character, and lines that are put together are the
lines of the text that they make. Every carriage return before a newline is left out, and nothing
else. -/

namespace WorkspaceLink.Text

variable {c : Char} {s t piece : Text} {before after ls : List Text}

theorem not_mem_of_mem_splitOn (h : piece ∈ s.splitOn c) : c ∉ piece := by
  induction s generalizing piece with
  | nil =>
    rw [List.mem_singleton.mp h]
    exact List.not_mem_nil
  | cons d s ih =>
    -- the first character ends a piece, or it is put in front of the first one
    rw [List.splitOn_cons_eq_if_modifyHead] at h
    split at h
    · rcases List.mem_cons.mp h with rfl | h
      · exact List.not_mem_nil
      · exact ih h
    · rename_i hd
      obtain ⟨first, pieces, hpieces⟩ := List.exists_cons_of_ne_nil (List.splitOn_ne_nil c s)
      rw [hpieces] at h ih
      rcases List.mem_cons.mp h with rfl | h
      · rw [List.mem_cons, not_or]
        exact ⟨fun heq => hd (beq_iff_eq.mpr heq.symm), ih List.mem_cons_self⟩
      · exact ih (List.mem_cons_of_mem _ h)

theorem lines_ofLines (hls : ls ≠ []) (h : ∀ l ∈ ls, '\n' ∉ l) : (ofLines ls).lines = ls :=
  List.splitOn_intercalate '\n' h hls

theorem lines_of_not_mem (h : '\n' ∉ s) : s.lines = [s] := by
  have hline : ofLines [s] = s := List.intercalate_singleton
  rw [← hline, lines_ofLines (List.cons_ne_nil _ _) (by simpa using h), hline]

theorem ofLines_lines (s : Text) : ofLines s.lines = s :=
  List.intercalate_splitOn '\n'

/-- Lines that end with newlines are those before an empty last one. -/
theorem terminated_eq (ls : List Text) : terminated ls = ofLines (ls ++ [[]]) := by
  induction ls with
  | nil => rfl
  | cons l ls ih =>
    have hne : ls ++ [[]] ≠ [] := List.append_ne_nil_of_right_ne_nil _ (List.cons_ne_nil _ _)
    rw [ofLines] at ih ⊢
    rw [List.cons_append, List.intercalate_cons_of_ne_nil hne, ← ih]
    rfl

theorem lines_terminated (h : ∀ l ∈ ls, '\n' ∉ l) : (terminated ls).lines = ls ++ [[]] := by
  rw [terminated_eq, lines_ofLines (List.append_ne_nil_of_right_ne_nil _ (List.cons_ne_nil _ _))]
  exact List.forall_mem_append.mpr ⟨h, List.forall_mem_singleton.mpr List.not_mem_nil⟩

/-- A line may be cut in two, and the text that lines make with it. -/
theorem ofLines_append_cons : ofLines (before ++ (s ++ t) :: after) =
    ofLines (before ++ [s]) ++ ofLines (t :: after) := by
  induction before with
  | nil =>
    rw [List.nil_append, List.nil_append]
    cases after with
    | nil => simp only [ofLines, List.intercalate_singleton]
    | cons l after =>
      simp only [ofLines, List.intercalate_cons_cons, List.intercalate_singleton, List.append_assoc]
  | cons l before ih =>
    have hne (x : Text) (ls : List Text) : before ++ x :: ls ≠ [] :=
      List.append_ne_nil_of_right_ne_nil _ (List.cons_ne_nil _ _)
    simp only [ofLines] at ih ⊢
    rw [List.cons_append, List.cons_append, List.intercalate_cons_of_ne_nil (hne _ _),
      List.intercalate_cons_of_ne_nil (hne _ _), ih]
    simp only [List.append_assoc]

/-- `t` is `s` with a newline in place of each carriage return and newline. -/
def NewlinesReplaced (s t : Text) : Prop :=
  ∃ pieces, pieces ≠ [] ∧ (∀ piece ∈ pieces, ¬['\r', '\n'] <:+: piece) ∧
    s = joined ['\r', '\n'] pieces ∧ t = joined ['\n'] pieces

theorem joined_cons (sep s : Text) (h : ls ≠ []) :
    joined sep (s :: ls) = s ++ sep ++ joined sep ls :=
  List.intercalate_cons_of_ne_nil h

theorem joined_cons_head (sep : Text) (c : Char) (ls : List Text) :
    joined sep ((c :: piece) :: ls) = c :: joined sep (piece :: ls) := by
  cases ls with
  | nil => simp only [joined, List.intercalate_singleton]
  | cons l ls => simp only [joined, List.intercalate_cons_cons, List.cons_append]

theorem newlinesReplaced_normalizeNewlines (s : Text) : NewlinesReplaced s s.normalizeNewlines := by
  fun_induction normalizeNewlines s with
  | case1 s ih =>
    obtain ⟨pieces, hne, hpieces, rfl, ht⟩ := ih
    refine ⟨[] :: pieces, List.cons_ne_nil _ _, ?_, ?_, ?_⟩
    · rw [List.forall_mem_cons]
      exact ⟨by simp, hpieces⟩
    · rw [joined_cons _ _ hne]
      rfl
    · rw [ht, joined_cons _ _ hne]
      rfl
  | case2 c s hc ih =>
    obtain ⟨pieces, hne, hpieces, rfl, ht⟩ := ih
    obtain ⟨piece, pieces, rfl⟩ := List.exists_cons_of_ne_nil hne
    rw [List.forall_mem_cons] at hpieces
    refine ⟨(c :: piece) :: pieces, List.cons_ne_nil _ _, ?_, ?_, ?_⟩
    · rw [List.forall_mem_cons]
      refine ⟨fun hinfix => ?_, hpieces.2⟩
      rcases List.infix_cons_iff.mp hinfix with hbegin | hinside
      · -- a carriage return before a newline is no first character
        obtain ⟨hc', hbegin⟩ := List.cons_prefix_cons.mp hbegin
        obtain ⟨rest, rfl⟩ := hbegin
        exact hc _ hc'.symm (joined_cons_head _ '\n' _)
      · exact hpieces.1 hinside
    · rw [joined_cons_head]
    · rw [joined_cons_head, ht]
  | case3 => exact ⟨[[]], List.cons_ne_nil _ _, by simp, rfl, rfl⟩

theorem normalizeNewlines_of_not_mem (h : '\r' ∉ s) : s.normalizeNewlines = s := by
  fun_induction normalizeNewlines s with
  | case1 s ih => exact absurd List.mem_cons_self h
  | case2 c s hc ih => rw [ih fun hs => h (List.mem_cons_of_mem c hs)]
  | case3 => rfl

theorem lines_replicate (n : Nat) :
    lines (List.replicate n '\n') = List.replicate (n + 1) [] := by
  induction n with
  | zero => rfl
  | succ n ih =>
    rw [lines] at ih ⊢
    rw [List.replicate_succ, List.splitOn_cons_eq_if_modifyHead, if_pos (beq_self_eq_true _), ih]
    rfl

end WorkspaceLink.Text
