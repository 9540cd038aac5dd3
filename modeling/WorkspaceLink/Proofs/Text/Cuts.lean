import Mathlib.Data.List.Basic
import WorkspaceLink.Text.Basic

/-! What follows the front of a text, and the parts of a text before and after a separator. -/

namespace WorkspaceLink.Text

variable {c : Char} {s sep front back rest : Text}

theorem afterFront?_eq_some_iff : afterFront? front s = some rest ↔ front ++ rest = s :=
  List.isPrefixOf?_eq_some_iff_append_eq

theorem afterFront?_append (front back : Text) : afterFront? front (front ++ back) = some back :=
  afterFront?_eq_some_iff.mpr rfl

theorem afterFront?_eq_none_iff : afterFront? front s = none ↔ ¬front <+: s := by
  rw [Option.eq_none_iff_forall_ne_some, List.IsPrefix, not_exists]
  exact forall_congr' fun _ => not_congr afterFront?_eq_some_iff

theorem afterFront?_eq_none (h : c ∉ s.head?) : afterFront? (c :: sep) s = none := by
  rw [afterFront?_eq_none_iff]
  rintro ⟨rest, rfl⟩
  exact h rfl

theorem cut?_eq_none_iff : cut? sep s = none ↔ ¬sep <:+: s := by
  induction s with
  | nil =>
    rw [cut?, List.infix_nil]
    cases sep <;> simp
  | cons c s ih =>
    rw [cut?, List.infix_cons_iff, not_or, ← ih, ← afterFront?_eq_none_iff]
    cases afterFront? sep (c :: s) <;> simp

theorem cut?_eq_none (h : c ∉ s) : cut? (c :: sep) s = none :=
  cut?_eq_none_iff.mpr fun hmem => h (hmem.subset List.mem_cons_self)

/-- A separator is found where its first character first stands. -/
theorem cut?_append (h : c ∉ front) :
    cut? (c :: sep) (front ++ (c :: sep ++ back)) = some (front, back) := by
  induction front with
  | nil => rw [List.nil_append, List.cons_append, cut?, ← List.cons_append, afterFront?_append]
  | cons d front ih =>
    rw [List.mem_cons, not_or] at h
    rw [List.cons_append, cut?, afterFront?_eq_none (by simpa using Ne.symm h.1), ih h.2]
    rfl

/-- A text is cut in one way where a character first stands. -/
theorem append_cons_inj {front' back' : Text} (h : c ∉ front) (h' : c ∉ front') :
    front ++ c :: back = front' ++ c :: back' ↔ front = front' ∧ back = back' := by
  constructor
  · intro heq
    have hcut : cut? [c] (front ++ ([c] ++ back)) = cut? [c] (front' ++ ([c] ++ back')) :=
      congrArg (cut? [c]) heq
    rw [cut?_append h, cut?_append h'] at hcut
    exact Prod.mk.inj (Option.some.inj hcut)
  · rintro ⟨rfl, rfl⟩
    rfl

/-- A text is cut in one way where a character last stands. -/
theorem append_cons_inj_last {front' back' : Text} (h : c ∉ back) (h' : c ∉ back') :
    front ++ c :: back = front' ++ c :: back' ↔ front = front' ∧ back = back' := by
  have hreverse : back.reverse ++ c :: front.reverse = back'.reverse ++ c :: front'.reverse ↔
      back.reverse = back'.reverse ∧ front.reverse = front'.reverse :=
    append_cons_inj (mt List.mem_reverse.mp h) (mt List.mem_reverse.mp h')
  rw [List.reverse_inj, List.reverse_inj, and_comm] at hreverse
  rw [← hreverse, ← List.reverse_inj]
  simp only [List.reverse_append, List.reverse_cons, List.append_assoc, List.singleton_append]

/-! ### Several texts -/

variable {ls ls' : List Text}

/-- Texts with a separator after each are told apart where none has the first character of it. -/
theorem flatMap_append_inj (h : ∀ l ∈ ls, c ∉ l) (h' : ∀ l ∈ ls', c ∉ l) :
    ls.flatMap (· ++ c :: sep) = ls'.flatMap (· ++ c :: sep) ↔ ls = ls' := by
  refine ⟨fun heq => ?_, congrArg _⟩
  induction ls generalizing ls' with
  | nil =>
    cases ls' with
    | nil => rfl
    | cons l' ls' => simp at heq
  | cons l ls ih =>
    cases ls' with
    | nil => simp at heq
    | cons l' ls' =>
      rw [List.forall_mem_cons] at h h'
      simp only [List.flatMap_cons, List.append_assoc, List.cons_append] at heq
      obtain ⟨rfl, hrest⟩ := (append_cons_inj h.1 h'.1).mp heq
      rw [ih h.2 h'.2 (List.append_cancel_left hrest)]

theorem joined_append (hls : ls ≠ []) : joined sep ls ++ sep = ls.flatMap (· ++ sep) := by
  induction ls with
  | nil => exact absurd rfl hls
  | cons l ls ih =>
    cases ls with
    | nil => simp [joined]
    | cons l' ls =>
      have hrest := ih (List.cons_ne_nil l' ls)
      simp only [joined, List.intercalate_cons_cons, List.flatMap_cons, List.append_assoc] at hrest ⊢
      rw [hrest]

/-- So they are with the separator between neighbours, if there are any. -/
theorem joined_inj (hls : ls ≠ []) (hls' : ls' ≠ []) (h : ∀ l ∈ ls, c ∉ l)
    (h' : ∀ l ∈ ls', c ∉ l) : joined (c :: sep) ls = joined (c :: sep) ls' ↔ ls = ls' := by
  rw [← flatMap_append_inj h h', ← joined_append hls, ← joined_append hls', List.append_left_inj]

end WorkspaceLink.Text
