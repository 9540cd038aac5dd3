import WorkspaceLink.Scope.Bracket

/-! The grammar of what stands between a bracket and the one that closes it. The stack with which a
line is scanned is empty where the grammar says, and nowhere before. -/

namespace WorkspaceLink

namespace Bracket

/-- A character that closes brackets of some kind. -/
def IsCloser (c : Char) : Prop :=
  ∃ o, closerOf? o = some c

/-- What may stand between a bracket and its closing bracket `closer`: characters that are no
brackets, closing brackets other than `closer` that may stray, and brackets that are closed, with
what stands in them. -/
inductive Interior (Stray : Char → Prop) : Char → Text → Prop
  | nil {closer} : Interior Stray closer []
  | plain {closer c s} (hopener : closerOf? c = none) (hcloser : ¬IsCloser c)
      (hs : Interior Stray closer s) : Interior Stray closer (c :: s)
  | stray {closer c s} (hcloser : IsCloser c) (hne : c ≠ closer) (hstray : Stray c)
      (hs : Interior Stray closer s) : Interior Stray closer (c :: s)
  | group {closer c inner t s} (hopener : closerOf? c = some inner) (ht : Interior Stray inner t)
      (hs : Interior Stray closer s) : Interior Stray closer (c :: (t ++ inner :: s))

/-- A text that closes brackets, given by what closes them and the innermost first, and ends with
the last of them. -/
inductive Closes : List Char → Text → Prop
  | nil : Closes [] []
  | cons {closer s closers t} (hcloser : IsCloser closer) (hs : Interior (fun _ => True) closer s)
      (ht : Closes closers t) : Closes (closer :: closers) (s ++ closer :: t)

variable {c closer inner next next' : Char} {rest rest' closers : List Char} {s t u : Text}
  {column n : Nat} {Stray : Char → Prop}

theorem closerOf?_eq_some_iff : closerOf? c = some closer ↔
    (c, closer) ∈ [('(', ')'), ('[', ']'), ('{', '}'), ('<', '>')] := by
  simp only [List.mem_cons, Prod.mk.injEq, List.not_mem_nil, or_false]
  constructor
  · intro h
    unfold closerOf? at h
    split at h <;> cases h <;> simp
  · rintro (⟨rfl, rfl⟩ | ⟨rfl, rfl⟩ | ⟨rfl, rfl⟩ | ⟨rfl, rfl⟩) <;> rfl

theorem isCloser_of_closerOf? (h : closerOf? c = some closer) : IsCloser closer :=
  ⟨c, h⟩

theorem isCloser_iff : IsCloser c ↔ c ∈ [')', ']', '}', '>'] := by
  simp [IsCloser, closerOf?_eq_some_iff, exists_or]

instance : DecidablePred IsCloser :=
  fun _ => decidable_of_iff _ isCloser_iff.symm

theorem Interior.replicate (hopener : closerOf? c = none) (hcloser : ¬IsCloser c) (n : Nat) :
    Interior Stray closer (List.replicate n c) := by
  induction n with
  | zero => exact .nil
  | succ n ih => exact .plain hopener hcloser ih

/-- No opening bracket closes another. -/
theorem not_isCloser_of_closerOf? (h : closerOf? c = some closer) : ¬IsCloser c := by
  simp only [closerOf?_eq_some_iff, List.mem_cons, Prod.mk.injEq, List.not_mem_nil, or_false] at h
  rcases h with ⟨rfl, -⟩ | ⟨rfl, -⟩ | ⟨rfl, -⟩ | ⟨rfl, -⟩ <;> decide

theorem closerOf?_of_isCloser (h : IsCloser c) : closerOf? c = none := by
  cases hc : closerOf? c with
  | none => rfl
  | some closer => exact absurd h (not_isCloser_of_closerOf? hc)

/-! ### The stack of the scan -/

theorem not_closes_nil : ¬Closes (next :: rest) [] := by
  intro h
  generalize ht : ([] : Text) = t at h
  cases h with
  | @cons _ s _ t => cases s <;> cases ht

theorem closes_nil_iff : Closes [] t ↔ t = [] := by
  constructor
  · rintro ⟨⟩
    rfl
  · rintro rfl
    exact .nil

theorem closes_cons_iff : Closes (next :: rest) t ↔ IsCloser next ∧ ∃ s u,
    t = s ++ next :: u ∧ Interior (fun _ => True) next s ∧ Closes rest u := by
  constructor
  · rintro ⟨⟩
    exact ⟨‹_›, _, _, rfl, ‹_›, ‹_›⟩
  · rintro ⟨hcloser, s, u, rfl, hs, hu⟩
    exact .cons hcloser hs hu

/-- The first character is the bracket that is wanted next, or it opens one that is then wanted
before, or it changes nothing. -/
theorem closes_cases (h : Closes (next :: rest) (c :: t)) :
    (c = next ∧ Closes rest t) ∨
    (∃ inner, closerOf? c = some inner ∧ Closes (inner :: next :: rest) t) ∨
    (closerOf? c = none ∧ c ≠ next ∧ Closes (next :: rest) t) := by
  obtain ⟨hnext, s, u, heq, hs, hu⟩ := closes_cons_iff.mp h
  cases hs with
  | nil =>
    obtain ⟨rfl, rfl⟩ := List.cons_eq_cons.mp heq
    exact .inl ⟨rfl, hu⟩
  | plain hopener hcloser hs =>
    obtain ⟨rfl, rfl⟩ := List.cons_eq_cons.mp heq
    refine .inr (.inr ⟨hopener, ?_, .cons hnext hs hu⟩)
    rintro rfl
    exact hcloser hnext
  | stray hcloser hne hstray hs =>
    obtain ⟨rfl, rfl⟩ := List.cons_eq_cons.mp heq
    exact .inr (.inr ⟨closerOf?_of_isCloser hcloser, hne, .cons hnext hs hu⟩)
  | @group _ _ inner a s hopener ha hs =>
    obtain ⟨rfl, ht⟩ := List.cons_eq_cons.mp heq
    have hinner : Closes (inner :: next :: rest) (a ++ inner :: (s ++ next :: u)) :=
      .cons (isCloser_of_closerOf? hopener) ha (.cons hnext hs hu)
    refine .inr (.inl ⟨inner, hopener, ?_⟩)
    rwa [ht, List.append_eq, List.append_assoc, List.cons_append]

theorem closes_opener_iff (h : closerOf? c = some inner) :
    Closes (next :: rest) (c :: t) ↔ Closes (inner :: next :: rest) t := by
  constructor
  · intro ht
    rcases closes_cases ht with ⟨rfl, -⟩ | ⟨inner', hinner, ht'⟩ | ⟨hopener, -⟩
    · exact absurd (closes_cons_iff.mp ht).1 (not_isCloser_of_closerOf? h)
    · obtain rfl : inner = inner' := Option.some.inj (h.symm.trans hinner)
      exact ht'
    · rw [h] at hopener
      cases hopener
  · intro ht
    obtain ⟨-, a, u, rfl, ha, hu⟩ := closes_cons_iff.mp ht
    obtain ⟨hnext, s, v, rfl, hs, hv⟩ := closes_cons_iff.mp hu
    have hgroup := Closes.cons hnext (.group h ha hs) hv
    rwa [List.cons_append, List.append_assoc, List.cons_append] at hgroup

theorem closes_closer_iff (hnext : IsCloser next) :
    Closes (next :: rest) (next :: t) ↔ Closes rest t := by
  constructor
  · intro ht
    rcases closes_cases ht with ⟨-, ht'⟩ | ⟨inner, hinner, -⟩ | ⟨-, hne, -⟩
    · exact ht'
    · exact absurd hnext (not_isCloser_of_closerOf? hinner)
    · exact absurd rfl hne
  · exact Closes.cons hnext .nil

theorem closes_other_iff (hopener : closerOf? c = none) (hne : c ≠ next) :
    Closes (next :: rest) (c :: t) ↔ Closes (next :: rest) t := by
  constructor
  · intro ht
    rcases closes_cases ht with ⟨heq, -⟩ | ⟨inner, hinner, -⟩ | ⟨-, -, ht'⟩
    · exact absurd heq hne
    · rw [hopener] at hinner
      cases hinner
    · exact ht'
  · intro ht
    obtain ⟨hnext, s, u, rfl, hs, hu⟩ := closes_cons_iff.mp ht
    by_cases hcloser : IsCloser c
    · exact .cons hnext (.stray hcloser hne trivial hs) hu
    · exact .cons hnext (.plain hopener hcloser hs) hu

/-- A text that closes a stack of brackets closes it nowhere before its end. -/
theorem eq_nil_of_closes_append (h : Closes closers t) (hu : Closes closers (t ++ u)) : u = [] := by
  induction t generalizing closers with
  | nil =>
    cases closers with
    | nil => exact closes_nil_iff.mp hu
    | cons next rest => exact absurd h not_closes_nil
  | cons c t ih =>
    cases closers with
    | nil => exact absurd (closes_nil_iff.mp h) (List.cons_ne_nil c t)
    | cons next rest =>
      rw [List.cons_append] at hu
      rcases closes_cases h with ⟨rfl, ht⟩ | ⟨inner, hinner, ht⟩ | ⟨hopener, hne, ht⟩
      · exact ih ht ((closes_closer_iff (closes_cons_iff.mp h).1).mp hu)
      · exact ih ht ((closes_opener_iff hinner).mp hu)
      · exact ih ht ((closes_other_iff hopener hne).mp hu)

theorem eq_of_closes_prefix (ht : Closes closers t) (hu : Closes closers u) (hts : t <+: s)
    (hus : u <+: s) : t = u := by
  rcases List.prefix_or_prefix_of_prefix hts hus with ⟨v, rfl⟩ | ⟨v, rfl⟩
  · rw [eq_nil_of_closes_append ht hu, List.append_nil]
  · rw [eq_nil_of_closes_append hu ht, List.append_nil]

/-! ### The scan of a line -/

theorem closeInLine_opener (h : closerOf? c = some inner) :
    closeInLine next rest column (c :: s) = closeInLine inner (next :: rest) (column + 1) s := by
  rw [closeInLine.eq_def]
  simp only [h]

theorem closeInLine_last (h : closerOf? next = none) :
    closeInLine next [] column (next :: s) = .inl (column + 1) := by
  rw [closeInLine.eq_def]
  simp only [h, if_true]

theorem closeInLine_closer (h : closerOf? next = none) :
    closeInLine next (closer :: rest) column (next :: s) =
      closeInLine closer rest (column + 1) s := by
  rw [closeInLine.eq_def]
  simp only [h, if_true]

theorem closeInLine_other (h : closerOf? c = none) (hne : c ≠ next) :
    closeInLine next rest column (c :: s) = closeInLine next rest (column + 1) s := by
  rw [closeInLine.eq_def]
  simp only [h, if_neg hne]

/-- The scan of a line stops just past the character that empties the stack. -/
theorem closeInLine_eq_inl_iff (hclosers : ∀ closer ∈ next :: rest, IsCloser closer) :
    closeInLine next rest column s = .inl n ↔
      ∃ k ≤ s.length, n = column + k ∧ Closes (next :: rest) (s.take k) := by
  induction s generalizing next rest column with
  | nil => simp [closeInLine, not_closes_nil]
  | cons c s ih =>
    obtain ⟨hnext, hrest⟩ := List.forall_mem_cons.mp hclosers
    -- no stack is emptied before the first character, which leaves another stack for the others
    have hfirst {closers : List Char}
        (hstep : ∀ t, Closes (next :: rest) (c :: t) ↔ Closes closers t) :
        (∃ k ≤ (c :: s).length, n = column + k ∧ Closes (next :: rest) ((c :: s).take k)) ↔
          ∃ k ≤ s.length, n = column + 1 + k ∧ Closes closers (s.take k) := by
      rw [← Nat.or_exists_add_one]
      simp only [List.take_zero, not_closes_nil, and_false, false_or, List.take_succ_cons, hstep,
        List.length_cons, Nat.add_le_add_iff_right, Nat.add_assoc, Nat.add_comm 1]
    cases hc : closerOf? c with
    | some inner =>
      rw [hfirst fun t => closes_opener_iff hc, closeInLine_opener hc]
      exact ih (List.forall_mem_cons.mpr ⟨isCloser_of_closerOf? hc, hclosers⟩)
    | none =>
      by_cases hne : c = next
      · subst hne
        rw [hfirst fun t => closes_closer_iff hnext]
        cases rest with
        | nil =>
          rw [closeInLine_last hc, Sum.inl.injEq]
          simp only [closes_nil_iff]
          constructor
          · rintro rfl
            exact ⟨0, Nat.zero_le _, rfl, rfl⟩
          · rintro ⟨k, hk, rfl, htake⟩
            have hlength := congrArg List.length htake
            rw [List.length_take, List.length_nil] at hlength
            omega
        | cons closer rest =>
          rw [closeInLine_closer hc]
          exact ih hrest
      · rw [hfirst fun t => closes_other_iff hc hne, closeInLine_other hc hne]
        exact ih hclosers

/-- What is left of the stack at the end of a line is wanted of the text that follows. -/
theorem closes_append_iff (hclosers : ∀ closer ∈ next :: rest, IsCloser closer)
    (h : closeInLine next rest column s = .inr (next', rest')) :
    (∀ closer ∈ next' :: rest', IsCloser closer) ∧
      ∀ t, Closes (next :: rest) (s ++ t) ↔ Closes (next' :: rest') t := by
  induction s generalizing next rest column with
  | nil =>
    obtain ⟨rfl, rfl⟩ := Prod.mk.inj (Sum.inr.inj h)
    exact ⟨hclosers, fun _ => Iff.rfl⟩
  | cons c s ih =>
    obtain ⟨hnext, hrest⟩ := List.forall_mem_cons.mp hclosers
    simp only [List.cons_append]
    cases hc : closerOf? c with
    | some inner =>
      rw [closeInLine_opener hc] at h
      simp only [closes_opener_iff hc]
      exact ih (List.forall_mem_cons.mpr ⟨isCloser_of_closerOf? hc, hclosers⟩) h
    | none =>
      by_cases hne : c = next
      · subst hne
        simp only [closes_closer_iff hnext]
        cases rest with
        | nil =>
          rw [closeInLine_last hc] at h
          cases h
        | cons closer rest =>
          rw [closeInLine_closer hc] at h
          exact ih hrest h
      · rw [closeInLine_other hc hne] at h
        simp only [closes_other_iff hc hne]
        exact ih hclosers h

end Bracket

end WorkspaceLink
