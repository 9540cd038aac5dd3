import WorkspaceLink.Proofs.Glob.Expansion

/-! What patterns with brace groups match. Groups give way to their alternatives until none is left,
and that comes to choosing one alternative in each group. -/

namespace WorkspaceLink.Glob

variable {pattern before path : Text} {m n : Nat}

theorem expansions_succ (n : Nat) (pattern : Text) : expansions (n + 1) pattern =
    match expansion pattern with
    | .plain => [pattern]
    | .unclosed => []
    | .alternatives patterns => patterns.flatMap (expansions n) := by
  rw [expansions, expansion]
  cases Text.cut? "\x7b" pattern with
  | none => rfl
  | some parts =>
    obtain ⟨before, rest⟩ := parts
    dsimp only
    cases alternatives? 0 rest with
    | none => rfl
    | some group =>
      obtain ⟨pieces, after⟩ := group
      exact (List.flatMap_map _ _ _).symm

theorem expansions_of_plain (h : expansion pattern = .plain) (n : Nat) :
    expansions n pattern = [pattern] := by
  cases n with
  | zero => rfl
  | succ n => rw [expansions_succ, h]

theorem exists_step (h : expansion pattern ≠ .plain) (hn : pattern.count '{' ≤ n) :
    ∃ k, n = k + 1 := by
  have hmem : '{' ∈ pattern := by
    by_contra hmem
    exact h (expansion_of_not_mem hmem)
  have hpos : 0 < pattern.count '{' := List.count_pos_iff.mpr hmem
  exact Nat.exists_eq_add_one.mpr (Nat.lt_of_lt_of_le hpos hn)

/-- Once there are as many steps as opening braces, more make no difference. -/
theorem expansions_congr (hm : pattern.count '{' ≤ m) (hn : pattern.count '{' ≤ n) :
    expansions m pattern = expansions n pattern := by
  induction m generalizing n pattern with
  | zero =>
    have hplain : expansion pattern = .plain := by
      by_contra hne
      obtain ⟨k, hk⟩ := exists_step hne hm
      cases hk
    rw [expansions_of_plain hplain, expansions_of_plain hplain]
  | succ m ih =>
    cases hstep : expansion pattern with
    | plain => rw [expansions_of_plain hstep, expansions_of_plain hstep]
    | unclosed =>
      obtain ⟨n, rfl⟩ := exists_step (by simp [hstep]) hn
      rw [expansions_succ, expansions_succ, hstep]
    | alternatives patterns =>
      obtain ⟨n, rfl⟩ := exists_step (by simp [hstep]) hn
      rw [expansions_succ, expansions_succ, hstep]
      apply List.flatMap_congr
      intro q hq
      have hlt := count_lt_of_expansion hstep q hq
      exact ih (by omega) (by omega)

/-- A pattern matches if one of those matches that a step makes of it. -/
theorem matchesGlob_eq (pattern path : Text) : matchesGlob pattern path =
    match expansion pattern with
    | .plain => matchesPlain pattern path
    | .unclosed => false
    | .alternatives patterns => patterns.any (matchesGlob · path) := by
  rw [matchesGlob]
  cases hstep : expansion pattern with
  | plain => rw [expansions_of_plain hstep, List.any_cons, List.any_nil, Bool.or_false]
  | unclosed =>
    obtain ⟨n, hn⟩ := exists_step (by simp [hstep]) (Nat.le_refl (pattern.count '{'))
    rw [hn, expansions_succ, hstep]
    rfl
  | alternatives patterns =>
    obtain ⟨n, hn⟩ := exists_step (by simp [hstep]) (Nat.le_refl (pattern.count '{'))
    have heach : ∀ q ∈ patterns, (expansions n q).any (matchesPlain · path) =
        matchesGlob q path := by
      intro q hq
      have hlt := count_lt_of_expansion hstep q hq
      rw [matchesGlob, expansions_congr (by omega) (Nat.le_refl _)]
    rw [hn, expansions_succ, hstep]
    dsimp only
    rw [List.any_flatMap, Bool.eq_iff_iff, List.any_eq_true, List.any_eq_true]
    exact exists_congr fun q => and_congr_right fun hq => by rw [heach q hq]

/-! ### Choices -/

/-- A pattern without groups is left as it is. -/
theorem matchesGlob_of_not_mem (h : '{' ∉ pattern) (path : Text) :
    matchesGlob pattern path = matchesPlain pattern path := by
  rw [matchesGlob_eq, expansion_of_not_mem h]

theorem matchesGlob_group (alternatives : Alternatives) (hbefore : '{' ∉ before)
    (rest : Braced false) (path : Text) :
    matchesGlob (before ++ (Braced.group alternatives rest).text) path =
      alternatives.toList.any fun a => matchesGlob (before ++ (a.append rest).text) path := by
  rw [Braced.text, matchesGlob_eq, expansion_group alternatives hbefore]
  simp only [List.any_map, Braced.text_append, List.append_assoc]
  rfl

/-- What precedes a pattern's groups stays in front of all that is chosen from them. -/
theorem matchesGlob_append (p : Braced false) (hbefore : '{' ∉ before) (path : Text) :
    matchesGlob (before ++ p.text) path =
      p.choices.any fun q => matchesGlob (before ++ q) path := by
  induction hn : p.text.length using Nat.strongRecOn generalizing p before with
  | _ n ih =>
    cases p with
    | nil => simp [Braced.text, Braced.choices]
    | char c hc rest =>
      have hnext : '{' ∉ before ++ [c] := by
        rw [List.mem_append, List.mem_singleton, not_or]
        exact ⟨hbefore, Ne.symm hc.1⟩
      rw [Braced.text, List.length_cons] at hn
      have hrest := ih rest.text.length (by omega) rest hnext rfl
      simp only [List.append_assoc, List.singleton_append] at hrest
      rw [Braced.text, Braced.choices, hrest, List.any_map]
      rfl
    | group alternatives rest =>
      rw [Braced.text, List.length_cons, List.length_append, List.length_cons] at hn
      rw [matchesGlob_group alternatives hbefore, Braced.choices_group, List.any_flatMap,
        Bool.eq_iff_iff, List.any_eq_true, List.any_eq_true]
      refine exists_congr fun a => and_congr_right fun ha => ?_
      -- an alternative in the place of its group makes the pattern shorter
      have hle := alternatives.length_text_le a ha
      have hlength : (a.append rest).text.length = a.text.length + rest.text.length := by
        rw [a.text_append rest, List.length_append]
      rw [ih _ (by omega) (a.append rest) hbefore rfl]

theorem matchesGlob_of_openGroups (h : openGroups 0 pattern ≠ 0) (path : Text) :
    matchesGlob pattern path = false := by
  induction hn : pattern.count '{' using Nat.strongRecOn generalizing pattern with
  | _ n ih =>
    rw [matchesGlob_eq]
    rcases firstGroup_cases pattern with hmem | ⟨before, rest, rfl, hbefore, hrest⟩ |
      ⟨before, rest, alternatives, rfl, hbefore⟩
    · have hplain : openGroups 0 (pattern ++ []) = openGroups 0 [] :=
        openGroups_append_of_not_mem hmem
      rw [List.append_nil] at hplain
      exact absurd hplain h
    · rw [expansion_of_unclosed hbefore hrest]
    · rw [expansion_group alternatives hbefore]
      rw [openGroups_append_of_not_mem hbefore, openGroups, if_pos rfl,
        alternatives.openGroups_text] at h
      dsimp only
      rw [List.any_map, List.any_eq_false]
      intro a ha
      have hlt := count_lt_of_mem alternatives before rest a ha
      have hopen : openGroups 0 (before ++ a.text ++ rest) ≠ 0 := by
        rwa [List.append_assoc, openGroups_append_of_not_mem hbefore, a.openGroups_text]
      rw [hn] at hlt
      exact Bool.eq_false_iff.mp (ih _ hlt hopen rfl)

/-- What alternation means for a pattern. It is read as text with groups in it if no group is open at
its end, and then matches what one of its choices matches; a pattern with a group left open matches
nothing. Matching goes step by step, each step leaves fewer opening braces, and all its cuts by
byte offsets are between characters. -/
structure Alternates (pattern : Text) : Prop where
  readable_iff : openGroups 0 pattern = 0 ↔ ∃ p : Braced false, p.text = pattern
  choices : ∀ p : Braced false, p.text = pattern →
    (∀ q ∈ p.choices, '{' ∉ q) ∧
      ∀ path, matchesGlob pattern path = true ↔ ∃ q ∈ p.choices, matchesGlob q path = true
  unclosed : openGroups 0 pattern ≠ 0 → ∀ path, matchesGlob pattern path = false
  step : ∀ path, matchesGlob pattern path =
    match expansion pattern with
    | .plain => matchesPlain pattern path
    | .unclosed => false
    | .alternatives patterns => patterns.any (matchesGlob · path)
  shrinks : ∀ patterns, expansion pattern = .alternatives patterns →
    ∀ q ∈ patterns, q.count '{' < pattern.count '{'
  sliced : expansionByBytes? pattern = some (expansion pattern)

/-- Alternation is choosing one alternative in each group. -/
theorem matchesGlob_alternates (pattern : Text) : Alternates pattern where
  readable_iff := openGroups_eq_zero_iff
  choices := by
    rintro p rfl
    refine ⟨p.brace_not_mem, fun path => ?_⟩
    have hchoices := matchesGlob_append p List.not_mem_nil path
    rw [List.nil_append] at hchoices
    rw [hchoices, List.any_eq_true]
    rfl
  unclosed := matchesGlob_of_openGroups
  step := matchesGlob_eq pattern
  shrinks := fun _ h => count_lt_of_expansion h
  sliced := expansionByBytes?_eq pattern

/-- The closing brace at the front stands for itself, and the second group is not closed. -/
example : openGroups 0 "\x7d\x7ba,b\x7d\x7bc,\x7bd\x7d" = 1 := by
  decide

end WorkspaceLink.Glob
