import WorkspaceLink.Proofs.Glob.Extension

/-! Globs that cannot be read. By themselves they match nothing; after a double star their text is
still looked for at the end of the path. -/

namespace WorkspaceLink.Glob

variable {s path head : Text}

/-- Texts that are no globs, and that braces and double stars do not take apart. -/
structure IsMalformed (s : Text) : Prop where
  no_group : '{' ∉ s
  no_doubleStar : ¬"**" <:+: s
  unreadable : tokens? (.component true) s = none

/-- What a malformed glob matches: nothing by itself, and after a double star the paths that end with
its text. -/
structure MatchedAsText (s path : Text) : Prop where
  alone : matchesGlob s path = false
  anywhere : matchesGlob ("**/" ++ s) path = true ↔ s <:+ path
  below : ∀ head, IsHead head →
    (matchesGlob (head ++ ("**" ++ '/' :: s)) path = true ↔ head <+: path ∧ '/' :: s <:+ path)

/-- Whether a text matches a path nowhere: not by itself, not after a double star, and not after a head
and a double star. -/
def NeverMatches (s path : Text) : Prop :=
  matchesGlob s path = false ∧ matchesGlob ("**/" ++ s) path = false ∧
    ∀ head, IsHead head → matchesGlob (head ++ ("**" ++ '/' :: s)) path = false

namespace IsMalformed

theorem matchesLevel_eq (h : IsMalformed s) (path : Text) : matchesLevel s path = false := by
  rw [matchesLevel, h.unreadable]

/-- A pattern that asks for an extension can be read as a glob. -/
theorem extensionSuffix?_eq (h : IsMalformed s) : extensionSuffix? s = none := by
  rw [Option.eq_none_iff_forall_ne_some]
  intro t ht
  obtain ⟨rfl, hextension⟩ := extensionSuffix?_eq_some_iff.mp ht
  have hunreadable := h.unreadable
  rw [tokens?_star hextension] at hunreadable
  cases hunreadable

theorem matchesGlob_eq (h : IsMalformed s) (path : Text) : matchesGlob s path = false := by
  have hfront : Text.afterFront? "**/" s = none := by
    rw [Text.afterFront?_eq_none_iff]
    intro hfront
    have hstars : ("**" : Text) <+: "**/" := by decide
    exact h.no_doubleStar (hstars.trans hfront).isInfix
  have hcut : Text.cut? "**" s = none := Text.cut?_eq_none_iff.mpr h.no_doubleStar
  -- no other rule applies, so that the text is read as a glob
  rw [matchesGlob_of_not_mem h.no_group, matchesPlain, hfront]
  dsimp only
  rw [hcut]
  dsimp only
  rw [h.extensionSuffix?_eq]
  exact h.matchesLevel_eq path

theorem matchesGlob_doubleStar_iff (h : IsMalformed s) (path : Text) :
    matchesGlob ("**/" ++ s) path = true ↔ s <:+ path := by
  have hbrace : '{' ∉ "**/" ++ s := by
    rw [List.mem_append, not_or]
    exact ⟨by decide, h.no_group⟩
  rw [matchesGlob_of_not_mem hbrace, matchesPlain_doubleStar h.extensionSuffix?_eq,
    matchesTrailing_iff]
  -- only the test for the text itself is left
  refine or_iff_left_of_imp ?_
  rintro ⟨run, -, hlevel⟩
  rw [h.matchesLevel_eq run] at hlevel
  cases hlevel

theorem matchesGlob_head_iff (h : IsMalformed s) (hhead : IsHead head) (path : Text) :
    matchesGlob (head ++ ("**" ++ '/' :: s)) path = true ↔
      head <+: path ∧ '/' :: s <:+ path := by
  have hnone (rest : Text) : (trailingPaths rest).any (matchesLevel s) = false := by
    rw [List.any_eq_false]
    exact fun run _ => Bool.eq_false_iff.mp (h.matchesLevel_eq run)
  rw [matchesGlob_of_not_mem (hhead.brace_not_mem h.no_group), matchesPlain_interior hhead]
  simp only [hnone, Bool.or_false, Option.any_eq_true, Text.afterFront?_eq_some_iff,
    List.isSuffixOf_iff_suffix, exists_and_right]
  rfl

end IsMalformed

/-- A malformed glob is matched as its own text, so that it matches nothing exactly where the path does
not end with it. -/
theorem malformed_matchedAsText (h : IsMalformed s) (path : Text) :
    MatchedAsText s path ∧ (NeverMatches s path ↔ ¬s <:+ path) := by
  have hanywhere := h.matchesGlob_doubleStar_iff path
  have hbelow (head : Text) (hhead : IsHead head) := h.matchesGlob_head_iff hhead path
  refine ⟨⟨h.matchesGlob_eq path, hanywhere, hbelow⟩, ?_⟩
  constructor
  · rintro ⟨-, hnever, -⟩ hsuffix
    rw [hanywhere.mpr hsuffix] at hnever
    cases hnever
  · intro hsuffix
    refine ⟨h.matchesGlob_eq path, ?_, fun head hhead => ?_⟩
    · exact Bool.eq_false_iff.mpr (mt hanywhere.mp hsuffix)
    · rw [← Bool.not_eq_true, hbelow head hhead]
      -- what ends with a slash and the text ends with the text
      rintro ⟨-, hslash⟩
      exact hsuffix ((List.suffix_cons _ _).trans hslash)

/-- A range that is cut off matches nothing among the files of a directory. -/
theorem openRange_matchedAsText :
    IsMalformed "src/[a-" ∧ MatchedAsText "src/[a-" "lib/src/a" ∧
      (NeverMatches "src/[a-" "lib/src/a" ↔ ¬"src/[a-" <:+ ("lib/src/a" : Text)) := by
  have h : IsMalformed "src/[a-" := ⟨by decide, by decide +kernel, by decide +kernel⟩
  exact ⟨h, malformed_matchedAsText h "lib/src/a"⟩

/-- A file whose name is an unclosed class is matched by it after a double star. -/
theorem openClass_not_neverMatches :
    IsMalformed "[a" ∧ ¬NeverMatches "[a" "svc/[a" := by
  have h : IsMalformed "[a" := ⟨by decide, by decide +kernel, by decide +kernel⟩
  refine ⟨h, fun hnever => ?_⟩
  have hmatch : matchesGlob "**/[a" "svc/[a" = true := by decide +kernel
  exact Bool.false_ne_true (hnever.2.1.symm.trans hmatch)

end WorkspaceLink.Glob
