import WorkspaceLink.Proofs.Glob.BaseDirectory
import WorkspaceLink.Proofs.Glob.DoubleStar

/-! Patterns that ask for an extension. They are answered by what the path ends with; as an extension
lies in the last component, that is what the rules for globs say of them. -/

namespace WorkspaceLink.Glob

variable {s path pattern : Text} {c : Char}

/-- Extensions: a dot and literal characters of a single name. -/
structure IsExtension (s : Text) : Prop where
  dot : s.head? = some '.'
  isLiteral : IsLiteral s
  no_slash : '/' ∉ s

/-- What patterns that ask for an extension match by the rules for globs. -/
structure ExtensionAgrees (s : Text) : Prop where
  /-- As a glob, the star stands for any characters but slashes, and the extension for itself. -/
  level : ∀ path, matchesLevel ("*" ++ s) path = true ↔ ∃ front, '/' ∉ front ∧ path = front ++ s
  /-- After a leading double star the answer is that of the general rule. -/
  trailing : ∀ path, matchesGlob ("**/" ++ ("*" ++ s)) path = matchesTrailing ("*" ++ s) path
  /-- Without a base the answer is that of the glob for the file's name. -/
  named : ∀ base path, base.getD [] = [] →
    (GlobSpec.mk base ("*" ++ s)).matches path =
      matchesLevel ("*" ++ s) (lastComponent (toSlashes path))
  /-- So it is after a leading double star. -/
  anywhere : ∀ base path, base.getD [] = [] →
    (GlobSpec.mk base ("**/" ++ ("*" ++ s))).matches path =
      matchesLevel ("*" ++ s) (lastComponent (toSlashes path))

/-! ### Extensions -/

theorem extensionSuffix?_eq_some_iff :
    extensionSuffix? pattern = some s ↔ pattern = "*" ++ s ∧ IsExtension s := by
  -- the characters that no extension has: those special in globs, and the slash
  have hspecial (t : Text) : ¬t.any ("*?[]\x7b\x7d/".toList.contains ·) = true ↔
      IsLiteral ('.' :: t) ∧ '/' ∉ '.' :: t := by
    have heach (c : Char) : "*?[]\x7b\x7d/".toList.contains c = true ↔
        c ∈ ("*?[]\x7b\x7d" : Text) ∨ c = '/' := by
      have hsplit : "*?[]\x7b\x7d/".toList = ("*?[]\x7b\x7d" : Text) ++ ['/'] := by decide
      rw [List.contains_iff_mem, hsplit, List.mem_append, List.mem_singleton]
    have hdot : '.' ∉ ("*?[]\x7b\x7d" : Text) := by decide
    have hslash : ¬ '/' = '.' := by decide
    rw [isLiteral_cons, and_iff_right hdot, List.mem_cons, not_or, and_iff_right hslash]
    simp only [List.any_eq_true, heach, not_exists, not_and, not_or, imp_and, forall_and, IsLiteral]
    exact and_congr_right fun _ => ⟨fun h hmem => h '/' hmem rfl, fun h c hc heq => h (heq ▸ hc)⟩
  constructor
  · intro h
    rw [extensionSuffix?.eq_def] at h
    split at h
    · next t =>
      obtain ⟨hnone, hs⟩ := Option.ite_none_left_eq_some.mp h
      obtain rfl := Option.some.inj hs
      obtain ⟨hliteral, hslash⟩ := (hspecial t).mp hnone
      exact ⟨rfl, rfl, hliteral, hslash⟩
    · cases h
  · rintro ⟨rfl, h⟩
    obtain ⟨t, rfl⟩ : ∃ t, s = '.' :: t := List.head?_eq_some_iff.mp h.dot
    exact if_neg ((hspecial t).mpr ⟨h.isLiteral, h.no_slash⟩)

theorem IsExtension.brace_not_mem (h : IsExtension s) : '{' ∉ "*" ++ s := by
  rw [List.mem_append, not_or]
  exact ⟨by decide, h.isLiteral.not_mem (by decide)⟩

/-! ### Globs with a star at the front -/

theorem mem_afterRun_iff : s ∈ afterRun path ↔ ∃ front, '/' ∉ front ∧ path = front ++ s := by
  induction path with
  | nil => simp [afterRun, eq_comm]
  | cons c path ih =>
    have hfront : (∃ front, '/' ∉ front ∧ c :: path = front ++ s) ↔
        s = c :: path ∨ c ≠ '/' ∧ ∃ front, '/' ∉ front ∧ path = front ++ s := by
      constructor
      · rintro ⟨front, hslash, h⟩
        rcases List.cons_eq_append_iff.mp h with ⟨-, h⟩ | ⟨front, rfl, h⟩
        · exact .inl h
        · rw [List.mem_cons, not_or] at hslash
          exact .inr ⟨Ne.symm hslash.1, front, hslash.2, (List.cons.inj h).2⟩
      · rintro (rfl | ⟨hc, front, hslash, rfl⟩)
        · exact ⟨[], List.not_mem_nil, rfl⟩
        · refine ⟨c :: front, ?_, rfl⟩
          rw [List.mem_cons, not_or]
          exact ⟨Ne.symm hc, hslash⟩
    rw [afterRun, List.mem_cons, hfront]
    apply or_congr_right
    by_cases hc : c = '/'
    -- the star cannot take a slash
    · simp [hc]
    · rw [if_neg hc, ih, and_iff_right hc]

theorem tokens?_star (h : IsExtension s) (start : Bool) :
    tokens? (.component start) ("*" ++ s) = some (.anyRun :: s.map .char) := by
  obtain ⟨t, rfl⟩ : ∃ t, s = '.' :: t := List.head?_eq_some_iff.mp h.dot
  have hstar : tokens? (.component start) ("*" ++ '.' :: t) =
      (tokens? (.component false) ('.' :: t)).map (.anyRun :: ·) := rfl
  rw [hstar, tokens?_of_isLiteral h.isLiteral]
  rfl

/-- A star stands for any characters but slashes. -/
theorem matchesLevel_star (h : IsExtension s) :
    matchesLevel ("*" ++ s) path = true ↔ ∃ front, '/' ∉ front ∧ path = front ++ s := by
  rw [matchesLevel, tokens?_star h]
  dsimp only
  rw [matchTokens, List.contains_iff_mem, leftOver, mem_leftOver_chars, List.mem_eraseDups,
    List.flatMap_singleton]
  exact mem_afterRun_iff

/-! ### Last components -/

theorem afterSlashes_eq_nil_iff : afterSlashes path = [] ↔ '/' ∉ path := by
  rw [List.eq_nil_iff_forall_not_mem, List.mem_iff_append, not_exists]
  simp only [mem_afterSlashes_iff, not_exists]
  exact forall_comm

theorem lastComponent_cons :
    lastComponent (c :: path) = if c = '/' ∨ '/' ∈ path then lastComponent path else c :: path := by
  by_cases hc : c = '/'
  · have htrailing : trailingPaths (c :: path) = (c :: path) :: trailingPaths path := by
      rw [trailingPaths, afterSlashes, if_pos hc]
      rfl
    rw [if_pos (.inl hc), lastComponent, htrailing]
    rfl
  · have htrailing : trailingPaths (c :: path) = (c :: path) :: afterSlashes path := by
      rw [trailingPaths, afterSlashes, if_neg hc]
    rw [lastComponent, htrailing]
    cases hrest : afterSlashes path with
    -- the text is the last component exactly if no slash comes after its first character
    | nil =>
      have hslash := afterSlashes_eq_nil_iff.mp hrest
      rw [if_neg (not_or.mpr ⟨hc, hslash⟩)]
      rfl
    | cons run runs =>
      have hslash : '/' ∈ path := by
        by_contra hslash
        rw [afterSlashes_eq_nil_iff.mpr hslash] at hrest
        cases hrest
      rw [if_pos (.inr hslash), lastComponent, trailingPaths, hrest]
      rfl

theorem slash_not_mem_lastComponent (path : Text) : '/' ∉ lastComponent path := by
  induction path with
  | nil => exact List.not_mem_nil
  | cons c path ih =>
    rw [lastComponent_cons]
    split
    · exact ih
    · next h =>
      rw [List.mem_cons, not_or]
      exact ⟨fun hc => h (.inl hc.symm), fun hmem => h (.inr hmem)⟩

theorem endsWithRun_lastComponent (path : Text) : EndsWithRun path (lastComponent path) := by
  have hne : trailingPaths path ≠ [] := List.cons_ne_nil _ _
  rw [← mem_trailingPaths_iff, lastComponent, List.getLast?_eq_some_getLast hne]
  exact List.getLast_mem hne

/-- What holds no slash is at the end of a path if it is at the end of the last component. -/
theorem suffix_lastComponent_iff (h : '/' ∉ s) : s <:+ lastComponent path ↔ s <:+ path := by
  have hrun := endsWithRun_lastComponent path
  refine ⟨fun hs => hs.trans hrun.suffix, fun hs => ?_⟩
  rw [EndsWithRun] at hrun
  generalize lastComponent path = name at hrun ⊢
  rcases hrun with rfl | ⟨front, rfl⟩
  · exact hs
  · have hname : '/' :: name <:+ front ++ '/' :: name := List.suffix_append _ _
    rcases List.suffix_or_suffix_of_suffix hs hname with hs | hs
    · -- the text would begin with the slash before the name
      refine (List.suffix_cons_iff.mp hs).resolve_left ?_
      rintro rfl
      exact h List.mem_cons_self
    · exact absurd (hs.subset List.mem_cons_self) h

theorem matchesLevel_lastComponent (h : IsExtension s) :
    matchesLevel ("*" ++ s) (lastComponent path) = true ↔ s <:+ path := by
  rw [matchesLevel_star h, ← suffix_lastComponent_iff h.no_slash]
  constructor
  · rintro ⟨front, -, heq⟩
    exact ⟨front, heq.symm⟩
  · rintro ⟨front, heq⟩
    refine ⟨front, fun hmem => ?_, heq.symm⟩
    exact slash_not_mem_lastComponent path (heq ▸ List.mem_append_left s hmem)

/-! ### Answers -/

theorem matchesGlob_extension (h : IsExtension s) :
    matchesGlob ("*" ++ s) path = true ↔ s <:+ path := by
  have hextension : extensionSuffix? ("*" ++ s) = some s :=
    extensionSuffix?_eq_some_iff.mpr ⟨rfl, h⟩
  obtain ⟨t, rfl⟩ : ∃ t, s = '.' :: t := List.head?_eq_some_iff.mp h.dot
  have hcut : Text.cut? "**" ("*" ++ '.' :: t) = none := by
    have hrest : Text.cut? "**" ('.' :: t) = none :=
      Text.cut?_eq_none (h.isLiteral.not_mem (by decide))
    have hstep : Text.cut? "**" ("*" ++ '.' :: t) =
        (Text.cut? "**" ('.' :: t)).map fun cut => ('*' :: cut.1, cut.2) := rfl
    rw [hstep, hrest]
    rfl
  have hfront : Text.afterFront? "**/" ("*" ++ '.' :: t) = none := rfl
  rw [matchesGlob_of_not_mem h.brace_not_mem, matchesPlain, hfront]
  dsimp only
  rw [hcut]
  dsimp only
  rw [hextension]
  exact List.isSuffixOf_iff_suffix

theorem matchesGlob_anyExtension (h : IsExtension s) :
    matchesGlob ("**/" ++ ("*" ++ s)) path = true ↔ s <:+ path := by
  have hextension : extensionSuffix? ("*" ++ s) = some s :=
    extensionSuffix?_eq_some_iff.mpr ⟨rfl, h⟩
  have hbrace : '{' ∉ "**/" ++ ("*" ++ s) := by
    rw [List.mem_append, not_or]
    exact ⟨by decide, h.brace_not_mem⟩
  rw [matchesGlob_of_not_mem hbrace, matchesPlain, Text.afterFront?_append]
  dsimp only
  rw [hextension]
  exact List.isSuffixOf_iff_suffix

/-- By the general rule, too, a star and an extension ask for no more than the extension. -/
theorem matchesTrailing_extension (h : IsExtension s) :
    matchesTrailing ("*" ++ s) path = true ↔ s <:+ path := by
  rw [matchesTrailing_iff]
  constructor
  · rintro (hsuffix | ⟨run, hrun, hlevel⟩)
    · exact (List.suffix_append _ _).trans hsuffix
    · obtain ⟨front, -, rfl⟩ := (matchesLevel_star h).mp hlevel
      exact (List.suffix_append front s).trans hrun.suffix
  · intro hsuffix
    have hname := (matchesLevel_lastComponent h).mpr hsuffix
    exact .inr ⟨lastComponent path, endsWithRun_lastComponent path, hname⟩

theorem matches_of_no_base {base : Option Text} (h : base.getD [] = []) (pattern : Text)
    (path : Path) : (GlobSpec.mk base pattern).matches path =
      (matchesGlob pattern (toSlashes path) ||
        matchesGlob pattern (lastComponent (toSlashes path))) := by
  have hbase : base.filter (!·.isEmpty) = none := by
    cases base with
    | none => rfl
    | some u =>
      obtain rfl : u = [] := h
      rfl
  simp only [GlobSpec.matches, hbase]

/-- Without a base, a pattern that asks for an extension asks for it in the file's name. -/
theorem matches_extension {base : Option Text} (hbase : base.getD [] = []) (h : IsExtension s)
    (hpattern : ∀ path, matchesGlob pattern path = true ↔ s <:+ path) (path : Path) :
    (GlobSpec.mk base pattern).matches path =
      matchesLevel ("*" ++ s) (lastComponent (toSlashes path)) := by
  rw [matches_of_no_base hbase, Bool.eq_iff_iff, Bool.or_eq_true, hpattern, hpattern,
    suffix_lastComponent_iff h.no_slash, or_self, matchesLevel_lastComponent h]

/-- Patterns that ask for an extension are answered as the rules for globs say. -/
theorem extensionAgrees (h : IsExtension s) : ExtensionAgrees s where
  level _ := matchesLevel_star h
  trailing path := by
    rw [Bool.eq_iff_iff, matchesGlob_anyExtension h, matchesTrailing_extension h]
  named _ path hbase := matches_extension hbase h (fun _ => matchesGlob_extension h) path
  anywhere _ path hbase := matches_extension hbase h (fun _ => matchesGlob_anyExtension h) path

/-- A dot file is all extension, and the star then stands for nothing. -/
theorem dotGo_extensionAgrees :
    IsExtension ".go" ∧ ExtensionAgrees ".go" := by
  have h : IsExtension ".go" := ⟨rfl, by decide, by decide⟩
  exact ⟨h, extensionAgrees h⟩

end WorkspaceLink.Glob
