import WorkspaceLink.Proofs.Glob.Alternation
import WorkspaceLink.Proofs.Glob.Level

/-! Patterns with a double star. At the front it leaves the remainder to be found at the end of the
path, also inside a name. After a head it leaves the tail to the trailing runs of what follows the
head, and also to the end of the whole path, so that a tail may begin in the head. -/

namespace WorkspaceLink.Glob

variable {head path rest s tail : Text}

/-- The general rule for what follows a leading double star: a trailing run of the path ends with it
literally or is matched by it as a glob. -/
def matchesTrailing (remainder path : Text) : Bool :=
  (trailingPaths path).any fun run => remainder.isSuffixOf run || matchesLevel remainder run

/-- Whether a pattern with a leading double star matches exactly the paths that end with its
remainder as whole components. -/
def RespectsComponents (remainder path : Text) : Prop :=
  matchesGlob ("**/" ++ remainder) path = true ↔ EndsWithRun path remainder

/-- Literal heads, which end with a slash. -/
structure IsHead (head : Text) : Prop where
  isLiteral : IsLiteral head
  slash : head.getLast? = some '/'

/-- Whether a trailing run of a path is a tail literally or as a glob. -/
def MatchesRest (tail rest : Text) : Prop :=
  ∃ run, EndsWithRun rest run ∧ (run = tail ∨ matchesLevel tail run = true)

/-- Whether a tail is made of the last names of a head, a slash, and all that follows the head. -/
def ReusesHead (head tail rest : Text) : Prop :=
  ∃ front names, head = front ++ '/' :: names ++ ['/'] ∧ tail = names ++ '/' :: rest

/-- Whether a pattern with a double star after a head, on a path that begins with the head, comes out
as it does with another head in place of the first. -/
def Interchangeable (head₁ head₂ tail rest : Text) : Prop :=
  matchesGlob (head₁ ++ ("**" ++ '/' :: tail)) (head₁ ++ rest) =
    matchesGlob (head₂ ++ ("**" ++ '/' :: tail)) (head₂ ++ rest)

/-! ### Leading double stars -/

theorem extensionSuffix?_of_head? (h : s.head? ≠ some '*') : extensionSuffix? s = none := by
  rw [extensionSuffix?]
  rintro s rfl
  exact h rfl

/-- A leading double star leaves a remainder that is no extension to the general rule. -/
theorem matchesPlain_doubleStar (h : extensionSuffix? s = none) :
    matchesPlain ("**/" ++ s) path = matchesTrailing s path := by
  rw [matchesPlain, Text.afterFront?_append]
  dsimp only
  rw [h]
  rfl

/-- By the general rule a remainder matches the ends of paths, and by its wildcards their trailing
runs. -/
theorem matchesTrailing_iff : matchesTrailing s path = true ↔
    s <:+ path ∨ ∃ run, EndsWithRun path run ∧ matchesLevel s run = true := by
  simp only [matchesTrailing, List.any_eq_true, Bool.or_eq_true, mem_trailingPaths_iff,
    List.isSuffixOf_iff_suffix]
  constructor
  · rintro ⟨run, hrun, hsuffix | hlevel⟩
    · exact .inl (hsuffix.trans hrun.suffix)
    · exact .inr ⟨run, hrun, hlevel⟩
  · rintro (hsuffix | ⟨run, hrun, hlevel⟩)
    · exact ⟨path, endsWithRun_self path, .inl hsuffix⟩
    · exact ⟨run, hrun, .inr hlevel⟩

theorem matchesGlob_doubleStar (h : IsLiteral s) :
    matchesGlob ("**/" ++ s) path = true ↔ s <:+ path := by
  have hbrace : '{' ∉ "**/" ++ s := by
    rw [List.mem_append, not_or]
    exact ⟨by decide, h.not_mem (by decide)⟩
  have hextension : extensionSuffix? s = none := by
    apply extensionSuffix?_of_head?
    intro hstar
    exact h.not_mem (by decide) (List.mem_of_head? hstar)
  rw [matchesGlob_of_not_mem hbrace, matchesPlain_doubleStar hextension, matchesTrailing_iff]
  refine or_iff_left_of_imp ?_
  rintro ⟨run, hrun, hlevel⟩
  rw [matchesLevel_of_isLiteral h] at hlevel
  exact hlevel ▸ hrun.suffix

/-- A literal remainder is matched by components exactly where it does not end inside a name. -/
theorem respectsComponents_iff (h : IsLiteral s) :
    RespectsComponents s path ↔ ¬EndsInsideName path s := by
  rw [RespectsComponents, matchesGlob_doubleStar h, suffix_iff]
  constructor
  · intro hiff hinside
    exact hinside.not_endsWithRun (hiff.mp (.inr hinside))
  · exact or_iff_left

/-- A file whose name is the remainder is matched by its components. -/
theorem goMod_respectsComponents :
    IsLiteral "go.mod" ∧ ¬EndsInsideName "svc/api/go.mod" "go.mod" ∧
      RespectsComponents "go.mod" "svc/api/go.mod" := by
  have hliteral : IsLiteral "go.mod" := by decide
  have hrun : EndsWithRun "svc/api/go.mod" "go.mod" := .inr ⟨"svc/api", rfl⟩
  have hinside : ¬EndsInsideName "svc/api/go.mod" "go.mod" := fun h => h.not_endsWithRun hrun
  exact ⟨hliteral, hinside, (respectsComponents_iff hliteral).mpr hinside⟩

/-- A file whose name only ends with the remainder is matched, too. -/
theorem longerName_not_respectsComponents :
    IsLiteral "go.mod" ∧ ¬RespectsComponents "go.mod" "svc/xgo.mod" := by
  have hliteral : IsLiteral "go.mod" := by decide
  refine ⟨hliteral, fun h => ?_⟩
  have hinside : EndsInsideName "svc/xgo.mod" "go.mod" := ⟨"svc/", 'x', by decide, rfl⟩
  have hmatch := (matchesGlob_doubleStar hliteral).mpr (suffix_iff.mpr (.inr hinside))
  exact hinside.not_endsWithRun (h.mp hmatch)

/-! ### Heads -/

theorem IsHead.exists_front (h : IsHead head) : ∃ front, head = front ++ ['/'] :=
  List.getLast?_eq_some_iff.mp h.slash

theorem IsHead.star_not_mem_head? (h : IsHead head) (s : Text) : '*' ∉ (head ++ s).head? := by
  have hne : head ≠ [] := by
    rintro rfl
    cases h.slash
  rw [List.head?_append_of_ne_nil _ hne]
  exact fun hstar => h.isLiteral.not_mem (by decide) (List.mem_of_head? hstar)

/-- A tail at the end of a path that begins with a head stands after the head or begins in it. -/
theorem suffix_head_iff (h : IsHead head) :
    '/' :: tail <:+ head ++ rest ↔ EndsWithRun rest tail ∨ ReusesHead head tail rest := by
  constructor
  · obtain ⟨front, rfl⟩ := h.exists_front
    rw [List.append_assoc, List.singleton_append]
    rintro ⟨before, heq⟩
    rcases List.append_eq_append_iff.mp heq with ⟨names, hfront, htail⟩ | ⟨names, -, hrest⟩
    · cases names with
      | nil => exact .inl (.inl (List.cons.inj htail).2.symm)
      | cons c names =>
        -- the slash before the tail is one of the head's, and not its last
        obtain ⟨rfl, rfl⟩ := List.cons.inj htail
        exact .inr ⟨before, names, by rw [hfront], rfl⟩
    · exact .inl (endsWithRun_iff_suffix.mpr ⟨names, hrest.symm⟩)
  · rintro (hrun | ⟨front, names, rfl, rfl⟩)
    · obtain ⟨front, rfl⟩ := h.exists_front
      rw [List.append_assoc, List.singleton_append]
      exact List.suffix_append_of_suffix (endsWithRun_iff_suffix.mp hrun)
    · exact ⟨front, by simp⟩

/-- After a head, a double star leaves the tail to the end of the whole path and to the trailing runs
of what follows the head. -/
theorem matchesPlain_interior (h : IsHead head) :
    matchesPlain (head ++ ("**" ++ '/' :: tail)) path = (Text.afterFront? head path).any fun rest =>
      ('/' :: tail).isSuffixOf path || (trailingPaths rest).any (matchesLevel tail) := by
  have hfront : Text.afterFront? "**/" (head ++ ("**" ++ '/' :: tail)) = none :=
    Text.afterFront?_eq_none (h.star_not_mem_head? _)
  have hcut : Text.cut? "**" (head ++ ("**" ++ '/' :: tail)) = some (head, '/' :: tail) :=
    Text.cut?_append (h.isLiteral.not_mem (by decide))
  have htail : Text.afterFront? "/" ('/' :: tail) = some tail := Text.afterFront?_append ['/'] tail
  rw [matchesPlain, hfront]
  dsimp only
  rw [hcut]
  dsimp only
  rw [htail]
  cases Text.afterFront? head path <;> rfl

theorem matchesPlain_head (h : IsHead head) :
    matchesPlain (head ++ ("**" ++ '/' :: tail)) (head ++ rest) = true ↔
      '/' :: tail <:+ head ++ rest ∨
        ∃ run, EndsWithRun rest run ∧ matchesLevel tail run = true := by
  rw [matchesPlain_interior h, Text.afterFront?_append, Option.any_some]
  simp only [Bool.or_eq_true, List.isSuffixOf_iff_suffix, List.any_eq_true, mem_trailingPaths_iff]

theorem IsHead.brace_not_mem (h : IsHead head) (htail : '{' ∉ tail) :
    '{' ∉ head ++ ("**" ++ '/' :: tail) := by
  simp only [List.mem_append, List.mem_cons, not_or]
  exact ⟨h.isLiteral.not_mem (by decide), by decide, by decide, htail⟩

/-- After a literal head a double star leaves the tail to what follows the head, and otherwise to a
tail that begins with the end of the head. -/
theorem matchesGlob_head (h : IsHead head) (htail : '{' ∉ tail) :
    matchesGlob (head ++ ("**" ++ '/' :: tail)) (head ++ rest) = true ↔
      MatchesRest tail rest ∨ ReusesHead head tail rest := by
  have hliteral : MatchesRest tail rest ↔
      EndsWithRun rest tail ∨ ∃ run, EndsWithRun rest run ∧ matchesLevel tail run = true := by
    simp only [MatchesRest, and_or_left, exists_or, exists_eq_right]
  rw [matchesGlob_of_not_mem (h.brace_not_mem htail), matchesPlain_head h, suffix_head_iff h, hliteral,
    or_right_comm]

/-- Two heads are interchangeable exactly if the tail matches what follows them anyway, or if it
begins in neither or in both. -/
theorem interchangeable_iff {head₁ head₂ : Text} (h₁ : IsHead head₁) (h₂ : IsHead head₂)
    (htail : '{' ∉ tail) :
    Interchangeable head₁ head₂ tail rest ↔
      MatchesRest tail rest ∨ (ReusesHead head₁ tail rest ↔ ReusesHead head₂ tail rest) := by
  rw [Interchangeable, Bool.eq_iff_iff, matchesGlob_head h₁ htail, matchesGlob_head h₂ htail]
  by_cases hrest : MatchesRest tail rest
  · simp only [hrest, true_or]
  · simp only [hrest, false_or]

/-- A tail with wildcards does not begin in a head, although the file stands deep below both. -/
theorem sourceHeads_interchangeable :
    IsHead "src/" ∧ IsHead "lib/core/" ∧ '{' ∉ ("app/*.ts" : Text) ∧
      Interchangeable "src/" "lib/core/" "app/*.ts" "web/app/main.ts" := by
  have h₁ : IsHead "src/" := ⟨by decide, rfl⟩
  have h₂ : IsHead "lib/core/" := ⟨by decide, rfl⟩
  have htail : '{' ∉ ("app/*.ts" : Text) := by decide
  have hrest : MatchesRest "app/*.ts" "web/app/main.ts" :=
    ⟨"app/main.ts", .inr ⟨"web", rfl⟩, .inr (by decide +kernel)⟩
  exact ⟨h₁, h₂, htail, (interchangeable_iff h₁ h₂ htail).mpr (.inl hrest)⟩

/-- A tail that begins with the last name of its head matches a path without that name after the
head, and does not match it after another head. -/
theorem repeatedName_not_interchangeable :
    IsHead "a/b/" ∧ IsHead "x/" ∧ '{' ∉ ("b/c" : Text) ∧
      ¬Interchangeable "a/b/" "x/" "b/c" "c" := by
  refine ⟨⟨by decide, rfl⟩, ⟨by decide, rfl⟩, by decide, ?_⟩
  intro h
  have hfirst : matchesGlob "a/b/**/b/c" "a/b/c" = true := by decide +kernel
  have hsecond : matchesGlob "x/**/b/c" "x/c" = false := by decide +kernel
  exact Bool.false_ne_true ((hsecond.symm.trans h.symm).trans hfirst)

end WorkspaceLink.Glob
