import WorkspaceLink.Glob.Level

/-! Globs without wildcards stand for themselves, and the trailing runs of a path are the path and
what follows its slashes. -/

namespace WorkspaceLink.Glob

variable {s path run : Text} {c : Char}

/-- Texts without wildcards, brackets and braces. -/
def IsLiteral (s : Text) : Prop :=
  ∀ c ∈ s, c ∉ ("*?[]\x7b\x7d" : Text)

instance (s : Text) : Decidable (IsLiteral s) :=
  List.decidableBAll (· ∉ ("*?[]\x7b\x7d" : Text)) s

/-- Whether a text is a path or what follows one of its slashes. -/
def EndsWithRun (path run : Text) : Prop :=
  path = run ∨ ∃ front, path = front ++ '/' :: run

/-- Whether a path ends with a text that something other than a slash precedes. -/
def EndsInsideName (path s : Text) : Prop :=
  ∃ front c, c ≠ '/' ∧ path = front ++ c :: s

theorem isLiteral_cons : IsLiteral (c :: s) ↔ c ∉ ("*?[]\x7b\x7d" : Text) ∧ IsLiteral s :=
  List.forall_mem_cons

theorem IsLiteral.not_mem (h : IsLiteral s) (hc : c ∈ ("*?[]\x7b\x7d" : Text)) : c ∉ s :=
  fun hmem => h c hmem hc

/-! ### Globs that stand for themselves -/

theorem tokens?_cons (hc : c ∉ ("*?[]\x7b\x7d" : Text)) (start : Bool) (s : Text) :
    tokens? (.component start) (c :: s) =
      (tokens? (.component (c = '/')) s).map (.char c :: ·) := by
  have hany : c ≠ '?' := by rintro rfl; exact hc (by decide)
  have hrun : c ≠ '*' := by rintro rfl; exact hc (by decide)
  have hclass : c ≠ '[' := by rintro rfl; exact hc (by decide)
  rw [tokens?] <;> simp [hany, hrun, hclass]

theorem tokens?_of_isLiteral (h : IsLiteral s) (start : Bool) :
    tokens? (.component start) s = some (s.map .char) := by
  induction s generalizing start with
  | nil => rfl
  | cons c s ih =>
    rw [isLiteral_cons] at h
    rw [tokens?_cons h.1, ih h.2]
    rfl

theorem mem_rests_char : s ∈ (Token.char c).rests path ↔ path = c :: s := by
  cases path with
  | nil => simp [Token.rests]
  | cons d path =>
    by_cases hd : d = c
    · have hrests : (Token.char c).rests (d :: path) = [path] := if_pos (beq_iff_eq.mpr hd)
      rw [hrests, List.mem_singleton, hd, List.cons_inj_right, eq_comm]
    · have hrests : (Token.char c).rests (d :: path) = [] := if_neg fun h => hd (beq_iff_eq.mp h)
      simp [hrests, hd]

/-- Nothing is left after the characters of a text if the text itself was left before them. -/
theorem mem_leftOver_chars {left : List Text} : [] ∈ leftOver left (s.map .char) ↔ s ∈ left := by
  induction s generalizing left with
  | nil => rfl
  | cons c s ih =>
    rw [List.map_cons, leftOver, ih, List.mem_eraseDups, List.mem_flatMap]
    simp only [mem_rests_char, exists_eq_right]

theorem matchesLevel_of_isLiteral (h : IsLiteral s) : matchesLevel s path = true ↔ path = s := by
  rw [matchesLevel, tokens?_of_isLiteral h]
  dsimp only
  rw [matchTokens, List.contains_iff_mem, mem_leftOver_chars, List.mem_singleton, eq_comm]

/-! ### Trailing runs -/

theorem endsWithRun_self (path : Text) : EndsWithRun path path :=
  .inl rfl

/-- With a slash in front of both, the trailing runs of a path are what it ends with. -/
theorem endsWithRun_iff_suffix : EndsWithRun path run ↔ '/' :: run <:+ '/' :: path := by
  rw [List.suffix_cons_iff, List.cons_inj_right, EndsWithRun, eq_comm]
  exact or_congr_right (exists_congr fun _ => eq_comm)

theorem EndsWithRun.suffix (h : EndsWithRun path run) : run <:+ path := by
  rcases h with rfl | ⟨front, rfl⟩
  · exact List.suffix_rfl
  · exact List.suffix_append_of_suffix (List.suffix_cons _ _)

/-- A path ends with a text at the start of a name or inside one. -/
theorem suffix_iff : s <:+ path ↔ EndsWithRun path s ∨ EndsInsideName path s := by
  constructor
  · rintro ⟨front, rfl⟩
    rcases front.eq_nil_or_concat with rfl | ⟨front, c, rfl⟩
    · exact .inl (endsWithRun_self s)
    · rw [List.concat_eq_append, List.append_assoc, List.singleton_append]
      by_cases hc : c = '/'
      · exact .inl (.inr ⟨front, by rw [hc]⟩)
      · exact .inr ⟨front, c, hc, rfl⟩
  · rintro (h | ⟨front, c, -, rfl⟩)
    · exact h.suffix
    · exact List.suffix_append_of_suffix (List.suffix_cons _ _)

theorem EndsInsideName.not_endsWithRun (h : EndsInsideName path s) : ¬EndsWithRun path s := by
  obtain ⟨front, c, hc, rfl⟩ := h
  rintro (h | ⟨front', h⟩)
  · have hlength := congrArg List.length h
    rw [List.length_append, List.length_cons] at hlength
    omega
  · obtain ⟨-, h⟩ := List.append_inj' h rfl
    exact hc (List.cons.inj h).1

theorem mem_afterSlashes_iff : run ∈ afterSlashes path ↔ ∃ front, path = front ++ '/' :: run := by
  induction path with
  | nil => simp [afterSlashes]
  | cons c path ih =>
    have hfront : (∃ front, c :: path = front ++ '/' :: run) ↔
        c = '/' ∧ run = path ∨ ∃ front, path = front ++ '/' :: run := by
      constructor
      · rintro ⟨front, h⟩
        rcases List.cons_eq_append_iff.mp h with ⟨-, h⟩ | ⟨front, -, h⟩
        · cases h
          exact .inl ⟨rfl, rfl⟩
        · exact .inr ⟨front, h⟩
      · rintro (⟨rfl, rfl⟩ | ⟨front, rfl⟩)
        · exact ⟨[], rfl⟩
        · exact ⟨c :: front, rfl⟩
    rw [afterSlashes, hfront, ← ih]
    split
    · next hc => rw [List.mem_cons, and_iff_right hc]
    · next hc => exact (or_iff_right fun h => hc h.1).symm

theorem mem_trailingPaths_iff : run ∈ trailingPaths path ↔ EndsWithRun path run := by
  rw [trailingPaths, List.mem_cons, mem_afterSlashes_iff, EndsWithRun, eq_comm]

end WorkspaceLink.Glob
