import WorkspaceLink.Proofs.Scope.Extension

/-! Angle brackets between a bracket and the one that closes it. The scan counts them as brackets,
also where they are signs. In a text whose other brackets are nested that does no harm exactly if
every `<` is closed. -/

namespace WorkspaceLink

namespace Bracket

/-- The kinds of brackets that are brackets only. -/
def roundKinds : List (Char × Char) :=
  [('(', ')'), ('[', ']'), ('{', '}')]

theorem closerOf?_of_mem_roundKinds {o closer : Char} (h : (o, closer) ∈ roundKinds) :
    closerOf? o = some closer :=
  closerOf?_eq_some_iff.mpr (List.mem_append_left [('<', '>')] h)

/-- A text in which round, square and curly brackets are nested. Angle brackets may stand anywhere
in it. -/
inductive Nested : Text → Prop
  | nil : Nested []
  | plain {c s} (hc : c ∉ ['(', ')', '[', ']', '{', '}']) (hs : Nested s) : Nested (c :: s)
  | group {c closer t s} (hc : (c, closer) ∈ roundKinds) (ht : Nested t) (hs : Nested s) :
      Nested (c :: (t ++ closer :: s))

/-- What a character adds to the number of round, square and curly brackets that are open. -/
def weight (c : Char) : Int :=
  if c ∈ ['(', '[', '{'] then 1 else if c ∈ [')', ']', '}'] then -1 else 0

/-- The opening brackets of a text less its closing ones, angle brackets set aside. -/
def excess : Text → Int
  | [] => 0
  | c :: s => weight c + excess s

variable {c closer : Char} {s t : Text} {Stray Stray' : Char → Prop}

theorem excess_append (s t : Text) : excess (s ++ t) = excess s + excess t := by
  induction s with
  | nil => rw [List.nil_append, excess, Int.zero_add]
  | cons c s ih => rw [List.cons_append, excess, excess, ih, Int.add_assoc]

theorem weight_of_not_bracket (hopener : closerOf? c = none) (hcloser : ¬IsCloser c) :
    weight c = 0 := by
  have hopens : c ∉ ['(', '[', '{'] := by
    simp only [List.mem_cons, List.not_mem_nil, or_false]
    rintro (rfl | rfl | rfl) <;> cases hopener
  have hcloses : c ∉ [')', ']', '}'] :=
    fun hmem => hcloser (isCloser_iff.mpr (List.mem_append_left ['>'] hmem))
  rw [weight, if_neg hopens, if_neg hcloses]

theorem weight_of_stray (hcloser : IsCloser c) (hc : c ≠ '>') : weight c = -1 := by
  simp only [isCloser_iff, List.mem_cons, List.not_mem_nil, or_false] at hcloser
  rcases hcloser with rfl | rfl | rfl | rfl
  · decide
  · decide
  · decide
  · exact absurd rfl hc

theorem weight_of_pair (h : closerOf? c = some closer) : weight c + weight closer = 0 := by
  simp only [closerOf?_eq_some_iff, List.mem_cons, Prod.mk.injEq, List.not_mem_nil, or_false] at h
  rcases h with ⟨rfl, rfl⟩ | ⟨rfl, rfl⟩ | ⟨rfl, rfl⟩ | ⟨rfl, rfl⟩ <;> decide

theorem excess_of_nested (h : Nested s) : excess s = 0 := by
  induction h with
  | nil => rfl
  | @plain c s hc _ ih =>
    have hweight : weight c = 0 := by
      simp only [List.mem_cons, List.not_mem_nil, or_false, not_or] at hc
      simp [weight, hc]
    rw [excess, hweight, ih, Int.zero_add]
  | @group c closer t s hc _ _ iht ihs =>
    have hpair := weight_of_pair (closerOf?_of_mem_roundKinds hc)
    rw [excess, excess_append, excess, iht, ihs]
    omega

theorem Interior.mono (hstray : ∀ c, Stray c → Stray' c) (h : Interior Stray closer s) :
    Interior Stray' closer s := by
  induction h with
  | nil => exact .nil
  | plain hopener hcloser _ ih => exact .plain hopener hcloser ih
  | stray hcloser hne hc _ ih => exact .stray hcloser hne (hstray _ hc) ih
  | group hopener _ _ iht ihs => exact .group hopener iht ihs

/-- Every bracket that is opened is closed, so that a text has no more opening brackets than closing
ones, and as many only if no closing bracket but `>` strays. -/
theorem excess_of_interior (h : Interior (fun _ => True) closer s) :
    excess s ≤ 0 ∧ (excess s = 0 → Interior (· = '>') closer s) := by
  induction h with
  | nil => exact ⟨Int.le_refl _, fun _ => .nil⟩
  | @plain closer c s hopener hcloser _ ih =>
    rw [excess, weight_of_not_bracket hopener hcloser, Int.zero_add]
    exact ⟨ih.1, fun h => .plain hopener hcloser (ih.2 h)⟩
  | @stray closer c s hcloser hne _ _ ih =>
    rw [excess]
    by_cases hc : c = '>'
    · have hweight : weight c = 0 := by rw [hc]; decide
      rw [hweight, Int.zero_add]
      exact ⟨ih.1, fun h => .stray hcloser hne hc (ih.2 h)⟩
    · rw [weight_of_stray hcloser hc]
      exact ⟨by omega, fun h => by omega⟩
  | @group closer c inner t s hopener _ _ iht ihs =>
    have hpair := weight_of_pair hopener
    rw [excess, excess_append, excess]
    exact ⟨by omega, fun h => .group hopener (iht.2 (by omega)) (ihs.2 (by omega))⟩

/-- What stands before `closer` if all brackets are nested, angle brackets like the others, but that
any number of `>` may stand alone. -/
def AnglesClosed (closer : Char) (s : Text) : Prop :=
  Interior (· = '>') closer s

end Bracket

open WorkspaceLink.Bracket

def genericCall : SourceText :=
  .ofContent "f(\n<T>\n->[x]);"

/-- What stands between the brackets of the call: a pair of angle brackets and an arrow. -/
def genericBody : Text :=
  ['<', 'T', '>', '-', '>', '[', 'x', ']']

theorem genericBody_nested : Nested genericBody := by
  have hindex : Nested ('[' :: (['x'] ++ ']' :: [])) :=
    .group (by decide) (.plain (by decide) .nil) .nil
  exact .plain (by decide) (.plain (by decide) (.plain (by decide) (.plain (by decide)
    (.plain (by decide) hindex))))

theorem genericBody_anglesClosed : AnglesClosed ')' genericBody := by
  have hindex : AnglesClosed ')' ('[' :: (['x'] ++ ']' :: [])) :=
    .group rfl (.plain rfl (by decide) .nil) .nil
  have harrow : AnglesClosed ')' ('-' :: '>' :: '[' :: (['x'] ++ ']' :: [])) :=
    .plain rfl (by decide) (.stray (by decide) (by decide) rfl hindex)
  exact .group rfl (.plain rfl (by decide) .nil) harrow

example : Range.extendToCloser genericCall ⟨⟨0, 0⟩, ⟨0, 2⟩⟩ = ⟨⟨0, 0⟩, ⟨2, 6⟩⟩ := by
  decide +kernel

def comparison : SourceText :=
  .ofContent "f \x7b\na < b\n\x7d"

end WorkspaceLink
