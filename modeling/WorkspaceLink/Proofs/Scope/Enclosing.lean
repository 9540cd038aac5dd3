import WorkspaceLink.Scope.Enclosing

/-! The symbol around a position contains the position. -/

namespace WorkspaceLink.DocumentSymbol

variable {p : Position} {c : DocumentSymbol} {x y : Option DocumentSymbol}

/-- Of two candidates one is chosen. -/
theorem narrower?_cases (h : narrower? x y = some c) : x = some c ∨ y = some c := by
  cases x with
  | none => exact .inr h
  | some a =>
    cases y with
    | none => exact .inl h
    | some b =>
      rw [narrower?] at h
      split at h
      · exact .inr h
      · exact .inl h

mutual

theorem contains_of_at? : ∀ {s : DocumentSymbol} {c : DocumentSymbol},
    at? p s = some c → c.range.contains p = true
  | ⟨_, _, _, range, _, children⟩, c, h => by
    rw [at?] at h
    split at h
    · next hrange =>
      have hc := Option.some.inj h
      cases hbelow : enclosing? p children with
      | none =>
        rw [hbelow, Option.getD_none] at hc
        rwa [← hc]
      | some d =>
        rw [hbelow, Option.getD_some] at hc
        rw [← hc]
        exact contains_of_enclosing? hbelow
    · cases h

theorem contains_of_enclosing? : ∀ {forest : List DocumentSymbol} {c : DocumentSymbol},
    enclosing? p forest = some c → c.range.contains p = true
  | [], _, h => by cases h
  | s :: forest, c, h => by
    rw [enclosing?] at h
    rcases narrower?_cases h with h | h
    · exact contains_of_at? h
    · exact contains_of_enclosing? h

end

end WorkspaceLink.DocumentSymbol
