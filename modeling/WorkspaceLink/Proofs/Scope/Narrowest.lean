import WorkspaceLink.Proofs.Scope.Flattening

/-! The symbol around a position among all symbols of a forest. Only symbols come into question that
are reached through symbols around the position and have no child around it; of these it is the first
of the narrowest. Where children lie within their parents, no other symbol is narrower either. -/

namespace WorkspaceLink

namespace Range

variable {a b c : Range}

/-- A range is narrower if it goes on for fewer lines or, with as many lines, fewer characters. -/
def Narrower (a b : Range) : Prop :=
  Prod.Lex (· < ·) (· < ·) (a.lineSpan, a.charSpan) (b.lineSpan, b.charSpan)

theorem narrower_iff : a.Narrower b ↔
    a.lineSpan < b.lineSpan ∨ a.lineSpan = b.lineSpan ∧ a.charSpan < b.charSpan :=
  Prod.lex_def

theorem narrower_iff_isNarrower : a.Narrower b ↔ a.isNarrower b = true :=
  narrower_iff.trans isNarrower_iff.symm

theorem Narrower.asymm (hab : a.Narrower b) : ¬b.Narrower a := by
  rw [narrower_iff] at hab ⊢
  omega

theorem not_narrower_self (a : Range) : ¬a.Narrower a :=
  fun h => h.asymm h

theorem not_narrower_trans (hba : ¬b.Narrower a) (hcb : ¬c.Narrower b) : ¬c.Narrower a := by
  rw [narrower_iff] at hba hcb ⊢
  omega

theorem Within.not_narrower (hab : a.Within b) : ¬b.Narrower a := by
  obtain ⟨hstart, hstop⟩ := hab
  rw [Position.le_def] at hstart hstop
  rw [narrower_iff]
  simp only [lineSpan, charSpan]
  omega

end Range

namespace DocumentSymbol

variable {p : Position} {s t c : DocumentSymbol} {x y : Option DocumentSymbol}
  {above forest : List DocumentSymbol}

/-- A symbol is around a position that lies between its ends. -/
def IsAround (s : DocumentSymbol) (p : Position) : Prop :=
  s.range.start ≤ p ∧ p ≤ s.range.stop

instance (s : DocumentSymbol) (p : Position) : Decidable (s.IsAround p) :=
  inferInstanceAs (Decidable (_ ∧ _))

theorem isAround_iff : s.IsAround p ↔ s.range.contains p = true :=
  Range.contains_iff.symm

/-! ### Places in a forest -/

/-- A symbol with the symbols that it is nested in, from the inside out. -/
structure Place where
  symbol : DocumentSymbol
  above : List DocumentSymbol

mutual

/-- The places of a symbol and of all symbols below it, in the order of the document. -/
def places (above : List DocumentSymbol) : DocumentSymbol → List Place
  | ⟨name, detail, kind, range, selectionRange, children⟩ =>
    ⟨⟨name, detail, kind, range, selectionRange, children⟩, above⟩ ::
      forestPlaces (⟨name, detail, kind, range, selectionRange, children⟩ :: above) children

def forestPlaces (above : List DocumentSymbol) : List DocumentSymbol → List Place
  | [] => []
  | s :: forest => places above s ++ forestPlaces above forest

end

mutual

/-- Every symbol has one place, in the order of the document. -/
theorem symbol_places : ∀ {above : List DocumentSymbol} {s : DocumentSymbol},
    (places above s).map (·.symbol) = nodes s
  | above, ⟨name, detail, kind, range, selectionRange, children⟩ => by
    rw [places, List.map_cons, symbol_forestPlaces, nodes]

theorem symbol_forestPlaces : ∀ {above forest : List DocumentSymbol},
    (forestPlaces above forest).map (·.symbol) = forestNodes forest
  | _, [] => rfl
  | above, s :: forest => by
    rw [forestPlaces, List.map_append, symbol_places, symbol_forestPlaces, forestNodes]

end

mutual

theorem subset_above_of_mem_places : ∀ {above : List DocumentSymbol} {s : DocumentSymbol}
    {place : Place}, place ∈ places above s →
    s ∈ place.symbol :: place.above ∧ above ⊆ place.above
  | above, ⟨name, detail, kind, range, selectionRange, children⟩, place, h => by
    rw [places] at h
    rcases List.mem_cons.mp h with rfl | h
    · exact ⟨List.mem_cons_self, List.Subset.refl _⟩
    · obtain ⟨hself, habove⟩ := List.cons_subset.mp (subset_above_of_mem_forestPlaces h)
      exact ⟨List.mem_cons_of_mem _ hself, habove⟩

theorem subset_above_of_mem_forestPlaces : ∀ {above forest : List DocumentSymbol} {place : Place},
    place ∈ forestPlaces above forest → above ⊆ place.above
  | _, [], _, h => by cases h
  | above, s :: forest, place, h => by
    rw [forestPlaces] at h
    rcases List.mem_append.mp h with h | h
    · exact (subset_above_of_mem_places h).2
    · exact subset_above_of_mem_forestPlaces h

end

/-! ### Candidates -/

/-- Whether all symbols on the way to a place, down to its own, are around a position, and none of
the symbol's children is. -/
def Place.IsInnermost (p : Position) (place : Place) : Prop :=
  (∀ s ∈ place.symbol :: place.above, s.IsAround p) ∧ ∀ c ∈ place.symbol.children, ¬c.IsAround p

instance : DecidablePred (Place.IsInnermost p) :=
  fun place => inferInstanceAs (Decidable
    ((∀ s ∈ place.symbol :: place.above, s.IsAround p) ∧
      ∀ c ∈ place.symbol.children, ¬c.IsAround p))

/-- The symbols at the innermost of some places. -/
def innermostOf (p : Position) (places : List Place) : List DocumentSymbol :=
  (places.filter (·.IsInnermost p)).map (·.symbol)

/-- The symbols of a forest that come into question for a position, in the order of the document. -/
def innermost (p : Position) (forest : List DocumentSymbol) : List DocumentSymbol :=
  innermostOf p (forestPlaces [] forest)

theorem innermostOf_append (front back : List Place) :
    innermostOf p (front ++ back) = innermostOf p front ++ innermostOf p back := by
  rw [innermostOf, List.filter_append, List.map_append]
  rfl

theorem innermostOf_cons (place : Place) (places : List Place) : innermostOf p (place :: places) =
    if place.IsInnermost p then place.symbol :: innermostOf p places else innermostOf p places := by
  rw [innermostOf, List.filter_cons]
  simp only [decide_eq_true_eq]
  split <;> rfl

theorem innermostOf_places_of_not_isAround (h : ¬s.IsAround p) :
    innermostOf p (places above s) = [] := by
  rw [innermostOf, List.map_eq_nil_iff, List.filter_eq_nil_iff]
  intro place hplace hinnermost
  have haround := (of_decide_eq_true hinnermost).1
  exact h (haround s (subset_above_of_mem_places hplace).1)

/-! ### The narrowest -/

/-- A symbol of a list that is narrower than all before it, while none after it is narrower. -/
def IsFirstNarrowest (symbols : List DocumentSymbol) (s : DocumentSymbol) : Prop :=
  ∃ front back, symbols = front ++ s :: back ∧ (∀ t ∈ front, s.range.Narrower t.range) ∧
    ∀ t ∈ back, ¬t.range.Narrower s.range

/-- The first of the narrowest symbols in a list. -/
def narrowest (symbols : List DocumentSymbol) : Option DocumentSymbol :=
  symbols.foldr (fun s x => narrower? (some s) x) none

theorem narrowest_cons (s : DocumentSymbol) (symbols : List DocumentSymbol) :
    narrowest (s :: symbols) = narrower? (some s) (narrowest symbols) :=
  rfl

theorem narrowest_append (front back : List DocumentSymbol) :
    narrowest (front ++ back) = narrower? (narrowest front) (narrowest back) := by
  induction front with
  | nil => rfl
  | cons s front ih => rw [List.cons_append, narrowest_cons, narrowest_cons, ih, narrower?_assoc]

theorem narrower?_some : narrower? (some s) (some t) =
    if t.range.isNarrower s.range then some t else some s :=
  rfl

theorem narrower?_eq_none_iff : narrower? x y = none ↔ x = none ∧ y = none := by
  cases x with
  | none => simp [narrower?]
  | some a =>
    cases y with
    | none => simp [narrower?]
    | some b =>
      rw [narrower?]
      split <;> simp

theorem mem_of_narrowest {symbols : List DocumentSymbol} (h : narrowest symbols = some s) :
    s ∈ symbols := by
  induction symbols with
  | nil => cases h
  | cons t symbols ih =>
    rcases narrower?_cases h with h | h
    · exact List.mem_cons.mpr (.inl (Option.some.inj h).symm)
    · exact List.mem_cons_of_mem t (ih h)

theorem narrowest_eq_none_iff {symbols : List DocumentSymbol} :
    narrowest symbols = none ↔ symbols = [] := by
  cases symbols with
  | nil => simp [narrowest]
  | cons s symbols => simp [narrowest_cons, narrower?_eq_none_iff]

/-- What is first and narrowest is found: what precedes it is wider, and what follows is no better. -/
theorem IsFirstNarrowest.narrowest_eq {symbols : List DocumentSymbol}
    (h : IsFirstNarrowest symbols s) : narrowest symbols = some s := by
  obtain ⟨front, back, rfl, hfront, hback⟩ := h
  induction front with
  | nil =>
    rw [List.nil_append, narrowest_cons]
    cases hrest : narrowest back with
    | none => rfl
    | some t =>
      rw [narrower?_some, if_neg]
      rw [← Range.narrower_iff_isNarrower]
      exact hback t (mem_of_narrowest hrest)
  | cons t front ih =>
    obtain ⟨hfirst, hrest⟩ := List.forall_mem_cons.mp hfront
    rw [List.cons_append, narrowest_cons, ih hrest, narrower?_some, if_pos]
    exact Range.narrower_iff_isNarrower.mp hfirst

theorem isFirstNarrowest_of_narrowest {symbols : List DocumentSymbol}
    (h : narrowest symbols = some s) : IsFirstNarrowest symbols s := by
  induction symbols generalizing s with
  | nil => cases h
  | cons t symbols ih =>
    rw [narrowest_cons] at h
    cases hrest : narrowest symbols with
    | none =>
      rw [hrest, narrower?_none] at h
      obtain rfl : t = s := Option.some.inj h
      rw [narrowest_eq_none_iff.mp hrest]
      exact ⟨[], [], rfl, nofun, nofun⟩
    | some u =>
      obtain ⟨front, back, hsymbols, hfront, hback⟩ := ih hrest
      rw [hrest, narrower?_some] at h
      split at h
      · next hnarrower =>
        obtain rfl : u = s := Option.some.inj h
        rw [← Range.narrower_iff_isNarrower] at hnarrower
        exact ⟨t :: front, back, congrArg (t :: ·) hsymbols,
          List.forall_mem_cons.mpr ⟨hnarrower, hfront⟩, hback⟩
      · next hwide =>
        obtain rfl : t = s := Option.some.inj h
        rw [← Range.narrower_iff_isNarrower] at hwide
        -- no symbol is narrower than the narrowest of the rest, which is not narrower than `t`
        have hleast : ∀ v ∈ symbols, ¬v.range.Narrower u.range := by
          rw [hsymbols]
          exact List.forall_mem_append.mpr ⟨fun v hv => (hfront v hv).asymm,
            List.forall_mem_cons.mpr ⟨Range.not_narrower_self u.range, hback⟩⟩
        exact ⟨[], symbols, rfl, nofun, fun v hv => Range.not_narrower_trans hwide (hleast v hv)⟩

/-! ### The way down -/

theorem at?_eq (p : Position) (s : DocumentSymbol) :
    at? p s = if s.IsAround p then some ((enclosing? p s.children).getD s) else none := by
  obtain ⟨name, detail, kind, range, selectionRange, children⟩ := s
  simp only [at?, isAround_iff]

theorem places_eq (above : List DocumentSymbol) (s : DocumentSymbol) :
    places above s = ⟨s, above⟩ :: forestPlaces (s :: above) s.children := by
  obtain ⟨name, detail, kind, range, selectionRange, children⟩ := s
  rw [places]

theorem at?_eq_none_iff : at? p s = none ↔ ¬s.IsAround p := by
  rw [at?_eq]
  split <;> simp_all

theorem enclosing?_eq_none_iff : enclosing? p forest = none ↔ ∀ s ∈ forest, ¬s.IsAround p := by
  induction forest with
  | nil => simp [enclosing?]
  | cons s forest ih =>
    rw [enclosing?, narrower?_eq_none_iff, at?_eq_none_iff, ih, List.forall_mem_cons]

/-- If the first of the narrowest candidates below a symbol is found, so is that of the symbol with
all below it. -/
theorem at?_of_children (hway : ∀ a ∈ s :: above, a.IsAround p)
    (hbelow : enclosing? p s.children =
      narrowest (innermostOf p (forestPlaces (s :: above) s.children))) :
    at? p s = narrowest (innermostOf p (places above s)) := by
  rw [at?_eq, if_pos (hway s List.mem_cons_self), places_eq, innermostOf_cons]
  cases hchildren : enclosing? p s.children with
  | none =>
    -- no child is around the position, and the symbol is the only candidate
    have hinnermost : Place.IsInnermost p ⟨s, above⟩ := ⟨hway, enclosing?_eq_none_iff.mp hchildren⟩
    rw [hchildren] at hbelow
    rw [if_pos hinnermost, narrowest_eq_none_iff.mp hbelow.symm]
    rfl
  | some c =>
    -- some child is around the position, and the candidates are those below the symbol
    have hinnermost : ¬Place.IsInnermost p ⟨s, above⟩ := by
      intro h
      rw [enclosing?_eq_none_iff.mpr h.2] at hchildren
      cases hchildren
    rw [if_neg hinnermost, ← hbelow, hchildren]
    rfl

mutual

theorem at?_eq_narrowest : ∀ {above : List DocumentSymbol} {s : DocumentSymbol},
    (∀ a ∈ above, a.IsAround p) → at? p s = narrowest (innermostOf p (places above s))
  | above, ⟨name, detail, kind, range, selectionRange, children⟩, habove => by
    -- a search stops at a symbol that is not around `p`, and no candidate lies below one
    by_cases hself : IsAround ⟨name, detail, kind, range, selectionRange, children⟩ p
    · have hway : ∀ a ∈ ⟨name, detail, kind, range, selectionRange, children⟩ :: above,
          a.IsAround p := List.forall_mem_cons.mpr ⟨hself, habove⟩
      exact at?_of_children hway (enclosing?_eq_narrowest hway)
    · rw [at?_eq_none_iff.mpr hself, innermostOf_places_of_not_isAround hself]
      rfl

theorem enclosing?_eq_narrowest : ∀ {above forest : List DocumentSymbol},
    (∀ a ∈ above, a.IsAround p) →
    enclosing? p forest = narrowest (innermostOf p (forestPlaces above forest))
  | _, [], _ => rfl
  | above, s :: forest, habove => by
    rw [enclosing?, at?_eq_narrowest habove, enclosing?_eq_narrowest habove, forestPlaces,
      innermostOf_append, narrowest_append]

end

/-! ### Symbols within their parents -/

theorem exists_narrower?_left (h : x = some s) :
    ∃ c, narrower? x y = some c ∧ ¬s.range.Narrower c.range := by
  rw [h]
  cases y with
  | none => exact ⟨s, rfl, Range.not_narrower_self s.range⟩
  | some t =>
    rw [narrower?_some]
    split
    · next hnarrower => exact ⟨t, rfl, (Range.narrower_iff_isNarrower.mpr hnarrower).asymm⟩
    · exact ⟨s, rfl, Range.not_narrower_self s.range⟩

theorem exists_narrower?_right (h : y = some t) :
    ∃ c, narrower? x y = some c ∧ ¬t.range.Narrower c.range := by
  rw [h]
  cases x with
  | none => exact ⟨t, rfl, Range.not_narrower_self t.range⟩
  | some s =>
    rw [narrower?_some]
    split
    · exact ⟨t, rfl, Range.not_narrower_self t.range⟩
    · next hwide => exact ⟨s, rfl, fun h => hwide (Range.narrower_iff_isNarrower.mp h)⟩

mutual

theorem exists_at?_of_mem : ∀ {s t : DocumentSymbol}, Contained (nodes s) → t ∈ nodes s →
    t.IsAround p → ∃ c, at? p s = some c ∧ ¬t.range.Narrower c.range
  | ⟨name, detail, kind, range, selectionRange, children⟩, t, hcontained, ht, haround => by
    -- what lies within the symbol is around the position only if the symbol is
    have hself : IsAround ⟨name, detail, kind, range, selectionRange, children⟩ p :=
      isAround_iff.mpr ((within_of_mem_nodes hcontained ht).contains (isAround_iff.mp haround))
    have hat := at?_eq p ⟨name, detail, kind, range, selectionRange, children⟩
    rw [if_pos hself] at hat
    rw [nodes] at ht
    -- what is found lies within this symbol, and is no wider than anything around `p` below it
    rcases List.mem_cons.mp ht with rfl | ht
    · exact ⟨_, hat, (within_of_mem_nodes hcontained (mem_nodes_of_at? hat)).not_narrower⟩
    · rw [nodes] at hcontained
      obtain ⟨c, hc, hct⟩ := exists_enclosing?_of_mem (List.forall_mem_cons.mp hcontained).2 ht haround
      rw [hc] at hat
      exact ⟨c, hat, hct⟩

theorem exists_enclosing?_of_mem : ∀ {forest : List DocumentSymbol} {t : DocumentSymbol},
    Contained (forestNodes forest) → t ∈ forestNodes forest → t.IsAround p →
    ∃ c, enclosing? p forest = some c ∧ ¬t.range.Narrower c.range
  | [], _, _, ht, _ => by cases ht
  | s :: forest, t, hcontained, ht, haround => by
    rw [forestNodes] at hcontained ht
    obtain ⟨hfirst, hrest⟩ := List.forall_mem_append.mp hcontained
    rw [enclosing?]
    rcases List.mem_append.mp ht with ht | ht
    · obtain ⟨c, hc, hct⟩ := exists_at?_of_mem hfirst ht haround
      obtain ⟨d, hd, hdc⟩ := exists_narrower?_left (y := enclosing? p forest) hc
      exact ⟨d, hd, Range.not_narrower_trans hdc hct⟩
    · obtain ⟨c, hc, hct⟩ := exists_enclosing?_of_mem hrest ht haround
      obtain ⟨d, hd, hdc⟩ := exists_narrower?_right (x := at? p s) hc
      exact ⟨d, hd, Range.not_narrower_trans hdc hct⟩

end

/-- There is a symbol around a position if there is one among the roots. It is the first of the
narrowest that come into question and, where children lie within their parents, no symbol around the
position is narrower. -/
theorem enclosing?_smallest (forest : List DocumentSymbol) (p : Position) :
    (enclosing? p forest = none ↔ ∀ s ∈ forest, ¬s.IsAround p) ∧
      (∀ c, enclosing? p forest = some c ↔ IsFirstNarrowest (innermost p forest) c) ∧
      (Contained (forestNodes forest) → ∀ c, enclosing? p forest = some c →
        ∀ t ∈ forestNodes forest, t.IsAround p → ¬t.range.Narrower c.range) := by
  have hnarrowest : enclosing? p forest = narrowest (innermost p forest) :=
    enclosing?_eq_narrowest nofun
  refine ⟨enclosing?_eq_none_iff, fun c => ?_, fun hcontained c hc t ht haround => ?_⟩
  · rw [hnarrowest]
    exact ⟨isFirstNarrowest_of_narrowest, IsFirstNarrowest.narrowest_eq⟩
  · obtain ⟨d, hd, hdt⟩ := exists_enclosing?_of_mem hcontained ht haround
    obtain rfl : c = d := Option.some.inj (hc.symm.trans hd)
    exact hdt

theorem overlappingMethods_smallest : Contained (forestNodes overlappingMethods) ∧
    ∃ c, enclosing? ⟨6, 2⟩ overlappingMethods = some c ∧ c.name = "area".toList ∧
      ∀ t ∈ forestNodes overlappingMethods, t.IsAround ⟨6, 2⟩ → ¬t.range.Narrower c.range := by
  have hcontained : Contained (forestNodes overlappingMethods) := by decide +kernel
  have hname : (enclosing? ⟨6, 2⟩ overlappingMethods).map (·.name) = some "area".toList := by
    decide +kernel
  obtain ⟨c, hc, hcname⟩ := Option.map_eq_some_iff.mp hname
  exact ⟨hcontained, c, hc, hcname,
    (enclosing?_smallest overlappingMethods ⟨6, 2⟩).2.2 hcontained c hc⟩

end DocumentSymbol

end WorkspaceLink
