import WorkspaceLink.Proofs.Scope.Grouping

/-! Which scope a reference is shown in. Scopes are told apart by their lines alone, so that a
reference can come into the scope of another symbol, or of a window, that covers the same. -/

namespace WorkspaceLink

namespace Scope

variable (symbols : List DocumentSymbol) (source : Option SourceText) (settings : RenderSettings)
  (references : List Position)

/-- What a reference resolves to: the range of the symbol around it or, outside every symbol, that of
the window of lines near it. -/
def resolved? (p : Position) : Option Range :=
  match DocumentSymbol.enclosing? p symbols with
  | some symbol => some symbol.range
  | none =>
    source.bind fun source =>
      ((source.contextWindow p.line settings.fallbackContextLines).toOption).map (·.2)

/-- The name and the kind of the symbol around a reference. -/
def enclosingName? (p : Position) : Option (Text × SymbolKind) :=
  (DocumentSymbol.enclosing? p symbols).map fun symbol => (symbol.name, symbol.kind)

/-- Whether a scope is what a reference in it asks for: the symbol around the reference, with the text
of the symbol's range, or else a window. -/
def Shows (scope : Scope) (p : Position) : Prop :=
  match DocumentSymbol.enclosing? p symbols with
  | some symbol =>
    scope.kind = .symbol symbol.name symbol.kind ∧ scope.text = textOfSymbol source symbol
  | none => ∃ anchor, scope.kind = .context anchor

/-- Every reference in a file is shown in the scope that it asks for, together only with references
that resolve to the same range. -/
structure Attributed : Prop where
  shown : ∀ scope ∈ groupReferences symbols source references settings, ∀ p ∈ scope.references,
    Shows symbols source scope p
  together : ∀ scope ∈ groupReferences symbols source references settings,
    ∀ p ∈ scope.references, ∀ q ∈ scope.references,
      resolved? symbols source settings p = resolved? symbols source settings q

/-- Whether two references resolve to the same range, and to the same symbol or both to none. -/
structure SameOrigin (p q : Position) : Prop where
  range : resolved? symbols source settings p = resolved? symbols source settings q
  symbol : enclosingName? symbols p = enclosingName? symbols q

variable {symbols source settings references} {p q : Position} {scope s : Scope}
  {symbol : DocumentSymbol}

theorem shows_iff_of_enclosing (h : DocumentSymbol.enclosing? p symbols = some symbol) :
    Shows symbols source scope p ↔
      scope.kind = .symbol symbol.name symbol.kind ∧ scope.text = textOfSymbol source symbol := by
  rw [Shows, h]

theorem shows_iff_of_not_enclosing (h : DocumentSymbol.enclosing? p symbols = none) :
    Shows symbols source scope p ↔ ∃ anchor, scope.kind = .context anchor := by
  rw [Shows, h]

theorem ofReference?_of_enclosing (h : DocumentSymbol.enclosing? p symbols = some symbol) :
    ofReference? symbols source settings p =
      some ⟨.ofRange symbol.range, .symbol symbol.name symbol.kind, textOfSymbol source symbol,
        [p]⟩ := by
  unfold ofReference?
  rw [h]

theorem kind_of_not_enclosing (h : DocumentSymbol.enclosing? p symbols = none)
    (hs : ofReference? symbols source settings p = some s) : s.kind = .context p.line := by
  unfold ofReference? at hs
  rw [h] at hs
  dsimp only at hs
  split at hs
  · cases hs
  · split at hs
    · obtain rfl := Option.some.inj hs
      rfl
    · cases hs

/-- The scope of a reference by itself is what the reference asks for. -/
theorem shows_ofReference? (h : ofReference? symbols source settings p = some s) :
    Shows symbols source s p := by
  cases hp : DocumentSymbol.enclosing? p symbols with
  | none => exact (shows_iff_of_not_enclosing hp).mpr ⟨p.line, kind_of_not_enclosing hp h⟩
  | some symbol =>
    rw [ofReference?_of_enclosing hp] at h
    obtain rfl := Option.some.inj h
    exact (shows_iff_of_enclosing hp).mpr ⟨rfl, rfl⟩

theorem Shows.congr (h : Shows symbols source s p) (hkind : scope.kind = s.kind)
    (htext : scope.text = s.text) : Shows symbols source scope p := by
  rw [Shows] at h ⊢
  rwa [hkind, htext]

/-- The text of a symbol's scope depends on the symbol's name and range alone. -/
theorem textOfSymbol_congr {a b : DocumentSymbol} (hname : a.name = b.name)
    (hrange : a.range = b.range) : textOfSymbol source a = textOfSymbol source b := by
  unfold textOfSymbol
  rw [hname, hrange]

/-- What one reference asks for, another of the same origin asks for too. -/
theorem SameOrigin.shows (h : SameOrigin symbols source settings p q)
    (hp : Shows symbols source scope p) : Shows symbols source scope q := by
  obtain ⟨hrange, hsymbol⟩ := h
  rw [enclosingName?, enclosingName?] at hsymbol
  cases hpa : DocumentSymbol.enclosing? p symbols with
  | none =>
    rw [hpa] at hsymbol
    have hqb := Option.map_eq_none_iff.mp hsymbol.symm
    exact (shows_iff_of_not_enclosing hqb).mpr ((shows_iff_of_not_enclosing hpa).mp hp)
  | some a =>
    rw [hpa] at hsymbol
    obtain ⟨b, hqb, hnames⟩ := Option.map_eq_some_iff.mp hsymbol.symm
    obtain ⟨hname, hkind⟩ := Prod.mk.inj hnames
    obtain ⟨hscope, htext⟩ := (shows_iff_of_enclosing hpa).mp hp
    rw [resolved?, resolved?, hpa, hqb] at hrange
    have hrange : a.range = b.range := Option.some.inj hrange
    refine (shows_iff_of_enclosing hqb).mpr ⟨?_, ?_⟩
    · rw [hscope, hname, hkind]
    · rw [htext, textOfSymbol_congr hname.symm hrange]

/-- A scope is what two references ask for only if they lie in the same symbol, or both outside every
symbol. -/
theorem enclosingName?_eq (hp : Shows symbols source scope p) (hq : Shows symbols source scope q) :
    enclosingName? symbols p = enclosingName? symbols q := by
  rw [enclosingName?, enclosingName?]
  cases hpa : DocumentSymbol.enclosing? p symbols with
  | none =>
    obtain ⟨anchor, hanchor⟩ := (shows_iff_of_not_enclosing hpa).mp hp
    cases hqb : DocumentSymbol.enclosing? q symbols with
    | none => rfl
    | some b =>
      have hb := ((shows_iff_of_enclosing hqb).mp hq).1
      rw [hanchor] at hb
      cases hb
  | some a =>
    have ha := ((shows_iff_of_enclosing hpa).mp hp).1
    cases hqb : DocumentSymbol.enclosing? q symbols with
    | none =>
      obtain ⟨anchor, hanchor⟩ := (shows_iff_of_not_enclosing hqb).mp hq
      rw [hanchor] at ha
      cases ha
    | some b =>
      have hb := ((shows_iff_of_enclosing hqb).mp hq).1
      rw [ha] at hb
      obtain ⟨hname, hkind⟩ := ScopeKind.symbol.inj hb
      exact congrArg some (Prod.ext hname hkind)

/-- References are shown rightly exactly if those whose scopes cover the same lines have the same
origin. -/
theorem attributed_iff (symbols : List DocumentSymbol) (source : Option SourceText)
    (settings : RenderSettings) (references : List Position) :
    Attributed symbols source settings references ↔
      ∀ p ∈ references, ∀ q ∈ references, ∀ s t,
        ofReference? symbols source settings p = some s →
        ofReference? symbols source settings q = some t → s.id = t.id →
        SameOrigin symbols source settings p q := by
  constructor
  · intro h p hp q hq s t hs ht hid
    -- the two share a scope, for each of them the right one
    obtain ⟨scope, hscope, hlines⟩ := exists_mem_groupReferences hp hs
    have hpmem := (mem_references_iff hscope).mpr ⟨hp, s, hs, hlines.symm⟩
    have hqmem := (mem_references_iff hscope).mpr ⟨hq, t, ht, hid.symm.trans hlines.symm⟩
    refine ⟨h.together scope hscope p hpmem q hqmem, ?_⟩
    exact enclosingName?_eq (h.shown scope hscope p hpmem) (h.shown scope hscope q hqmem)
  · intro h
    have horigin : ∀ scope ∈ groupReferences symbols source references settings,
        ∀ p ∈ scope.references, ∀ q ∈ scope.references, SameOrigin symbols source settings p q := by
      intro scope hscope p hp q hq
      obtain ⟨hp, s, hs, hsid⟩ := (mem_references_iff hscope).mp hp
      obtain ⟨hq, t, ht, htid⟩ := (mem_references_iff hscope).mp hq
      exact h p hp q hq s t hs ht (hsid.trans htid.symm)
    constructor
    · -- the scope is what the reference asks for that has shaped it
      intro scope hscope p hp
      obtain ⟨first, hfirst, s, hs, hkind, htext⟩ := exists_shape hscope
      have hfirst := horigin scope hscope first hfirst p hp
      exact hfirst.shows ((shows_ofReference? hs).congr hkind htext)
    · exact fun scope hscope p hp q hq => (horigin scope hscope p hp q hq).range

/-- Two functions on one line. -/
def neighbours : List DocumentSymbol :=
  [.leaf "a" .function ⟨⟨0, 0⟩, ⟨0, 9⟩⟩, .leaf "b" .function ⟨⟨0, 10⟩, ⟨0, 19⟩⟩]

/-- A reference in the second of two functions on one line is shown as one in the first. -/
theorem neighbours_not_attributed :
    ¬Attributed neighbours (some (.ofContent "fn a() {} fn b() {}")) .default
      [⟨0, 3⟩, ⟨0, 13⟩] := by
  intro h
  let scope : Scope := ⟨⟨0, 0⟩, .symbol "a" .function, "fn a() {}", [⟨0, 3⟩, ⟨0, 13⟩]⟩
  have hscope : scope ∈ groupReferences neighbours (some (.ofContent "fn a() {} fn b() {}"))
      [⟨0, 3⟩, ⟨0, 13⟩] .default := by
    decide +kernel
  have hshown := h.shown scope hscope ⟨0, 13⟩ (by decide)
  have hname : (ScopeKind.symbol "a" .function) = .symbol "b" .function := hshown.1
  exact absurd hname (by decide)

end Scope

end WorkspaceLink
