import Mathlib.Data.List.Basic
import WorkspaceLink.DocumentUri
import WorkspaceLink.Proofs.Scope.Enclosing

/-! The symbol around a position in a tree and in the list of the tree's nodes. Where children lie
within their parents, pruning what does not contain the position loses no candidate, and the last
symbol on the way down is the narrowest of all. -/

namespace WorkspaceLink

namespace Range

variable {a b c : Range} {p : Position}

/-- A range lies within another if it starts no earlier and stops no later. -/
def Within (a b : Range) : Prop :=
  b.start ≤ a.start ∧ a.stop ≤ b.stop

instance (a b : Range) : Decidable (a.Within b) :=
  inferInstanceAs (Decidable (_ ∧ _))

theorem Within.refl (a : Range) : a.Within a := by
  rw [Within, Position.le_def, Position.le_def]
  omega

theorem Within.trans (hab : a.Within b) (hbc : b.Within c) : a.Within c :=
  ⟨Position.le_trans hbc.1 hab.1, Position.le_trans hab.2 hbc.2⟩

theorem Within.antisymm (hab : a.Within b) (hba : b.Within a) : a = b := by
  obtain ⟨startA, stopA⟩ := a
  obtain ⟨startB, stopB⟩ := b
  have hstart : startA = startB := Position.le_antisymm hba.1 hab.1
  have hstop : stopA = stopB := Position.le_antisymm hab.2 hba.2
  rw [hstart, hstop]

theorem Within.contains (hab : a.Within b) (hp : a.contains p = true) : b.contains p = true := by
  rw [contains_iff] at hp ⊢
  exact ⟨Position.le_trans hab.1 hp.1, Position.le_trans hp.2 hab.2⟩

theorem isNarrower_iff : a.isNarrower b = true ↔
    a.lineSpan < b.lineSpan ∨ a.lineSpan = b.lineSpan ∧ a.charSpan < b.charSpan := by
  simp [isNarrower]

/-- A range within another, and not the same, is narrower. -/
theorem Within.isNarrower (hab : a.Within b) (hne : a ≠ b) : a.isNarrower b = true := by
  rw [isNarrower_iff]
  by_contra hwide
  have hba : b.Within a := by
    obtain ⟨hstart, hstop⟩ := hab
    rw [Position.le_def] at hstart hstop
    rw [lineSpan, lineSpan, charSpan, charSpan] at hwide
    rw [Within, Position.le_def, Position.le_def]
    omega
  exact hne (hab.antisymm hba)

end Range

namespace DocumentSymbol

variable {p : Position} {x y z : Option DocumentSymbol} {c s : DocumentSymbol} {range : Range}
  {forest : List DocumentSymbol}

/-! ### Choosing the narrowest -/

theorem narrower?_none : narrower? x none = x := by
  cases x <;> rfl

theorem narrower?_assoc : narrower? (narrower? x y) z = narrower? x (narrower? y z) := by
  cases x with
  | none => rfl
  | some a =>
    cases y with
    | none => rfl
    | some b =>
      cases z with
      | none => rw [narrower?_none, narrower?_none]
      | some c =>
        -- both sides choose `c` only if it is narrower than the first two
        have htrans : b.range.isNarrower a.range = true → c.range.isNarrower b.range = true →
            c.range.isNarrower a.range = true := by
          simp only [Range.isNarrower_iff]
          omega
        have hwide : ¬b.range.isNarrower a.range = true → ¬c.range.isNarrower b.range = true →
            ¬c.range.isNarrower a.range = true := by
          simp only [Range.isNarrower_iff]
          omega
        by_cases hba : b.range.isNarrower a.range = true <;>
          by_cases hcb : c.range.isNarrower b.range = true
        · simp [narrower?, hba, hcb, htrans hba hcb]
        · simp [narrower?, hba, hcb]
        · simp [narrower?, hba, hcb]
        · simp [narrower?, hba, hcb, hwide hba hcb]

theorem enclosing?_append (front back : List DocumentSymbol) :
    enclosing? p (front ++ back) = narrower? (enclosing? p front) (enclosing? p back) := by
  induction front with
  | nil => rfl
  | cons s front ih => rw [List.cons_append, enclosing?, enclosing?, ih, narrower?_assoc]

/-! ### Nodes -/

mutual

/-- A symbol and all symbols below it in the order of the document: each before its children. -/
def nodes : DocumentSymbol → List DocumentSymbol
  | ⟨name, detail, kind, range, selectionRange, children⟩ =>
    ⟨name, detail, kind, range, selectionRange, children⟩ :: forestNodes children

def forestNodes : List DocumentSymbol → List DocumentSymbol
  | [] => []
  | s :: forest => nodes s ++ forestNodes forest

end

/-- Whether every symbol's children lie within the symbol's range and have other ranges. -/
def Nested (symbols : List DocumentSymbol) : Prop :=
  ∀ s ∈ symbols, ∀ c ∈ s.children, c.range.Within s.range ∧ c.range ≠ s.range

instance : DecidablePred Nested :=
  fun symbols => inferInstanceAs
    (Decidable (∀ s ∈ symbols, ∀ c ∈ s.children, c.range.Within s.range ∧ c.range ≠ s.range))

/-- Whether every symbol's children lie within the symbol's range. -/
def Contained (symbols : List DocumentSymbol) : Prop :=
  ∀ s ∈ symbols, ∀ c ∈ s.children, c.range.Within s.range

instance : DecidablePred Contained :=
  fun symbols => inferInstanceAs
    (Decidable (∀ s ∈ symbols, ∀ c ∈ s.children, c.range.Within s.range))

theorem Nested.contained {symbols : List DocumentSymbol} (h : Nested symbols) : Contained symbols :=
  fun s hs c hc => (h s hs c hc).1

/-- A symbol without what is nested in it. -/
def outline (s : DocumentSymbol) : DocumentSymbol :=
  .leaf s.name s.kind s.range

theorem narrower?_outline :
    narrower? (x.map outline) (y.map outline) = (narrower? x y).map outline := by
  cases x with
  | none => rfl
  | some a =>
    cases y with
    | none => rfl
    | some b =>
      have hranges : (outline b).range.isNarrower (outline a).range =
          b.range.isNarrower a.range := rfl
      simp only [Option.map_some, narrower?, hranges]
      split <;> rfl

theorem at?_outline : at? p (outline s) = if s.range.contains p then some (outline s) else none := rfl

mutual

theorem mem_nodes_of_at? : ∀ {s c : DocumentSymbol}, at? p s = some c → c ∈ nodes s
  | ⟨name, detail, kind, range, selectionRange, children⟩, c, h => by
    rw [at?] at h
    rw [nodes]
    split at h
    · have hc := Option.some.inj h
      cases hbelow : enclosing? p children with
      | none =>
        rw [hbelow, Option.getD_none] at hc
        rw [← hc]
        exact List.mem_cons_self
      | some d =>
        rw [hbelow, Option.getD_some] at hc
        rw [← hc]
        exact List.mem_cons_of_mem _ (mem_forestNodes_of_enclosing? hbelow)
    · cases h

theorem mem_forestNodes_of_enclosing? : ∀ {forest : List DocumentSymbol} {c : DocumentSymbol},
    enclosing? p forest = some c → c ∈ forestNodes forest
  | [], _, h => by cases h
  | s :: forest, c, h => by
    rw [enclosing?] at h
    rw [forestNodes, List.mem_append]
    rcases narrower?_cases h with h | h
    · exact .inl (mem_nodes_of_at? h)
    · exact .inr (mem_forestNodes_of_enclosing? h)

end

mutual

theorem within_of_mem_nodes : ∀ {s c : DocumentSymbol}, Contained (nodes s) → c ∈ nodes s →
    c.range.Within s.range
  | ⟨name, detail, kind, range, selectionRange, children⟩, c, hcontained, hc => by
    rw [nodes] at hcontained hc
    obtain ⟨hself, hchildren⟩ := List.forall_mem_cons.mp hcontained
    rcases List.mem_cons.mp hc with rfl | hc
    · exact Range.Within.refl range
    · obtain ⟨child, hchild, hwithin⟩ := exists_within_of_mem_forestNodes hchildren hc
      exact hwithin.trans (hself child hchild)

theorem exists_within_of_mem_forestNodes : ∀ {forest : List DocumentSymbol} {c : DocumentSymbol},
    Contained (forestNodes forest) → c ∈ forestNodes forest → ∃ s ∈ forest, c.range.Within s.range
  | [], _, _, hc => by cases hc
  | s :: forest, c, hcontained, hc => by
    rw [forestNodes] at hcontained hc
    obtain ⟨hfirst, hrest⟩ := List.forall_mem_append.mp hcontained
    rcases List.mem_append.mp hc with hc | hc
    · exact ⟨s, List.mem_cons_self, within_of_mem_nodes hfirst hc⟩
    · obtain ⟨t, ht, hwithin⟩ := exists_within_of_mem_forestNodes hrest hc
      exact ⟨t, List.mem_cons_of_mem s ht, hwithin⟩

end

theorem within_of_children {children : List DocumentSymbol}
    (hself : ∀ d ∈ children, d.range.Within range ∧ d.range ≠ range)
    (hchildren : Nested (forestNodes children)) (h : enclosing? p children = some c) :
    c.range.Within range ∧ c.range.isNarrower range = true := by
  obtain ⟨child, hchild, hc⟩ :=
    exists_within_of_mem_forestNodes hchildren.contained (mem_forestNodes_of_enclosing? h)
  obtain ⟨hwithin, hne⟩ := hself child hchild
  have hwhole : c.range.Within range := hc.trans hwithin
  refine ⟨hwhole, hwhole.isNarrower fun heq => ?_⟩
  -- it would fill the child as well, which has another range
  rw [heq] at hc
  exact hne (hwithin.antisymm hc)

mutual

theorem enclosing?_nodes : ∀ {s : DocumentSymbol}, Nested (nodes s) →
    enclosing? p ((nodes s).map outline) = (at? p s).map outline
  | ⟨name, detail, kind, range, selectionRange, children⟩, hnested => by
    rw [nodes] at hnested
    obtain ⟨hself, hchildren⟩ := List.forall_mem_cons.mp hnested
    -- what is found among all nodes below is what is found among the children
    rw [nodes, List.map_cons, enclosing?, at?_outline, enclosing?_forestNodes hchildren, at?]
    cases hbelow : enclosing? p children with
    | none =>
      rw [Option.map_none, narrower?_none]
      split <;> rfl
    | some c =>
      -- the position lies in what is found below, hence in the symbol itself
      obtain ⟨hwithin, hnarrower⟩ := within_of_children hself hchildren hbelow
      have hcontains : range.contains p = true :=
        hwithin.contains (contains_of_enclosing? hbelow)
      have hranges : (outline c).range.isNarrower range = true := hnarrower
      rw [if_pos hcontains, if_pos hcontains, Option.map_some, narrower?]
      exact if_pos hranges

theorem enclosing?_forestNodes : ∀ {forest : List DocumentSymbol}, Nested (forestNodes forest) →
    enclosing? p ((forestNodes forest).map outline) = (enclosing? p forest).map outline
  | [], _ => rfl
  | s :: forest, hnested => by
    rw [forestNodes] at hnested
    obtain ⟨hfirst, hrest⟩ := List.forall_mem_append.mp hnested
    rw [forestNodes, List.map_append, enclosing?_append, enclosing?_nodes hfirst,
      enclosing?_forestNodes hrest, narrower?_outline, enclosing?]

end

/-! ### Responses -/

/-- What two forms of a response say of a symbol alike. -/
def brief (s : DocumentSymbol) : Text × SymbolKind × Range :=
  (s.name, s.kind, s.range)

theorem toForest_flat {infos : List SymbolInformation} {symbols : List DocumentSymbol}
    (hlisted : infos.map (fun i => (i.name, i.kind, i.location.range)) = symbols.map brief) :
    (SymbolResponse.flat infos).toForest = symbols.map outline := by
  have hleaves := congrArg (List.map fun (name, kind, range) => leaf name kind range) hlisted
  rw [List.map_map, List.map_map] at hleaves
  exact hleaves

/-- The symbol around a position has the same name, kind and range whether symbols come as a tree or
as the list of all nodes of the tree. -/
theorem enclosing?_flat_eq {forest : List DocumentSymbol} {infos : List SymbolInformation}
    (hnested : Nested (forestNodes forest))
    (hlisted : infos.map (fun i => (i.name, i.kind, i.location.range)) =
      (forestNodes forest).map brief) (p : Position) :
    (enclosing? p (SymbolResponse.flat infos).toForest).map brief =
      (enclosing? p (SymbolResponse.nested forest).toForest).map brief := by
  have hforest : (SymbolResponse.nested forest).toForest = forest := rfl
  rw [hforest, toForest_flat hlisted, enclosing?_forestNodes hnested, Option.map_map]
  rfl

/-- Two methods of one range in a class, the first with a function of its own. -/
def overlappingMethods : List DocumentSymbol :=
  [{ leaf "Shape" .class ⟨⟨0, 0⟩, ⟨9, 1⟩⟩ with
      children :=
        [{ leaf "area" .method ⟨⟨2, 4⟩, ⟨6, 5⟩⟩ with
            children := [leaf "scale" .function ⟨⟨3, 0⟩, ⟨3, 20⟩⟩] },
          leaf "width" .method ⟨⟨2, 4⟩, ⟨6, 5⟩⟩] },
    leaf "main" .function ⟨⟨6, 0⟩, ⟨12, 1⟩⟩]

def overlappingList : List SymbolInformation :=
  (forestNodes overlappingMethods).map fun s =>
    ⟨s.name, s.kind, ⟨.ofPath "/ws/shape.ts", s.range⟩, none⟩

theorem overlappingMethods_flat : Nested (forestNodes overlappingMethods) ∧
    overlappingList.map (fun i => (i.name, i.kind, i.location.range)) =
      (forestNodes overlappingMethods).map brief ∧
    (enclosing? ⟨6, 2⟩ (SymbolResponse.flat overlappingList).toForest).map brief =
      (enclosing? ⟨6, 2⟩ (SymbolResponse.nested overlappingMethods).toForest).map brief := by
  have hnested : Nested (forestNodes overlappingMethods) := by decide +kernel
  have hlisted : overlappingList.map (fun i => (i.name, i.kind, i.location.range)) =
      (forestNodes overlappingMethods).map brief := by
    decide +kernel
  exact ⟨hnested, hlisted, enclosing?_flat_eq hnested hlisted ⟨6, 2⟩⟩

end DocumentSymbol

end WorkspaceLink
