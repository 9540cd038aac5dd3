import Mathlib.Data.List.Induction
import WorkspaceLink.Scope.Grouping

/-! What is in a list of scopes to which references have been added one by one: for each stretch of
lines the scope of the first reference there, with all that follow. -/

namespace WorkspaceLink

namespace ScopeId

variable {a b c : ScopeId}

theorem le_iff : a.le b = true ↔
    a.startLine < b.startLine ∨ a.startLine = b.startLine ∧ a.endLine ≤ b.endLine := by
  simp [le]

theorem le_trans (hab : a.le b = true) (hbc : b.le c = true) : a.le c = true := by
  rw [le_iff] at hab hbc ⊢
  omega

theorem le_antisymm (hab : a.le b = true) (hba : b.le a = true) : a = b := by
  obtain ⟨startA, endA⟩ := a
  obtain ⟨startB, endB⟩ := b
  rw [le_iff] at hab hba
  dsimp only at hab hba
  have hstart : startA = startB := by omega
  have hend : endA = endB := by omega
  rw [hstart, hend]

theorem le_of_not_le (h : ¬a.le b = true) : b.le a = true := by
  rw [le_iff] at h ⊢
  omega

end ScopeId

namespace Scope

variable {s t : Scope} {scopes : List Scope} {id : ScopeId}

/-- Scopes in ascending order of their lines, no two of which cover the same. -/
def Ascending (scopes : List Scope) : Prop :=
  scopes.Pairwise fun s t => s.id.le t.id = true ∧ s.id ≠ t.id

/-- The scope of some lines. -/
def find? (id : ScopeId) (scopes : List Scope) : Option Scope :=
  scopes.find? (·.id = id)

/-- Whatever scope there is of the same lines, with the references of another added. -/
def addTo (s : Scope) (found : Option Scope) : Scope :=
  match found with
  | some t => { t with references := t.references ++ s.references }
  | none => s

theorem id_of_find? (h : find? id scopes = some s) : s.id = id := by
  simpa using List.find?_some h

theorem Ascending.mem_iff (h : Ascending scopes) : s ∈ scopes ↔ find? s.id scopes = some s := by
  refine ⟨fun hs => ?_, List.mem_of_find?_eq_some⟩
  induction scopes with
  | nil => cases hs
  | cons t scopes ih =>
    obtain ⟨hfirst, hrest⟩ := List.pairwise_cons.mp h
    rw [find?, List.find?_cons]
    rcases List.mem_cons.mp hs with rfl | hs
    · simp
    · simp only [(hfirst s hs).2, decide_false]
      exact ih hrest hs

/-! ### Insertion -/

theorem id_mem_insert (h : t ∈ insert s scopes) : t.id = s.id ∨ ∃ u ∈ scopes, t.id = u.id := by
  induction scopes with
  | nil => exact .inl (congrArg Scope.id (List.mem_singleton.mp h))
  | cons u scopes ih =>
    rw [insert] at h
    split at h
    · rcases List.mem_cons.mp h with rfl | h
      · exact .inr ⟨u, List.mem_cons_self, rfl⟩
      · exact .inr ⟨t, List.mem_cons_of_mem _ h, rfl⟩
    split at h
    · rcases List.mem_cons.mp h with rfl | h
      · exact .inr ⟨t, List.mem_cons_self, rfl⟩
      · refine (ih h).imp_right ?_
        rintro ⟨v, hv, heq⟩
        exact ⟨v, List.mem_cons_of_mem _ hv, heq⟩
    · rcases List.mem_cons.mp h with rfl | h
      · exact .inl rfl
      · exact .inr ⟨t, h, rfl⟩

theorem Ascending.insert (h : Ascending scopes) (s : Scope) : Ascending (insert s scopes) := by
  induction scopes with
  | nil => exact List.pairwise_singleton _ _
  | cons u scopes ih =>
    obtain ⟨hfirst, hrest⟩ := List.pairwise_cons.mp h
    rw [Scope.insert]
    split
    · exact List.pairwise_cons.mpr ⟨hfirst, hrest⟩
    next hne =>
    split
    · next hle =>
      refine List.pairwise_cons.mpr ⟨fun t ht => ?_, ih hrest⟩
      rcases id_mem_insert ht with heq | ⟨v, hv, heq⟩
      · rw [heq]
        exact ⟨hle, hne⟩
      · rw [heq]
        exact hfirst v hv
    · next hle =>
      -- what follows the first later scope is later too
      have hbefore := ScopeId.le_of_not_le hle
      refine List.pairwise_cons.mpr ⟨fun t ht => ?_, h⟩
      rcases List.mem_cons.mp ht with rfl | ht
      · exact ⟨hbefore, Ne.symm hne⟩
      · obtain ⟨hut, hdistinct⟩ := hfirst t ht
        refine ⟨ScopeId.le_trans hbefore hut, fun heq => hle ?_⟩
        rw [heq]
        exact hut

theorem find?_insert (h : Ascending scopes) (s : Scope) (id : ScopeId) :
    find? id (insert s scopes) =
      if s.id = id then some (s.addTo (find? id scopes)) else find? id scopes := by
  induction scopes with
  | nil => simp [insert, find?, addTo, List.find?_singleton]
  | cons u scopes ih =>
    obtain ⟨hfirst, hrest⟩ := List.pairwise_cons.mp h
    rw [insert]
    split
    · next heq =>
      by_cases hid : s.id = id
      · simp [find?, heq, hid, addTo]
      · simp [find?, heq, hid]
    next hne =>
    split
    · have hlater := ih hrest
      rw [find?] at hlater
      by_cases hu : u.id = id
      · have hid : s.id ≠ id := fun heq => hne (hu.trans heq.symm)
        simp [find?, hu, hid]
      · rw [find?, List.find?_cons_of_neg (by simpa using hu), hlater]
        simp [find?, hu]
    · next hle =>
      by_cases hid : s.id = id
      · -- a scope of the same lines would stand before the first later one
        have hnone : find? id (u :: scopes) = none := by
          refine List.find?_eq_none.mpr fun t ht => ?_
          rw [decide_eq_true_eq, ← hid]
          intro heq
          rcases List.mem_cons.mp ht with rfl | ht
          · exact hne heq
          · exact hle (heq ▸ (hfirst t ht).1)
        rw [if_pos hid, hnone]
        simp [find?, hid, addTo]
      · rw [if_neg hid, find?, List.find?_cons_of_neg (by simpa using hid)]
        rfl

/-! ### All insertions -/

/-- Scopes inserted one by one. -/
def insertAll (scopes : List Scope) : List Scope :=
  scopes.foldl (fun scopes s => s.insert scopes) []

theorem insertAll_concat (scopes : List Scope) (s : Scope) :
    insertAll (scopes ++ [s]) = insert s (insertAll scopes) :=
  List.foldl_append

theorem ascending_insertAll (scopes : List Scope) : Ascending (insertAll scopes) := by
  induction scopes using List.reverseRecOn with
  | nil => exact List.Pairwise.nil
  | append_singleton scopes s ih =>
    rw [insertAll_concat]
    exact ih.insert s

/-- Of the scopes of the same lines the first remains, with the references of all. -/
theorem find?_insertAll (scopes : List Scope) (id : ScopeId) :
    find? id (insertAll scopes) = (find? id scopes).map fun s =>
      { s with references := (scopes.filter (·.id = id)).flatMap (·.references) } := by
  induction scopes using List.reverseRecOn with
  | nil => rfl
  | append_singleton scopes s ih =>
    rw [insertAll_concat, find?_insert (ascending_insertAll scopes), ih, find?, find?,
      List.find?_append, List.filter_append, List.flatMap_append]
    by_cases hid : s.id = id
    · cases hfound : scopes.find? (·.id = id) with
      | none =>
        have hnone : scopes.filter (·.id = id) = [] :=
          List.filter_eq_nil_iff.mpr (List.find?_eq_none.mp hfound)
        subst hid
        simp [hnone, addTo]
      | some t => simp [hid, addTo]
    · simp [hid]

/-! ### References -/

variable {symbols : List DocumentSymbol} {source : Option SourceText} {settings : RenderSettings}
  {references : List Position} {scope : Scope} {p : Position}

theorem references_ofReference? (h : ofReference? symbols source settings p = some s) :
    s.references = [p] := by
  unfold ofReference? at h
  split at h
  · obtain rfl := Option.some.inj h
    rfl
  · split at h
    · cases h
    · split at h
      · obtain rfl := Option.some.inj h
        rfl
      · cases h

/-- The references whose scopes cover some lines. -/
def referencesAt (symbols : List DocumentSymbol) (source : Option SourceText)
    (settings : RenderSettings) (id : ScopeId) (references : List Position) : List Position :=
  references.filter fun p => (ofReference? symbols source settings p).any (·.id = id)

theorem flatMap_references (id : ScopeId) (references : List Position) :
    ((references.filterMap (ofReference? symbols source settings)).filter (·.id = id)).flatMap
      (·.references) = referencesAt symbols source settings id references := by
  rw [referencesAt]
  induction references with
  | nil => rfl
  | cons p references ih =>
    cases hs : ofReference? symbols source settings p with
    | none => simpa [hs] using ih
    | some s =>
      by_cases hid : s.id = id
      · simpa [hs, hid, references_ofReference? hs] using ih
      · simpa [hs, hid] using ih

/-- A scope of a file's references is that of the first of them on its lines, with all of them. -/
theorem mem_groupReferences_iff : scope ∈ groupReferences symbols source references settings ↔
    ∃ s, find? scope.id (references.filterMap (ofReference? symbols source settings)) = some s ∧
      scope = { s with references := referencesAt symbols source settings scope.id references } := by
  have hgroup : groupReferences symbols source references settings =
      insertAll (references.filterMap (ofReference? symbols source settings)) := rfl
  rw [hgroup, (ascending_insertAll _).mem_iff, find?_insertAll, flatMap_references,
    Option.map_eq_some_iff]
  constructor
  · rintro ⟨s, hs, heq⟩
    exact ⟨s, hs, heq.symm⟩
  · rintro ⟨s, hs, heq⟩
    exact ⟨s, hs, heq.symm⟩

theorem mem_referencesAt_iff {id : ScopeId} :
    p ∈ referencesAt symbols source settings id references ↔
      p ∈ references ∧ ∃ s, ofReference? symbols source settings p = some s ∧ s.id = id := by
  rw [referencesAt, List.mem_filter]
  cases ofReference? symbols source settings p <;> simp

theorem mem_references_iff (h : scope ∈ groupReferences symbols source references settings) :
    p ∈ scope.references ↔
      p ∈ references ∧ ∃ s, ofReference? symbols source settings p = some s ∧ s.id = scope.id := by
  obtain ⟨s, -, heq⟩ := mem_groupReferences_iff.mp h
  rw [← mem_referencesAt_iff, congrArg Scope.references heq]

/-- What a scope is, and its text, are those of its first reference's own scope. -/
theorem exists_first (h : scope ∈ groupReferences symbols source references settings) :
    ∃ p, scope.references.head? = some p ∧
      ∃ s, ofReference? symbols source settings p = some s ∧ scope.id = s.id ∧
        scope.kind = s.kind ∧ scope.text = s.text := by
  obtain ⟨s, hs, heq⟩ := mem_groupReferences_iff.mp h
  obtain ⟨p, -, hown⟩ := List.mem_filterMap.mp (List.mem_of_find?_eq_some hs)
  have hfirst : scope.references.head? = some p := by
    rw [find?, ← List.head?_filter, List.head?_eq_some_iff] at hs
    obtain ⟨later, hlater⟩ := hs
    rw [congrArg Scope.references heq, ← flatMap_references, hlater, List.flatMap_cons,
      references_ofReference? hown]
    rfl
  refine ⟨p, hfirst, s, hown, ?_⟩
  rw [heq]
  exact ⟨id_of_find? hs ▸ rfl, rfl, rfl⟩

/-- What a scope is, and its text, are those of a reference in it. -/
theorem exists_shape (h : scope ∈ groupReferences symbols source references settings) :
    ∃ p ∈ scope.references, ∃ s, ofReference? symbols source settings p = some s ∧
      scope.kind = s.kind ∧ scope.text = s.text := by
  obtain ⟨p, hp, s, hs, -, hshape⟩ := exists_first h
  exact ⟨p, List.mem_of_head? hp, s, hs, hshape⟩

/-- Every reference that has a scope by itself is in one of the file's. -/
theorem exists_mem_groupReferences (hp : p ∈ references)
    (hs : ofReference? symbols source settings p = some s) :
    ∃ scope ∈ groupReferences symbols source references settings, scope.id = s.id := by
  let own := references.filterMap (ofReference? symbols source settings)
  have hown : s ∈ own := List.mem_filterMap.mpr ⟨p, hp, hs⟩
  obtain ⟨t, ht⟩ := Option.isSome_iff_exists.mp
    (List.find?_isSome (p := (·.id = s.id)).mpr ⟨s, hown, decide_eq_true rfl⟩)
  have hid := id_of_find? ht
  refine ⟨{ t with references := referencesAt symbols source settings s.id references }, ?_, hid⟩
  exact mem_groupReferences_iff.mpr ⟨t, hid.symm ▸ ht, by rw [hid]⟩

end Scope

end WorkspaceLink
