import Mathlib.Logic.Function.Basic
import WorkspaceLink.Proofs.Scope.Grouping
import WorkspaceLink.Proofs.Scope.Lines

/-! Grouping neither loses nor duplicates references. Each stretch of lines that some reference
belongs to has one scope, with all its references in their order, whatever the order in which a
table of the scopes is listed. -/

namespace WorkspaceLink.Scope

variable (symbols : List DocumentSymbol) (source : Option SourceText) (settings : RenderSettings)

/-- The lines of the scope that a reference belongs to: those of the symbol around it or, outside
every symbol, those near it in a source that has its line. -/
def key? (p : Position) : Option ScopeId :=
  match DocumentSymbol.enclosing? p symbols with
  | some symbol => some ⟨symbol.range.start.line, symbol.range.stop.line⟩
  | none =>
    source.bind fun source =>
      if p.line < source.lineCount then
        some ⟨p.line - settings.fallbackContextLines,
          min (coordAfter p.line settings.fallbackContextLines) (source.lineCount - 1)⟩
      else none

theorem id_ofReference? (p : Position) :
    (ofReference? symbols source settings p).map (·.id) = key? symbols source settings p := by
  unfold ofReference? key?
  cases DocumentSymbol.enclosing? p symbols with
  | some symbol => rfl
  | none =>
    cases source with
    | none => rfl
    | some source =>
      rw [Option.bind_some]
      by_cases hline : p.line < source.lineCount
      · obtain ⟨stop, hwindow⟩ :=
          SourceText.contextWindow_of_lt hline settings.fallbackContextLines
        rw [if_pos hline]
        simp only [hwindow]
        rfl
      · rw [if_neg hline]
        simp only [SourceText.contextWindow_of_le (Nat.le_of_not_lt hline)]
        rfl

theorem referencesAt_eq (id : ScopeId) (references : List Position) :
    referencesAt symbols source settings id references =
      references.filter fun p => key? symbols source settings p = some id := by
  apply List.filter_congr
  intro p _
  rw [← id_ofReference?]
  cases ofReference? symbols source settings p <;> simp

/-! ### References under their keys -/

/-- References in scopes by key: one scope, in ascending order, for each key that occurs, with
exactly the references of that key in their order. A reference without a key is in none. -/
structure GroupedBy (key : Position → Option ScopeId) (references : List Position)
    (scopes : List Scope) : Prop where
  ascending : Ascending scopes
  occurs : ∀ id, (∃ scope ∈ scopes, scope.id = id) ↔ ∃ p ∈ references, key p = some id
  exact : ∀ scope ∈ scopes, scope.references = references.filter fun p => key p = some scope.id
  total : (scopes.flatMap (·.references)).Perm (references.filter fun p => (key p).isSome)

variable {symbols source settings} {key : Position → Option ScopeId} {references : List Position}
  {scopes : List Scope}

theorem Ascending.nodup_ids (h : Ascending scopes) : (scopes.map (·.id)).Nodup :=
  List.pairwise_map.mpr (h.imp And.right)

/-- References taken by each of some keys are those that have one of the keys. -/
theorem flatMap_filter_perm {ids : List ScopeId} (hids : ids.Nodup) :
    (ids.flatMap fun id => references.filter fun p => key p = some id).Perm
      (references.filter fun p => (key p).any (· ∈ ids)) := by
  induction ids with
  | nil =>
    rw [List.flatMap_nil, List.filter_eq_nil_iff.mpr]
    intro p _
    cases key p <;> simp
  | cons id ids ih =>
    obtain ⟨hid, hids⟩ := List.nodup_cons.mp hids
    let hasKey (p : Position) : Bool := (key p).any (· ∈ id :: ids)
    -- of these, the references with the first key, and those with one of the others
    have hfirst : (references.filter hasKey).filter (fun p => key p = some id) =
        references.filter fun p => key p = some id := by
      rw [List.filter_filter]
      apply List.filter_congr
      intro p _
      cases hkey : key p with
      | none => simp
      | some k =>
        by_cases hk : k = id <;> simp [hasKey, hkey, hk]
    have hrest : (references.filter hasKey).filter (fun p => !decide (key p = some id)) =
        references.filter fun p => (key p).any (· ∈ ids) := by
      rw [List.filter_filter]
      apply List.filter_congr
      intro p _
      cases hkey : key p with
      | none => simp [hasKey, hkey]
      | some k =>
        by_cases hk : k = id
        · simp [hk, hid]
        · simp [hasKey, hkey, hk]
    have hsplit := List.filter_append_perm (fun p => decide (key p = some id))
      (references.filter hasKey)
    rw [hfirst, hrest] at hsplit
    rw [List.flatMap_cons]
    exact ((ih hids).append_left _).trans hsplit

theorem GroupedBy.of_exact (hascending : Ascending scopes)
    (hoccurs : ∀ id, (∃ scope ∈ scopes, scope.id = id) ↔ ∃ p ∈ references, key p = some id)
    (hexact : ∀ scope ∈ scopes, scope.references =
      references.filter fun p => key p = some scope.id) : GroupedBy key references scopes := by
  refine ⟨hascending, hoccurs, hexact, ?_⟩
  -- the scopes have each key that occurs, once
  have hflat : scopes.flatMap (·.references) = (scopes.map (·.id)).flatMap fun id =>
      references.filter fun p => key p = some id := by
    rw [List.flatMap_map, List.flatMap_def, List.flatMap_def, List.map_congr_left hexact]
  have hkeys : references.filter (fun p => (key p).any (· ∈ scopes.map (·.id))) =
      references.filter fun p => (key p).isSome := by
    apply List.filter_congr
    intro p hp
    cases hkey : key p with
    | none => rfl
    | some id =>
      obtain ⟨scope, hscope, rfl⟩ := (hoccurs id).mpr ⟨p, hp, hkey⟩
      simpa using ⟨scope, hscope, rfl⟩
  rw [hflat, ← hkeys]
  exact flatMap_filter_perm hascending.nodup_ids

theorem groupedBy_groupReferences : GroupedBy (key? symbols source settings) references
    (groupReferences symbols source references settings) := by
  apply GroupedBy.of_exact
  · exact ascending_insertAll _
  · intro id
    constructor
    · rintro ⟨scope, hscope, rfl⟩
      obtain ⟨p, hp, s, hs, -⟩ := exists_shape hscope
      obtain ⟨hp, s, hs, hid⟩ := (mem_references_iff hscope).mp hp
      refine ⟨p, hp, ?_⟩
      rw [← id_ofReference?, hs, ← hid]
      rfl
    · rintro ⟨p, hp, hkey⟩
      rw [← id_ofReference?] at hkey
      obtain ⟨s, hs, rfl⟩ := Option.map_eq_some_iff.mp hkey
      exact exists_mem_groupReferences hp hs
  · intro scope hscope
    obtain ⟨s, -, heq⟩ := mem_groupReferences_iff.mp hscope
    rw [← referencesAt_eq, congrArg Scope.references heq]

/-! ### Tables -/

/-- A table of scopes by their lines, with a scope recorded: its references are added to the scope
of the same lines, if there is one. -/
def record (table : ScopeId → Option Scope) (s : Scope) : ScopeId → Option Scope :=
  Function.update table s.id (some (s.addTo (table s.id)))

variable (symbols source settings references) in
/-- The table that the references of a file fill one by one. -/
def table : ScopeId → Option Scope :=
  (references.filterMap (ofReference? symbols source settings)).foldl record fun _ => none

/-- Scopes listed from a table, each once, in any order. -/
structure Lists (table : ScopeId → Option Scope) (listed : List Scope) : Prop where
  nodup : listed.Nodup
  mem_iff : ∀ s, s ∈ listed ↔ ∃ id, table id = some s

def sortByLines (scopes : List Scope) : List Scope :=
  scopes.mergeSort fun s t => s.id.le t.id

theorem foldl_record (own : List Scope) :
    own.foldl record (fun _ => none) = fun id => find? id (insertAll own) := by
  -- by induction from the end: the last scope recorded is the last inserted
  induction own using List.reverseRecOn with
  | nil => rfl
  | append_singleton own s ih =>
    rw [List.foldl_append, ih, insertAll_concat]
    funext id
    rw [find?_insert (ascending_insertAll own), List.foldl_cons, List.foldl_nil, record]
    by_cases hid : s.id = id
    · subst hid
      rw [Function.update_self, if_pos rfl]
    · rw [Function.update_of_ne (Ne.symm hid), if_neg hid]

theorem lists_groupReferences : Lists (table symbols source settings references)
    (groupReferences symbols source references settings) := by
  have hascending := ascending_insertAll (references.filterMap
    (ofReference? symbols source settings))
  refine ⟨hascending.imp fun h heq => h.2 (congrArg Scope.id heq), fun s => ?_⟩
  rw [table, foldl_record]
  constructor
  · exact fun hs => ⟨s.id, hascending.mem_iff.mp hs⟩
  · rintro ⟨id, hs⟩
    exact List.mem_of_find?_eq_some hs

/-- Whatever the order in which a table is listed, sorting by lines gives the same. -/
theorem sortByLines_eq {table : ScopeId → Option Scope} {listed : List Scope}
    (hlisted : Lists table listed) (hscopes : Lists table scopes) (hascending : Ascending scopes) :
    sortByLines listed = scopes := by
  have hperm : listed.Perm scopes := by
    apply (List.perm_ext_iff_of_nodup hlisted.nodup hscopes.nodup).mpr
    intro s
    rw [hlisted.mem_iff, hscopes.mem_iff]
  have hsorted : (sortByLines listed).Pairwise fun s t => s.id.le t.id = true := by
    apply List.pairwise_mergeSort
    · exact fun _ _ _ => ScopeId.le_trans
    · intro s t
      rw [Bool.or_eq_true]
      exact (em _).imp_right ScopeId.le_of_not_le
  have hmerged := (List.mergeSort_perm listed fun s t => s.id.le t.id).trans hperm
  apply hmerged.eq_of_pairwise ?_ hsorted (hascending.imp And.left)
  -- scopes of the same lines are the same, as they are found under the same lines
  intro s t hs ht hst hts
  have hid : s.id = t.id := ScopeId.le_antisymm hst hts
  have hs' := hascending.mem_iff.mp (hmerged.mem_iff.mp hs)
  rw [hid, hascending.mem_iff.mp ht] at hs'
  exact (Option.some.inj hs').symm

/-- Grouping loses and duplicates nothing, and a table of the scopes, listed in any order and sorted,
gives the same scopes. -/
theorem groupReferences_conserves (symbols : List DocumentSymbol) (source : Option SourceText)
    (references : List Position) (settings : RenderSettings) :
    GroupedBy (key? symbols source settings) references
        (groupReferences symbols source references settings) ∧
      ∀ listed, Lists (table symbols source settings references) listed →
        sortByLines listed = groupReferences symbols source references settings :=
  ⟨groupedBy_groupReferences, fun _ hlisted =>
    sortByLines_eq hlisted lists_groupReferences (ascending_insertAll _)⟩

end WorkspaceLink.Scope
