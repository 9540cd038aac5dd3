import Mathlib.Data.List.Sort
import Mathlib.Data.Set.Card
import WorkspaceLink.Watch.Debouncer

/-! Tables that change step by step, described by their history: an entry stands in the table if
some step added it and no step since then has dropped it. -/

namespace WorkspaceLink

/-- A list that changes step by step. A step drops the entries that fail its test and then adds at
most one entry at the end. -/
structure StepTable (τ : Type) where
  entries : ℕ → List τ
  keeps : ℕ → τ → Bool
  added : ℕ → Option τ
  entries_zero : entries 0 = []
  entries_succ : ∀ n, entries (n + 1) = (entries n).filter (keeps n) ++ (added n).toList

namespace StepTable

variable {τ : Type} (T : StepTable τ)

/-- The entry that the `i`-th step added has passed the tests of all steps from there to the
`n`-th. -/
structure Lasts (i n : ℕ) (t : τ) : Prop where
  lt : i < n
  added : T.added i = some t
  kept : ∀ m < n, i < m → T.keeps m t = true

/-- What is left before the `n`-th step of the entry that the `i`-th step added. -/
def rest? (n i : ℕ) : Option τ :=
  (T.added i).filter fun t => decide (∀ m < n, i < m → T.keeps m t = true)

theorem rest?_eq_some_iff {n i : ℕ} {t : τ} (hi : i < n) :
    T.rest? n i = some t ↔ T.Lasts i n t := by
  simp only [rest?, Option.filter_eq_some_iff, decide_eq_true_eq]
  exact ⟨fun h => ⟨hi, h.1, h.2⟩, fun h => ⟨h.added, h.kept⟩⟩

theorem rest?_succ {n i : ℕ} (hi : i < n) :
    T.rest? (n+1) i = (T.rest? n i).filter (T.keeps n) := by
  ext t
  simp only [rest?, Option.filter_eq_some_iff, decide_eq_true_eq]
  constructor
  · intro h
    obtain ⟨ha, hk⟩ := h
    exact ⟨⟨ha, fun m hm => hk m (by omega)⟩, hk n (by omega) hi⟩
  · intro h
    obtain ⟨⟨ha, hk⟩, hn⟩ := h
    refine ⟨ha, fun m hm him => ?_⟩
    rcases Nat.lt_succ_iff_lt_or_eq.mp hm with h | rfl
    · exact hk m h him
    · exact hn

theorem rest?_self (n : ℕ) : T.rest? (n+1) n = T.added n := by
  have h (t : τ) : decide (∀ m < n+1, n < m → T.keeps m t = true) = true := by
    rw [decide_eq_true_eq]
    intro m hm hnm
    omega
  cases ha : T.added n <;> simp only [rest?, ha, h, Option.filter_some, Option.filter_none, ↓reduceIte]

/-- The table in closed form: for each step so far, in order, what is left of its entry. -/
theorem entries_eq_filterMap (n : ℕ) : T.entries n = (List.range n).filterMap (T.rest? n) := by
  induction n with
  | zero => rw [T.entries_zero, List.range_zero, List.filterMap_nil]
  | succ n ih =>
    have hold : (List.range n).filterMap (T.rest? (n+1)) = (T.entries n).filter (T.keeps n) := by
      rw [ih, List.filter_filterMap]
      exact List.filterMap_congr fun i hi => T.rest?_succ (List.mem_range.mp hi)
    rw [T.entries_succ, List.range_succ, List.filterMap_append, hold]
    congr 1
    cases h : T.added n <;> simp [T.rest?_self, h]

theorem mem_entries_iff {n : ℕ} {t : τ} : t ∈ T.entries n ↔ ∃ i, T.Lasts i n t := by
  rw [T.entries_eq_filterMap, List.mem_filterMap]
  constructor
  · intro h
    obtain ⟨i, hi, h⟩ := h
    exact ⟨i, (T.rest?_eq_some_iff (List.mem_range.mp hi)).mp h⟩
  · intro h
    obtain ⟨i, h⟩ := h
    exact ⟨i, List.mem_range.mpr h.lt, (T.rest?_eq_some_iff h.lt).mpr h⟩

/-- The table has one entry for each step whose entry lasts. -/
theorem length_entries (n : ℕ) : (T.entries n).length = {i | ∃ t, T.Lasts i n t}.ncard := by
  -- the steps counted are those below `n` of whose entry something is left
  have hset : {i | ∃ t, T.Lasts i n t} =
      ((Finset.range n).filter fun i => (T.rest? n i).isSome : Finset ℕ) := by
    ext i
    simp only [Set.mem_ofPred_eq, Finset.coe_filter, Finset.mem_range, Option.isSome_iff_exists]
    constructor
    · intro h
      obtain ⟨t, h⟩ := h
      exact ⟨h.lt, t, (T.rest?_eq_some_iff h.lt).mpr h⟩
    · intro h
      obtain ⟨hi, t, h⟩ := h
      exact ⟨t, (T.rest?_eq_some_iff hi).mp h⟩
  rw [hset, Set.ncard_coe_finset, T.entries_eq_filterMap, List.length_filterMap_eq_countP,
    List.countP_eq_length_filter, ← List.toFinset_card_of_nodup (List.nodup_range.filter _)]
  congr 1
  ext i
  simp

/-- A relation between entries holds throughout the table if each step drops what is not so related
to the entry that it adds. -/
theorem pairwise_entries (R : τ → τ → Prop)
    (hR : ∀ n t, T.added n = some t → ∀ u ∈ T.entries n, T.keeps n u = true → R u t) (n : ℕ) :
    (T.entries n).Pairwise R := by
  induction n with
  | zero => simp [T.entries_zero]
  | succ n ih =>
    rw [T.entries_succ, List.pairwise_append]
    -- old entries are related by induction; the new one is related to those that are kept
    refine ⟨ih.filter _, ?_, ?_⟩
    · cases T.added n <;> simp
    · intro u hu t ht
      obtain ⟨hmem, hkeep⟩ := List.mem_filter.mp hu
      exact hR n t (Option.mem_toList.mp ht) u hmem hkeep

end StepTable

end WorkspaceLink
