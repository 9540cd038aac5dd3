import WorkspaceLink.Proofs.Debouncer.Run

/-! The trailing edge of each key, over whole runs of a debouncer. -/

namespace WorkspaceLink.Debouncer

open DebounceStep

variable {κ α : Type} [BEq κ] [EquivBEq κ]

/-- What a run of a debouncer owes to those who schedule actions. `GoesOff` says when an action is
due: in the first advance that reaches the end of its delay, provided that until then nothing else
is scheduled for its key, and the key is not cancelled. -/
structure TrailingEdge (late : ℕ → Bool) (steps : List (DebounceStep κ α)) : Prop where
  /-- What goes off in a step is what is due in it. -/
  fires : ∀ n t, t ∈ firedAt late steps n ↔ ∃ i, GoesOff steps i n t
  /-- Nothing that was scheduled goes off twice. -/
  once : ∀ i n m t u, GoesOff steps i n t → GoesOff steps i m u → n = m ∧ t = u
  /-- Of what goes off in one step, the earliest comes first, and each key comes once. -/
  ordered : ∀ n, (firedAt late steps n).Pairwise fun t u => t.due ≤ u.due ∧ (t.key == u.key) = false
  /-- A cancellation finds the key pending if what was scheduled last for it still waits. -/
  cancels : ∀ n key, (before late steps n).isPending key = true ↔
    ∃ i t, Waits steps i n t ∧ (t.key == key) = true
  /-- As many timers are pending as there are keys that wait, each with one timer. -/
  counts : ∀ n, (before late steps n).pending = {i | ∃ t, Waits steps i n t}.ncard ∧
    ∀ i j t u, Waits steps i n t → Waits steps j n u → i ≠ j → (t.key == u.key) = false
  /-- What goes off for a key is what goes off if nothing is done to other keys. -/
  independent : ∀ key, (firings late steps).filter (key == ·.key) =
    firings late (steps.filter (·.concerns key))

/-- Every run keeps to the trailing edge of each key, whatever the keys, their order and their
delays, and whatever aborts come too late. -/
theorem run_trailingEdge (late : ℕ → Bool) (steps : List (DebounceStep κ α)) :
    TrailingEdge late steps where
  fires n t := by
    rw [firedAt_eq]
    exact TimerQueue.mem_firedAt_iff
  once _ _ _ _ _ ht hu := ht.unique hu
  ordered n := by
    rw [firedAt_eq]
    exact TimerQueue.pairwise_firedAt steps n
  cancels n key := by
    rw [isPending_eq, queue_before]
    exact TimerQueue.any_timers_before_iff
  counts n := by
    rw [pending_eq, queue_before]
    exact ⟨TimerQueue.length_timers_before steps n, fun _ _ _ _ ht hu hij => ht.key_ne hu hij⟩
  independent key := by
    rw [firings_eq, firings_eq]
    exact TimerQueue.filter_firings key steps

/-- The first key is scheduled twice, the second time with a deadline before the first one; the
third key is cancelled. -/
def crossingDeadlines : List (DebounceStep ℕ Char) :=
  [.schedule 1 300 'a', .advance 50, .schedule 1 100 'b', .schedule 2 100 'c', .schedule 3 10 'd',
    .cancel 3, .advance 400]

/-- Although no abort comes in time, only what was scheduled last goes off. -/
theorem crossingDeadlines_trailingEdge :
    (∃ i, GoesOff crossingDeadlines i 6 ⟨1, 150, 'b'⟩) ∧
      (¬∃ i, GoesOff crossingDeadlines i 6 ⟨1, 300, 'a'⟩) ∧
      (before (fun _ => true) crossingDeadlines 6).pending = 2 := by
  have h := run_trailingEdge (fun _ => true) crossingDeadlines
  have hfired : firedAt (fun _ => true) crossingDeadlines 6 = [⟨1, 150, 'b'⟩, ⟨2, 150, 'c'⟩] := rfl
  refine ⟨(h.fires _ _).mp ?_, fun hgo => ?_, rfl⟩
  · rw [hfired]
    exact List.mem_cons_self
  · have hmem := (h.fires _ _).mpr hgo
    simp [hfired] at hmem

end WorkspaceLink.Debouncer
