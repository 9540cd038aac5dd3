import Mathlib.Algebra.GroupWithZero.Nat
import WorkspaceLink.Proofs.Watcher.Loop

/-! A loop that goes on at once with what arrives. As calls to the client return at once, it takes
its turns until it waits for its source again, before anything else happens. -/

namespace WorkspaceLink

/-- The turns that the loop needs for what its source brings. -/
def SourceItem.turns : SourceItem → ℕ
  | event e => e.operations.length + 1
  | failure _ => 1

namespace LoopSystem

variable (w : Watcher) (y : LoopSystem)

/-- The turns after which the loop has nothing to do, at the most. The last one is for the case that
it has been told to stop. -/
def turnsLeft : ℕ :=
  y.rest.length + (y.queue.map SourceItem.turns).sum + 1

/-- The system after the loop has taken its turns. -/
def catchUp : LoopSystem :=
  y.run w (List.replicate y.turnsLeft .turn)

/-- Steps after each of which the loop takes its turns. -/
def promptSteps (y : LoopSystem) : List LoopStep → List LoopStep
  | [] => []
  | x :: xs =>
    x :: List.replicate (y.step w x).turnsLeft .turn ++ promptSteps ((y.step w x).catchUp w) xs

/-- Whether the loop does not run, or has nothing to do. -/
def IsWaiting : Prop :=
  y.system.running = true → y.rest = [] ∧ y.queue = [] ∧ y.told = false

variable {w y}

theorem IsWaiting.step_turn (h : y.IsWaiting) : y.step w .turn = y := by
  rw [step]
  split
  · next hrun =>
    obtain ⟨hrest, hqueue, htold⟩ := h hrun
    rw [turn, hrest]
    dsimp only
    rw [if_neg (ne_true_of_eq_false htold), hqueue]
  · rfl

theorem IsWaiting.run_turns (h : y.IsWaiting) (k : ℕ) : y.run w (List.replicate k .turn) = y := by
  induction k with
  | zero => rfl
  | succ k ih => rw [List.replicate_succ, run_cons, h.step_turn, ih]

/-- A turn leaves the loop with nothing to do, or with fewer turns. -/
theorem step_turn_cases (w : Watcher) (y : LoopSystem) :
    (y.step w .turn).IsWaiting ∨ (y.step w .turn).turnsLeft < y.turnsLeft := by
  rw [step]
  cases hrun : y.system.running with
  | false => exact .inl fun hgoes => absurd (hrun.symm.trans hgoes) Bool.false_ne_true
  | true =>
    obtain ⟨system, queue, rest, told⟩ := y
    -- a loop that has ended does not run, and so has nothing to do
    have hended {system : WatchSystem} {queue : List SourceItem}
        (hends : system.running = false) : IsWaiting ⟨system, queue, [], told⟩ :=
      fun hgoes => absurd (hends.symm.trans hgoes) Bool.false_ne_true
    rw [if_pos rfl]
    cases rest with
    | cons o rest =>
      right
      simp only [turn, turnsLeft, List.length_cons]
      omega
    | nil =>
      cases told with
      | true => exact .inl (hended (system.cancel_running w))
      | false =>
        cases queue with
        | nil => exact .inl fun _ => ⟨rfl, rfl, rfl⟩
        | cons item queue =>
          cases item with
          | failure cause => exact .inl (hended (system.failSource_running w cause))
          | event e =>
            right
            simp only [turn, turnsLeft, List.map_cons, List.sum_cons, SourceItem.turns,
              List.length_nil, Bool.false_eq_true, if_false]
            omega

theorem run_turns_isWaiting (w : Watcher) {k : ℕ} (hk : y.turnsLeft ≤ k) :
    (y.run w (List.replicate k .turn)).IsWaiting := by
  induction k generalizing y with
  | zero => exact absurd hk (Nat.not_succ_le_zero _)
  | succ k ih =>
    rw [List.replicate_succ, run_cons]
    rcases y.step_turn_cases w with hwaiting | hfewer
    · rw [hwaiting.run_turns]
      exact hwaiting
    · exact ih (by omega)

theorem catchUp_isWaiting (w : Watcher) (y : LoopSystem) : (y.catchUp w).IsWaiting :=
  run_turns_isWaiting w (Nat.le_refl _)

theorem IsWaiting.catchUp_eq (h : y.IsWaiting) : y.catchUp w = y :=
  h.run_turns y.turnsLeft

/-- Once the loop has nothing to do, it does not matter how many turns it is given. -/
theorem catchUp_eq_of_isWaiting {m : ℕ} (h : (y.run w (List.replicate m .turn)).IsWaiting) :
    y.run w (List.replicate m .turn) = y.catchUp w := by
  have hmore (k : ℕ) : y.run w (List.replicate (m + k) .turn) =
      y.run w (List.replicate m .turn) := by
    rw [List.replicate_add, run_append, h.run_turns]
  have hwaits := y.catchUp_isWaiting w
  rw [catchUp] at hwaits ⊢
  -- whichever of the two takes more turns, it takes the others for nothing
  rcases Nat.le_total m y.turnsLeft with hle | hle
  · rw [← hmore (y.turnsLeft - m), Nat.add_sub_cancel' hle]
  · rw [← Nat.add_sub_cancel' hle, List.replicate_add, run_append, hwaits.run_turns]

theorem run_promptSteps (w : Watcher) (y : LoopSystem) (x : LoopStep) (xs : List LoopStep) :
    y.run w (y.promptSteps w (x :: xs)) =
      ((y.step w x).catchUp w).run w (((y.step w x).catchUp w).promptSteps w xs) := by
  rw [promptSteps, List.cons_append, run_cons, run_append]
  rfl

end LoopSystem

/-- The run in which the loop goes on at once with what arrives. -/
def LoopRun.promptly (r : LoopRun) : LoopRun :=
  { r with steps := r.initial.promptSteps r.watcher r.steps }

end WorkspaceLink
