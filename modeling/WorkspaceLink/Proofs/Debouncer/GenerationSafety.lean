import WorkspaceLink.Proofs.Debouncer.Generations

/-! What generations are for: whatever the order in which callers and tasks get the lock, and
whatever aborts come too late, an action starts only while its task is the one that the table has. -/

namespace WorkspaceLink.SharedDebouncer

open Debouncer (generation? erase)

variable {κ α : Type} [BEq κ] [EquivBEq κ]

omit [EquivBEq κ] in
/-- Every step takes generations that no step has taken before: as many as have been taken are in
use, or were. -/
theorem Run.next_eq {s s' : SharedDebouncer κ α} {xs : List (TaskEvent κ α)} (h : Run s xs s') :
    s'.next = s.next + xs.countP TaskEvent.isTake := by
  induction h with
  | nil => rfl
  | cons hx _ ih =>
    rw [ih, List.countP_cons]
    cases hx with
    | take key delay action =>
      simp only [SharedDebouncer.take, TaskEvent.isTake, ↓reduceIte]
      omega
    | _ => rfl

/-- In a run no action starts twice: with its start the task loses its entry. -/
theorem Run.nodup_started {s s' : SharedDebouncer κ α} {xs : List (TaskEvent κ α)} (h : Run s xs s')
    (hs : s.Sound) : (xs.filterMap TaskEvent.started?).Nodup := by
  induction h with
  | nil => exact List.nodup_nil
  | cons hx hxs ih =>
    have hrest := ih (hs.step hx)
    cases hx with
    | start ht hp hown =>
      -- the task loses its entry in the step, and no task without an entry starts
      have hgone := (hs.gone_of_start ht hown).run hxs
      exact List.nodup_cons.mpr ⟨hgone, hrest⟩
    | _ => exact hrest

/-- What the state `s` that a run with the steps `xs` leads to owes to the generations. -/
structure GenerationSafe (xs : List (TaskEvent κ α)) (s : SharedDebouncer κ α) : Prop where
  /-- The table holds at most one entry for each key. -/
  single : s.table.Pairwise fun e f => (e.key == f.key) = false
  /-- No generation is used by two tasks, nor by a task and a caller that has yet to spawn one. -/
  distinct : s.generations.Nodup
  /-- A generation is less than the number of times that one has been taken, so that 64 bits do until
  it has been done as many times. -/
  counted : ∀ g ∈ s.generations, g < xs.countP TaskEvent.isTake
  /-- Every entry belongs to a task with its key and its generation that is neither finished nor
  aborted, that does not act, and whose abort has not been asked for. -/
  owned : ∀ e ∈ s.table, e.generation ∉ s.aborts ∧ ∃ t ∈ s.tasks, (t.key == e.key) = true ∧
    t.generation = e.generation ∧ (t.phase = .asleep ∨ t.phase = .awake)
  /-- A task that acts after the next step acted before, or its action starts in the step, which
  finds its entry in the table and takes it from there. -/
  starts : ∀ x s', s.Step x s' → ∀ t ∈ s'.tasks, t.phase = .acting → t ∈ s.tasks ∨
    x = .start t.generation ∧ generation? s.table t.key = some t.generation ∧
      s'.table = erase s.table t.key
  /-- The action of a task that the next step supersedes or cancels does not start any more, whatever
  comes after. -/
  superseded : ∀ x s', s.Step x s' → ∀ t ∈ s.tasks, x.breaksOff t.key = true →
    ∀ ys s'', Run s' ys s'' → t.generation ∉ ys.filterMap TaskEvent.started?
  /-- Each action has started at most once. -/
  once : (xs.filterMap TaskEvent.started?).Nodup
  /-- No abort reaches an action that has started. -/
  undisturbed : ∀ t ∈ s.tasks, t.phase = .acting → t.generation ∉ s.aborts

/-- Generations are safe in every state that callers and tasks can reach, in whatever order they
take their steps. -/
theorem run_generationSafe {xs : List (TaskEvent κ α)} {s : SharedDebouncer κ α}
    (h : Run {} xs s) : GenerationSafe xs s := by
  have hs : s.Sound := Sound.empty.run h
  constructor
  case single => exact hs.single
  case distinct => exact hs.distinct
  case counted =>
    intro g hg
    have hlt := hs.fresh g hg
    rwa [h.next_eq, Nat.zero_add] at hlt
  case owned =>
    intro e he
    obtain ⟨t, ht, hown⟩ := hs.owned e he
    refine ⟨hs.spared e he, t, ht, hown.key, hown.generation, ?_⟩
    have hwaiting := hown.waiting
    cases hp : t.phase <;> simp_all [TaskPhase.isWaiting]
  case starts => exact fun x s' hx t ht hp => hs.acting_step hx ht hp
  case superseded => exact fun x s' hx t ht hb ys s'' hys => (hs.gone_of_breaksOff hx ht hb).run hys
  case once => exact h.nodup_started Sound.empty
  case undisturbed => exact hs.undisturbed

/-- Two callers schedule actions for one key and get the lock in the other order than their
generations; both tasks wake, the abort of one of them too late, and a third action is scheduled. -/
def crossedCallers : List (TaskEvent ℕ Char) :=
  [.take 7 300 'a', .take 7 300 'b', .insert 7 1, .insert 7 0, .pass 300, .wake 1, .wake 0,
    .abort 1 true, .start 0, .take 7 300 'c', .insert 7 2, .giveUp 1]

/-- Only the action starts whose entry was put into the table last, and no other ever will of the two. -/
theorem crossedCallers_generationSafe :
    ∃ s, Run {} crossedCallers s ∧ GenerationSafe crossedCallers s ∧
      crossedCallers.filterMap TaskEvent.started? = [0] := by
  have hrun : ∃ s, Run {} crossedCallers s :=
    ⟨_, .cons (.take 7 300 'a') <| .cons (.take 7 300 'b') <|
      .cons (.insert (c := ⟨7, 300, 'b', 1⟩) (.tail _ (.head _))) <|
      .cons (.insert (c := ⟨7, 300, 'a', 0⟩) (.head _)) <| .cons (.pass 300) <|
      .cons (.wake (t := ⟨⟨⟨7, 300, 'b'⟩, 1⟩, .asleep⟩) (.head _) rfl (Nat.le_refl 300)) <|
      .cons (.wake (t := ⟨⟨⟨7, 300, 'a'⟩, 0⟩, .asleep⟩) (.tail _ (.head _)) rfl (Nat.le_refl 300)) <|
      .cons (.abort true (.head _)) <|
      .cons (.start (t := ⟨⟨⟨7, 300, 'a'⟩, 0⟩, .awake⟩) (.tail _ (.head _)) rfl rfl) <|
      .cons (.take 7 300 'c') <| .cons (.insert (c := ⟨7, 300, 'c', 2⟩) (.head _)) <|
      .cons (.giveUp (t := ⟨⟨⟨7, 300, 'b'⟩, 1⟩, .awake⟩) (.head _) rfl (by decide)) .nil⟩
  obtain ⟨s, hs⟩ := hrun
  exact ⟨s, hs, run_generationSafe hs, rfl⟩

end WorkspaceLink.SharedDebouncer
