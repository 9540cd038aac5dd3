import WorkspaceLink.Proofs.Watcher.Loop
import WorkspaceLink.Proofs.Watcher.Run

/-! A watcher whose loop has stopped, or has not begun, keeps silent but for its bulk walks, which go
on after their pauses: nothing is pending and nothing is in line, and what was planned before does not
come when another loop is started. -/

namespace WorkspaceLink

namespace WatchSystem

variable (w : Watcher) {y : WatchSystem}

theorem stepCalls_idle (y : WatchSystem) : y.stepCalls w y.idle = [] := by
  rw [idle, stepCalls, visited?, next?, List.getElem?_eq_none (Nat.le_refl _)]
  rfl

variable {w}

theorem next?_of_visited? {n : ℕ} {path : Path} (h : y.visited? n = some path) :
    ∃ walk, y.next? n = some (walk, path) := by
  rw [visited?] at h
  split at h
  · next walk q hnext =>
    split at h
    · cases h
    · obtain rfl := Option.some.inj h
      exact ⟨walk, hnext⟩
  · cases h

/-- Without a running loop only walks make calls, and each opens the file that is visited next. -/
theorem stepCalls_of_not_running {x : WatchStep}
    (hy : y.Settled) (hrun : y.running = false) (hx : y.stepCalls w x ≠ []) :
    ∃ m walk path, x = .visit m ∧ y.next? m = some (walk, path) ∧
      y.stepCalls w x = [(y.state.now, .open path)] := by
  cases x with
  | visit m =>
    cases hvisited : y.visited? m with
    | none => simp [stepCalls, hvisited] at hx
    | some path =>
      obtain ⟨walk, hnext⟩ := next?_of_visited? hvisited
      refine ⟨m, walk, path, rfl, hnext, ?_⟩
      rw [stepCalls, hvisited]
      rfl
  | operation op path =>
    refine absurd ?_ hx
    rw [stepCalls, if_neg (by simp [hrun])]
  | advance ms =>
    have hexpired : y.state.debouncer.expired ms = [] := by
      rw [Debouncer.expired_eq, TimerQueue.expired,
        show y.state.debouncer.queue.timers = [] from hy hrun]
      rfl
    refine absurd ?_ hx
    rw [stepCalls, WatchState.dueCalls, hexpired, List.map_nil]
  | _ => exact absurd rfl hx

end WatchSystem

namespace LoopSystem

variable {w : Watcher} {y z : LoopSystem}

/-- Without a running loop there is nothing in line and nothing left to do. -/
def Drained (y : LoopSystem) : Prop :=
  y.system.running = false → y.queue = [] ∧ y.rest = []

theorem drained_turn (hrun : y.system.running = true) : (y.turn w).Drained := by
  intro hstopped
  rw [LoopSystem.turn] at hstopped ⊢
  cases hrest : y.rest with
  | cons o rest =>
    -- no operation ends the loop
    rw [hrest] at hstopped
    have hgoes := y.system.operation_running w o.1 o.2
    rw [show (y.system.step w (.operation o.1 o.2)).running = false from hstopped, hrun] at hgoes
    cases hgoes
  | nil =>
    rw [hrest] at hstopped
    dsimp only at hstopped ⊢
    by_cases htold : y.told = true
    · rw [if_pos htold]
      exact ⟨rfl, rfl⟩
    · rw [if_neg htold] at hstopped ⊢
      cases hqueue : y.queue with
      | nil => exact ⟨hqueue, hrest⟩
      | cons item queue =>
        rw [hqueue] at hstopped
        cases item with
        | event e =>
          rw [show y.system.running = false from hstopped] at hrun
          cases hrun
        | failure cause => exact ⟨rfl, rfl⟩

theorem Drained.step (h : y.Drained) (x : LoopStep) : (y.step w x).Drained := by
  cases hrun : y.system.running with
  | true =>
    have hrunning (y' : LoopSystem) (hsame : y'.system = y.system) : y'.Drained := by
      intro hstopped
      rw [hsame, hrun] at hstopped
      cases hstopped
    cases x with
    | beside x hx =>
      intro hstopped
      have hgoes := y.system.beside_running w hx
      rw [show (y.system.step w x).running = false from hstopped, hrun] at hgoes
      cases hgoes
    | turn =>
      rw [LoopSystem.step, if_pos hrun]
      exact drained_turn hrun
    | start sourceFailure => exact hrunning _ (by simp [LoopSystem.step, hrun])
    | arrive item => exact hrunning _ (by simp [LoopSystem.step, hrun])
    | cancel => exact hrunning _ (by simp [LoopSystem.step, hrun])
    | rearm => exact hrunning _ (by simp [LoopSystem.step, hrun])
  | false =>
    obtain ⟨hqueue, hrest⟩ := h hrun
    cases x <;> intro _ <;> simp [LoopSystem.step, hrun, hqueue, hrest]

/-- Two systems that differ in what is in line at most, and only if a running loop has been told to
stop. -/
structure SameButQueue (y z : LoopSystem) : Prop where
  system : z.system = y.system
  rest : z.rest = y.rest
  told : z.told = y.told
  queue : z.queue = y.queue ∨ y.system.running = true ∧ y.told = true

theorem SameButQueue.turn (h : SameButQueue y z) (hrun : y.system.running = true) :
    SameButQueue (y.turn w) (z.turn w) := by
  obtain ⟨system, queue, rest, told⟩ := y
  obtain ⟨system', queue', rest', told'⟩ := z
  obtain ⟨rfl, rfl, rfl, hqueue⟩ := h
  dsimp only at hqueue hrun
  cases rest' with
  | cons o rest =>
    refine ⟨rfl, rfl, rfl, hqueue.imp_right fun h => ⟨?_, h.2⟩⟩
    exact (WatchSystem.operation_running w _ o.1 o.2).trans hrun
  | nil =>
    cases told' with
    | true => exact ⟨rfl, rfl, rfl, .inl rfl⟩
    | false =>
      obtain rfl : queue' = queue := hqueue.resolve_right fun h => Bool.noConfusion h.2
      exact ⟨rfl, rfl, rfl, .inl rfl⟩

theorem SameButQueue.step (h : SameButQueue y z) (x : LoopStep) :
    SameButQueue (y.step w x) (z.step w x) := by
  have hturn := h.turn (w := w)
  obtain ⟨system, queue, rest, told⟩ := y
  obtain ⟨system', queue', rest', told'⟩ := z
  obtain ⟨rfl, rfl, rfl, hqueue⟩ := h
  dsimp only at hqueue hturn
  cases hrun : system'.running with
  | true =>
    cases x with
    | beside x hx =>
      refine ⟨rfl, rfl, rfl, hqueue.imp_right fun h => ⟨?_, h.2⟩⟩
      exact (WatchSystem.beside_running w _ hx).trans hrun
    | turn =>
      simp only [LoopSystem.step, hrun, ↓reduceIte]
      exact hturn hrun
    | start sourceFailure =>
      simp only [LoopSystem.step, hrun, ↓reduceIte]
      exact ⟨rfl, rfl, rfl, hqueue⟩
    | arrive item =>
      simp only [LoopSystem.step, hrun, ↓reduceIte]
      exact ⟨rfl, rfl, rfl, hqueue.imp_left fun h => congrArg (· ++ [item]) h⟩
    | cancel =>
      simp only [LoopSystem.step, hrun, ↓reduceIte]
      exact ⟨rfl, rfl, rfl, .inr ⟨hrun, rfl⟩⟩
    | rearm =>
      simp only [LoopSystem.step, hrun, ↓reduceIte]
      exact ⟨rfl, rfl, rfl, hqueue⟩
  | false =>
    -- without a running loop the systems are the same
    obtain rfl : queue' = queue := hqueue.resolve_right fun h => by simp [hrun] at h
    exact ⟨rfl, rfl, rfl, .inl rfl⟩

theorem SameButQueue.run (h : SameButQueue y z) (xs : List LoopStep) :
    SameButQueue (y.run w xs) (z.run w xs) := by
  induction xs generalizing y z with
  | nil => exact h
  | cons x xs ih => exact ih (h.step x)

end LoopSystem

namespace LoopRun

variable {r : LoopRun} {n : ℕ}

theorem drained (r : LoopRun) (n : ℕ) : (r.system n).Drained := by
  induction n with
  | zero => exact fun _ => ⟨rfl, rfl⟩
  | succ n ih =>
    cases hx : r.steps[n]? with
    | none =>
      rw [system_stay hx]
      exact ih
    | some x =>
      rw [system_step hx]
      exact ih.step x

theorem table_eq_nil (h : r.running n = false) :
    (r.system n).system.state.debouncer.table = [] := by
  have hsettled := r.toWatchRun.system_settled n
  rw [system_toWatchRun] at hsettled
  have hpending := Debouncer.pending_eq (r.system n).system.state.debouncer
  rw [show (r.system n).system.state.debouncer.queue.timers = [] from hsettled h] at hpending
  exact List.length_eq_zero_iff.mp hpending

/-- What a watcher keeps to while its loop does not run: it has never been started, could not be
started, was told to stop or has lost its source of events. -/
structure SilentWhenStopped (r : LoopRun) : Prop where
  /-- Nothing is pending. -/
  empty : ∀ n, r.running n = false → (r.system n).system.state.debouncer.table = []
  /-- The only calls are those of bulk walks: each opens the file that a walk visits next, when the
  walk does not pause. -/
  quiet : ∀ n, r.running n = false → r.callsAt n ≠ [] →
    ∃ m h walk path, r.steps[n]? = some (.beside (.visit m) h) ∧
      (r.system n).system.next? m = some (walk, path) ∧
      r.callsAt n = [((r.system n).system.state.now, .open path)]
  /-- Nothing is in line, and nothing is left of an event. -/
  drained : ∀ n, r.running n = false → (r.system n).queue = [] ∧ (r.system n).rest = []
  /-- When a running loop is told to stop, it makes no difference any more, neither then nor after
  another start, what is in line. -/
  unheard : ∀ n, r.running n = true → (r.system n).told = true → ∀ queue steps,
    (({ r.system n with queue } : LoopSystem).run r.watcher steps).system =
      ((r.system n).run r.watcher steps).system
  /-- It ends with its next turn after the event that it handles. -/
  ended : ∀ n, r.steps[n]? = some .turn → (r.system n).told = true → (r.system n).rest = [] →
    r.running (n + 1) = false
  /-- What is reported afterwards has been called for afterwards, however often the loop has been
  started again. -/
  unsent : ∀ m n, r.running m = false → m ≤ n → ∀ call ∈ r.callsAt n, ∀ path change,
    change ≠ .deleted → call.2.reports path change = true →
      ∃ i q, m ≤ i ∧ Path.same path q = true ∧ r.toWatchRun.GoesOff i n q change

/-- A loop that does not run gives up what was called for before. -/
theorem lt_of_goesOff {m i : ℕ} {path : Path} {change : FileChange} (hstopped : r.running m = false)
    (hmn : m ≤ n) (hchange : change ≠ .deleted) (h : r.toWatchRun.GoesOff i n path change) :
    m ≤ i := by
  by_contra hlt
  have hpending : r.toWatchRun.planned i path change ∈ (r.toWatchRun.state m).queue.timers := by
    refine WatchRun.mem_timers_iff.mpr ⟨i, path, change, hchange, ?_, rfl⟩
    exact ⟨Nat.lt_of_not_le hlt, h.called, fun k hk => h.kept k (by omega),
      fun k hk => h.early k (by omega)⟩
  have hnone : (r.toWatchRun.state m).queue.timers = [] := by
    apply r.toWatchRun.system_settled m
    rw [system_toWatchRun]
    exact hstopped
  rw [hnone] at hpending
  cases hpending

theorem visit_of_calls (hstopped : r.running n = false) (hcalls : r.callsAt n ≠ []) :
    ∃ m h walk path, r.steps[n]? = some (.beside (.visit m) h) ∧
      (r.system n).system.next? m = some (walk, path) ∧
      r.callsAt n = [((r.system n).system.state.now, .open path)] := by
  cases hx : r.steps[n]? with
  | none =>
    rw [callsAt, system_stay hx] at hcalls
    exact absurd List.drop_length hcalls
  | some x =>
    have hmove : r.toWatchRun.steps[n]? = some ((r.system n).move x) := by
      rw [getElem?_toWatchRun, hx]
      rfl
    rw [← callsAt_toWatchRun, WatchRun.callsAt_step hmove] at hcalls ⊢
    have hsettled := r.toWatchRun.system_settled n
    rw [system_toWatchRun] at hcalls hsettled ⊢
    have hidle := (r.system n).system.stepCalls_idle r.watcher
    have hstill : ¬(r.system n).system.running = true := ne_true_of_eq_false hstopped
    cases x with
    | beside x h =>
      obtain ⟨m, walk, path, rfl, hnext, heq⟩ :=
        WatchSystem.stepCalls_of_not_running hsettled hstopped hcalls
      exact ⟨m, h, walk, path, rfl, hnext, heq⟩
    | arrive item => exact absurd hidle hcalls
    | turn =>
      rw [LoopSystem.move, if_neg hstill] at hcalls
      exact absurd hidle hcalls
    | cancel =>
      rw [LoopSystem.move, if_neg hstill] at hcalls
      exact absurd rfl hcalls
    | start sourceFailure => exact absurd rfl hcalls
    | rearm => exact absurd rfl hcalls

/-- A loop that has been told to stop, and has nothing left of an event, ends with its next turn. -/
theorem stops_of_told (hx : r.steps[n]? = some .turn) (htold : (r.system n).told = true)
    (hrest : (r.system n).rest = []) : r.running (n + 1) = false := by
  rw [running, system_step hx, LoopSystem.step]
  cases hrun : (r.system n).system.running with
  | false => rwa [if_neg (by simp)]
  | true =>
    rw [if_pos rfl, LoopSystem.turn, hrest]
    dsimp only
    rw [if_pos htold]
    exact WatchSystem.cancel_running r.watcher _

/-- Every run of a watcher and its loop keeps silent when it is stopped. -/
theorem run_silentWhenStopped (r : LoopRun) : SilentWhenStopped r := by
  constructor
  case empty => exact fun n => table_eq_nil
  case quiet => exact fun n => visit_of_calls
  case drained => exact r.drained
  case unheard =>
    intro n hrun htold queue steps
    have hsame : LoopSystem.SameButQueue (r.system n) { r.system n with queue } :=
      ⟨rfl, rfl, rfl, .inr ⟨hrun, htold⟩⟩
    exact (hsame.run steps).system
  case ended => exact fun n => stops_of_told
  case unsent =>
    intro m n hstopped hmn call hcall path change hchange hreports
    obtain ⟨time, call⟩ := call
    rw [← callsAt_toWatchRun] at hcall
    obtain ⟨i, q, hq, hgo⟩ := (WatchRun.mem_callsAt_iff.mp hcall).goesOff hchange hreports
    exact ⟨i, q, lt_of_goesOff hstopped hmn hchange hgo, hq, hgo⟩

/-- A bulk walk over two files beside no loop at all, with a pause of 100 ms after each file. -/
def throttledWalk : LoopRun :=
  let files : FileTree := ⟨.dir [("ws", .dir [("a.go", .file .empty), ("b.go", .file .empty)])]⟩
  { watcher :=
      { root := "/ws"
        policy := .ofSettings files "/ws" .default
        settings := { WatchSettings.default with openBatchSize := 1, openBatchPauseMs := 100 } }
    files
    steps :=
      [.beside (.register "sources" [⟨⟨none, "**/*.go"⟩, none⟩]) rfl, .beside .beginWalk rfl,
        .beside (.visit 0) rfl, .beside (.visit 0) rfl, .beside (.advance 100) rfl,
        .beside (.visit 0) rfl] }

/-- Not before time has moved on does the walk open the second file. -/
theorem throttledWalk_calls :
    (∀ n ≤ 6, throttledWalk.running n = false) ∧
      throttledWalk.callsAt 2 = [(0, .open "/ws/a.go")] ∧ throttledWalk.callsAt 3 = [] ∧
      throttledWalk.callsAt 5 = [(100, .open "/ws/b.go")] := by
  decide +kernel

end LoopRun

end WorkspaceLink
