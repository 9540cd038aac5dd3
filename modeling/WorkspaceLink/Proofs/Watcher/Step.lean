import WorkspaceLink.Proofs.Watcher.Candidate
import WorkspaceLink.Watch.Run

/-! One step of a watcher: which notifications it plans, withdraws and sends, and what it tells the
client. -/

namespace WorkspaceLink

namespace WatchState

variable (w : Watcher) (s : WatchState)

/-! ### Time -/

theorem dispatch_eq (time : ℕ) (path : Path) (change : FileChange) :
    s.dispatch time path change = s.call time (s.client.report path change) := by
  rw [dispatch, WatchClient.report]
  split <;> rfl

/-- The calls made while time moves on: one for each notification that goes off. -/
def dueCalls (ms : ℕ) : List (ℕ × WatchCall) :=
  (s.debouncer.expired ms).map fun t => (t.due, s.client.report t.action t.key.change)

theorem advance_eq (ms : ℕ) : s.advance ms =
    { s with
      debouncer := s.debouncer.advance ms
      client := { s.client with calls := s.client.calls ++ s.dueCalls ms } } := by
  -- reports leave the open files as they are, so all go by the files open at first
  have hfold (ts : List (Timer NotificationKey Path)) (s : WatchState) :
      ts.foldl (fun s t => s.dispatch t.due t.action t.key.change) s =
        { s with client := { s.client with
          calls := s.client.calls ++
            ts.map fun t => (t.due, s.client.report t.action t.key.change) } } := by
    induction ts generalizing s with
    | nil => simp
    | cons t ts ih =>
      rw [List.foldl_cons, ih, dispatch_eq, call, WatchClient.send_report]
      simp [WatchClient.report, WatchClient.isOpen]
  exact hfold _ _

theorem queue_advance (ms : ℕ) : (s.advance ms).queue = s.queue.advance ms := by
  rw [advance_eq]
  exact Debouncer.queue_advance s.debouncer ms

/-! ### The loop -/

theorem subscribeAll_eq (dirs : List Path) :
    ∃ subscribed, (s.subscribeAll dirs).1 = { s with subscribed } := by
  induction dirs generalizing s with
  | nil => exact ⟨s.subscribed, rfl⟩
  | cons dir dirs ih =>
    rw [subscribeAll, subscribe?]
    by_cases h : s.unwatchable.any (Path.same dir) = true
    · rw [if_pos h]
      exact ⟨s.subscribed, rfl⟩
    · rw [if_neg h]
      obtain ⟨subscribed, heq⟩ := ih { s with subscribed := s.subscribed ++ [dir] }
      exact ⟨subscribed, heq⟩

/-- A start subscribes directories and sets the loop's status. If it ends the loop at once, it
drops what is pending. -/
theorem start_eq (sourceFailure : Option Text) :
    ∃ subscribed loop debouncer, s.start w sourceFailure = { s with subscribed, loop, debouncer } ∧
      (debouncer = s.debouncer ∨ debouncer = s.debouncer.cancelAll) := by
  unfold start
  cases sourceFailure with
  | some cause => exact ⟨_, _, _, rfl, .inl rfl⟩
  | none =>
    cases s.directories? w with
    | none => exact ⟨_, _, _, rfl, .inl rfl⟩
    | some dirs =>
      obtain ⟨subscribed, heq⟩ := subscribeAll_eq s dirs
      dsimp only
      generalize s.subscribeAll dirs = result at heq ⊢
      obtain ⟨s', failed⟩ := result
      obtain rfl : s' = { s with subscribed } := heq
      cases failed with
      | some dir => exact ⟨_, _, _, rfl, .inl rfl⟩
      | none =>
        by_cases hc : s.cancelled = true
        · exact ⟨subscribed, _, _, if_pos hc, .inr rfl⟩
        · exact ⟨subscribed, _, _, if_neg hc, .inl rfl⟩

end WatchState

/-- Whether a step neither handles an operation nor visits a file nor lets time pass. -/
def WatchStep.isControl : WatchStep → Bool
  | operation _ _ => false
  | visit _ => false
  | advance _ => false
  | _ => true

/-- Whether a step tells the loop to stop, or lets it be started again. -/
def WatchStep.isSignal : WatchStep → Bool
  | failSource _ => true
  | cancel => true
  | rearm => true
  | _ => false

namespace WatchSystem

variable (w : Watcher) (y : WatchSystem)

/-- Whether the loop ends in a step. -/
def ends (x : WatchStep) : Bool :=
  y.running && !(y.step w x).running

/-- The notification that a step plans. -/
def planned? : WatchStep → Option (Timer NotificationKey Path)
  | .operation op path =>
    if y.running then (y.state.planned? w op path).map (y.state.notification w path) else none
  | _ => none

/-- Whether a step keeps a pending notification from being sent. -/
def withdraws (key : NotificationKey) : WatchStep → Bool
  | .operation op path => y.running && y.state.withdraws w op path key
  | x => y.ends w x

/-- Whether time reaches a moment in a step. -/
def reaches (time : ℕ) : WatchStep → Bool
  | .advance ms => time ≤ y.state.now + ms
  | _ => false

/-- The file that a walk opens with its next visit, if it is watched and not open yet. -/
def visited? (n : ℕ) : Option Path :=
  match y.next? n with
  | some (_, path) =>
    if (y.state.registry.mask? path).isNone || y.state.client.isOpen path then none else some path
  | none => none

/-- The calls to the client in a step. -/
def stepCalls : WatchStep → List (ℕ × WatchCall)
  | .visit n => ((y.visited? n).map fun path => (y.state.now, .open path)).toList
  | .operation op path => if y.running then y.state.operationCalls w op path else []
  | .advance ms => y.state.dueCalls ms
  | _ => []

/-- Without a running loop no notification is pending. -/
def Settled : Prop :=
  y.running = false → y.state.queue.timers = []

/-- What a control step does. It makes no call, and it leaves the notifications alone; or the loop is
not running afterwards or was not before, and none is pending. -/
structure Controls (y' : WatchSystem) : Prop where
  calls : y'.state.client.calls = y.state.client.calls
  timers : y.Settled →
    y'.state.queue.timers = y.state.queue.timers ∧ y'.running = y.running ∨
      y'.state.queue.timers = [] ∧ (y.running = false ∨ y'.running = false)

theorem step_controls {x : WatchStep} (hx : x.isControl = true) : y.Controls (y.step w x) := by
  cases x with
  | operation op path => cases hx
  | visit n => cases hx
  | advance ms => cases hx
  | register id registrations => exact ⟨rfl, fun _ => .inl ⟨rfl, rfl⟩⟩
  | unregister id => exact ⟨rfl, fun _ => .inl ⟨rfl, rfl⟩⟩
  | beginWalk => exact ⟨rfl, fun _ => .inl ⟨rfl, rfl⟩⟩
  | change files opened unwatchable => exact ⟨rfl, fun _ => .inl ⟨rfl, rfl⟩⟩
  | rearm =>
    rw [step]
    split <;> exact ⟨rfl, fun _ => .inl ⟨rfl, rfl⟩⟩
  | start sourceFailure =>
    obtain ⟨_, _, debouncer, heq, hdebouncer⟩ := WatchState.start_eq w y.state sourceFailure
    cases hrun : y.running with
    | true =>
      rw [step, if_pos hrun]
      exact ⟨rfl, fun _ => .inl ⟨rfl, rfl⟩⟩
    | false =>
      rw [step, if_neg (by simp [hrun]), heq]
      rcases hdebouncer with rfl | rfl
      · exact ⟨rfl, fun hy => .inr ⟨hy hrun, .inl hrun⟩⟩
      · exact ⟨rfl, fun _ => .inr ⟨Debouncer.timers_cancelAll _, .inl hrun⟩⟩
  | failSource cause =>
    rw [step, WatchState.failSource]
    split
    · exact ⟨rfl, fun _ => .inr ⟨Debouncer.timers_cancelAll _, .inr rfl⟩⟩
    · exact ⟨rfl, fun _ => .inl ⟨rfl, rfl⟩⟩
  | cancel =>
    rw [step, WatchState.cancel]
    dsimp only
    split
    · exact ⟨rfl, fun _ => .inr ⟨Debouncer.timers_cancelAll _, .inr rfl⟩⟩
    · exact ⟨rfl, fun _ => .inl ⟨rfl, rfl⟩⟩

/-- A step that tells the loop to stop, or lets it be started again, leaves the world and the client as
they are. -/
theorem signal_frame {x : WatchStep} (hx : x.isSignal = true) : ∃ loop debouncer cancelled,
    (y.step w x).state = { y.state with loop, debouncer, cancelled } := by
  cases x with
  | failSource cause =>
    rw [step, WatchState.failSource]
    split <;> exact ⟨_, _, y.state.cancelled, rfl⟩
  | cancel =>
    rw [step, WatchState.cancel]
    dsimp only
    split <;> exact ⟨_, _, true, rfl⟩
  | rearm =>
    rw [step]
    split
    · exact ⟨_, _, _, rfl⟩
    · exact ⟨_, _, false, rfl⟩
  | _ => cases hx

theorem next?_eq_some_iff {y : WatchSystem} {n : ℕ} {walk : BulkWalk} {path : Path} :
    y.next? n = some (walk, path) ↔
      y.walks[n]? = some walk ∧ walk.resumes ≤ y.state.now ∧ walk.paths.head? = some path := by
  simp only [next?, BulkWalk.next?, Option.bind_eq_bind, Option.bind_eq_some_iff,
    Option.some.injEq, Prod.mk.injEq]
  constructor
  · rintro ⟨walk', hwalk, path', hpath, rfl, rfl⟩
    split at hpath
    · cases hpath
    · next hready => exact ⟨hwalk, Nat.le_of_not_lt hready, hpath⟩
  · rintro ⟨hwalk, hready, hpath⟩
    exact ⟨walk, hwalk, path, by rw [if_neg (Nat.not_lt.mpr hready), hpath], rfl, rfl⟩

variable {y} in
theorem visited?_next {n : ℕ} {walk : BulkWalk} {path : Path} (hnext : y.next? n = some (walk, path)) :
    y.visited? n = if y.state.needsOpening path then some path else none := by
  rw [visited?, hnext, WatchState.needsOpening, WatchState.isWatched, ← Option.not_isNone]
  dsimp only
  cases (y.state.registry.mask? path).isNone <;> cases y.state.client.isOpen path <;> rfl

variable {y} in
theorem visit_next {n : ℕ} {walk : BulkWalk} {path : Path} (hnext : y.next? n = some (walk, path)) :
    y.visit w n = ⟨y.state.request path, y.walks.set n (walk.goOn w y.state.now)⟩ := by
  rw [visit, hnext]
  dsimp only
  rw [WatchState.openCandidate_eq]

theorem visit_cases (n : ℕ) :
    (y.visited? n = none ∧ (y.visit w n).state = y.state) ∨
      ∃ path, y.visited? n = some path ∧
        (y.visit w n).state = y.state.call y.state.now (.open path) := by
  cases hnext : y.next? n with
  | none => exact .inl ⟨by rw [visited?, hnext], by rw [visit, hnext]⟩
  | some next =>
    rw [visited?_next hnext, visit_next w hnext, WatchState.request]
    cases y.state.needsOpening next.2 with
    | false => exact .inl ⟨rfl, rfl⟩
    | true => exact .inr ⟨next.2, rfl, rfl⟩

theorem step_calls (x : WatchStep) :
    (y.step w x).state.client.calls = y.state.client.calls ++ y.stepCalls w x := by
  cases x with
  | operation op path =>
    rw [step, stepCalls]
    split
    · exact (WatchState.onOperation_effect w y.state op path).calls
    · exact (List.append_nil _).symm
  | visit n =>
    rw [step, stepCalls]
    rcases y.visit_cases w n with ⟨hnone, heq⟩ | ⟨path, hsome, heq⟩
    · rw [heq, hnone]
      exact (List.append_nil _).symm
    · rw [heq, hsome]
      rfl
  | advance ms =>
    rw [step, WatchState.advance_eq]
    rfl
  | _ => exact (step_controls w y rfl).calls.trans (List.append_nil _).symm

theorem visit_keeps (n : ℕ) :
    (y.visit w n).state.queue = y.state.queue ∧ (y.visit w n).running = y.running := by
  rcases y.visit_cases w n with ⟨_, heq⟩ | ⟨path, _, heq⟩ <;> rw [running, heq] <;> exact ⟨rfl, rfl⟩

theorem operation_running (op : FileOperation) (path : Path) :
    (y.step w (.operation op path)).running = y.running := by
  rw [step]
  split
  · exact congrArg LoopStatus.isRunning (WatchState.onOperation_effect w y.state op path).loop
  · rfl

theorem advance_running (ms : ℕ) : (y.step w (.advance ms)).running = y.running := by
  rw [step, WatchState.advance_eq]
  rfl

variable {y}

theorem control_timers (hy : y.Settled) {x : WatchStep} (hx : x.isControl = true) :
    (y.step w x).state.queue.timers =
      y.state.queue.timers.filter fun _ => !y.ends w x := by
  rcases (step_controls w y hx).timers hy with ⟨hsame, hrun⟩ | ⟨hnone, hrun | hrun⟩
  · simp [hsame, ends, hrun]
  · simp [hnone, hy hrun]
  · cases h : y.running with
    | true => simp [hnone, ends, h, hrun]
    | false => simp [hnone, hy h]

/-- A step drops the notifications that it withdraws or that are sent in it, and then adds the one
that it plans. -/
theorem step_timers (hy : y.Settled) (x : WatchStep) :
    (y.step w x).state.queue.timers =
      y.state.queue.timers.filter (fun t => !y.withdraws w t.key x && !y.reaches t.due x) ++
        (y.planned? w x).toList := by
  cases x with
  | operation op path =>
    rw [step]
    cases hrun : y.running with
    | true =>
      have h := (WatchState.onOperation_effect w y.state op path).timers
      simpa [withdraws, reaches, planned?, hrun] using h
    | false => simp [withdraws, reaches, planned?, hrun]
  | visit n =>
    obtain ⟨hsame, hrun⟩ := y.visit_keeps w n
    have hends : y.ends w (.visit n) = false := by
      simp [ends, step, hrun]
    simp [step, hsame, withdraws, hends, reaches, planned?]
  | advance ms =>
    have hends : y.ends w (.advance ms) = false := by
      simp [ends, advance_running]
    -- the queue keeps just the timers that time does not reach
    have hlate (t : Timer NotificationKey Path) :
        decide (y.state.now + ms < t.due) = !decide (t.due ≤ y.state.now + ms) := by
      rw [← decide_not]
      simp only [Nat.not_le]
    rw [step, WatchState.queue_advance]
    simp only [withdraws, hends, reaches, planned?, Bool.not_false, Bool.true_and,
      Option.toList_none, List.append_nil]
    exact List.filter_congr fun t _ => hlate t
  | _ => simpa [withdraws, reaches, planned?] using control_timers w hy rfl

theorem control_settled (hy : y.Settled) {x : WatchStep} (hx : x.isControl = true) :
    (y.step w x).Settled := by
  intro hstopped
  rcases (step_controls w y hx).timers hy with ⟨hsame, hrun⟩ | ⟨hnone, _⟩
  · rw [hsame]
    exact hy (hrun.symm.trans hstopped)
  · exact hnone

theorem step_settled (hy : y.Settled) (x : WatchStep) : (y.step w x).Settled := by
  cases x with
  | operation op path =>
    intro hstopped
    rw [operation_running] at hstopped
    rw [step, if_neg (by simp [hstopped])]
    exact hy hstopped
  | visit n =>
    obtain ⟨hsame, hrun⟩ := y.visit_keeps w n
    intro hstopped
    rw [step, hsame]
    exact hy (hrun.symm.trans hstopped)
  | advance ms =>
    intro hstopped
    rw [advance_running] at hstopped
    rw [step, WatchState.queue_advance, TimerQueue.advance, hy hstopped]
    rfl
  | _ => exact control_settled w hy rfl

end WatchSystem

end WorkspaceLink
