import WorkspaceLink.Proofs.Watcher.Client

/-! What a watcher keeps and tells about one path. Two watchers that agree in this, and in the world
around them, still do after a step, and what is done to other files makes no difference. -/

namespace WorkspaceLink

namespace WatchState

variable (s : WatchState)

/-- The pending notifications about a path. -/
def timersOf (path : Path) : List (Timer NotificationKey Path) :=
  s.queue.timers.filter (Path.same path ·.key.path)

variable {s} {p : Path}

theorem filter_dueCalls (hkeyed : ∀ t ∈ s.queue.timers, t.action = t.key.path) (ms : ℕ) :
    (s.dueCalls ms).filter (·.2.isAbout p) =
      (({ s.queue with timers := s.timersOf p } : TimerQueue NotificationKey Path).expired ms).map
        fun t => (t.due, s.client.report t.action t.key.change) := by
  have habout : ∀ t ∈ s.queue.expired ms,
      WatchCall.isAbout p (s.client.report t.action t.key.change) = Path.same p t.key.path := by
    intro t ht
    rw [WatchCall.isAbout, WatchClient.path?_report, hkeyed t (TimerQueue.mem_expired_iff.mp ht).1]
    rfl
  rw [dueCalls, Debouncer.expired_eq, List.filter_map, timersOf, ← TimerQueue.filter_expired]
  exact congrArg _ (List.filter_congr habout)

end WatchState

namespace WatchSystem

variable {w : Watcher} {y z : WatchSystem} {p q : Path} {op : FileOperation}

/-- Nothing is pending without a running loop, and what is pending is about the path of its key. -/
structure Tidy (y : WatchSystem) : Prop where
  settled : y.Settled
  keyed : ∀ t ∈ y.state.queue.timers, t.action = t.key.path

theorem Tidy.step (h : y.Tidy) (x : WatchStep) : (y.step w x).Tidy where
  settled := step_settled w h.settled x
  keyed t ht := by
    rw [step_timers w h.settled x] at ht
    rcases List.mem_append.mp ht with hold | hnew
    · exact h.keyed t (List.mem_filter.mp hold).1
    · cases x with
      | operation op path =>
        rw [planned?, Option.mem_toList] at hnew
        split at hnew
        · obtain ⟨change, _, rfl⟩ := Option.map_eq_some_iff.mp hnew
          rfl
        · cases hnew
      | _ => cases hnew

/-! ### Around a watcher -/

/-- Two watchers in the same world, with the same registrations, loop and walks. -/
structure SameAround (y z : WatchSystem) : Prop extends WatchState.SameWorld y.state z.state where
  cancelled : z.state.cancelled = y.state.cancelled
  unwatchable : z.state.unwatchable = y.state.unwatchable
  walks : z.walks = y.walks

theorem SameAround.refl (y : WatchSystem) : SameAround y y :=
  ⟨⟨rfl, rfl, rfl, rfl⟩, rfl, rfl, rfl⟩

theorem SameAround.symm (h : SameAround y z) : SameAround z y :=
  ⟨⟨h.files.symm, h.registry.symm, h.loop.symm, h.now.symm⟩, h.cancelled.symm, h.unwatchable.symm,
    h.walks.symm⟩

theorem SameAround.trans {u : WatchSystem} (h : SameAround y z) (h' : SameAround z u) :
    SameAround y u :=
  ⟨⟨h'.files.trans h.files, h'.registry.trans h.registry, h'.loop.trans h.loop,
    h'.now.trans h.now⟩, h'.cancelled.trans h.cancelled, h'.unwatchable.trans h.unwatchable,
    h'.walks.trans h.walks⟩

theorem SameAround.running (h : SameAround y z) : z.running = y.running :=
  congrArg LoopStatus.isRunning h.loop

theorem SameAround.next?_eq (h : SameAround y z) (n : ℕ) : z.next? n = y.next? n := by
  rw [next?, next?, h.walks, h.now]

theorem sameAround_onOperation (w : Watcher) (y : WatchSystem) (op : FileOperation) (path : Path) :
    SameAround y { y with state := y.state.onOperation w op path } := by
  obtain ⟨_, _, heq⟩ := y.state.onOperation_handled w op path
  have hworld := (WatchState.onOperation_effect w y.state op path).toSameWorld
  exact ⟨hworld, congrArg (·.cancelled) heq, congrArg (·.unwatchable) heq, rfl⟩

theorem subscribeAll_failed {s s' : WatchState} (h : s'.unwatchable = s.unwatchable)
    (dirs : List Path) : (s'.subscribeAll dirs).2 = (s.subscribeAll dirs).2 := by
  induction dirs generalizing s s' with
  | nil => rfl
  | cons dir dirs ih =>
    simp only [WatchState.subscribeAll, WatchState.subscribe?, h]
    by_cases hdir : s.unwatchable.any (Path.same dir) = true
    · rw [if_pos hdir, if_pos hdir]
    · rw [if_neg hdir, if_neg hdir]
      exact ih rfl

/-- Whether a start succeeds depends on the world alone. -/
theorem SameAround.start_loop (h : SameAround y z) (sourceFailure : Option Text) :
    (z.state.start w sourceFailure).loop = (y.state.start w sourceFailure).loop := by
  have hdirs : z.state.directories? w = y.state.directories? w := by
    rw [WatchState.directories?, WatchState.directories?, h.files]
  unfold WatchState.start
  cases sourceFailure with
  | some cause => rfl
  | none =>
    rw [hdirs]
    cases y.state.directories? w with
    | none => rfl
    | some dirs =>
      have hfailed := subscribeAll_failed h.unwatchable dirs
      obtain ⟨subscribed, hy⟩ := WatchState.subscribeAll_eq y.state dirs
      obtain ⟨subscribed', hz⟩ := WatchState.subscribeAll_eq z.state dirs
      dsimp only
      generalize y.state.subscribeAll dirs = result at hfailed hy ⊢
      generalize z.state.subscribeAll dirs = result' at hfailed hz ⊢
      obtain ⟨s, failed⟩ := result
      obtain ⟨s', failed'⟩ := result'
      obtain rfl : failed' = failed := hfailed
      obtain rfl : s = { y.state with subscribed } := hy
      obtain rfl : s' = { z.state with subscribed := subscribed' } := hz
      cases failed' with
      | some dir => rfl
      | none =>
        dsimp only
        rw [h.cancelled]
        split <;> rfl

theorem SameAround.step (h : SameAround y z) (x : WatchStep) :
    SameAround (y.step w x) (z.step w x) := by
  cases x with
  | register id registrations => exact { h with registry := congrArg (·.add id registrations) h.registry }
  | unregister id => exact { h with registry := congrArg (·.remove id) h.registry }
  | beginWalk =>
    have hcandidates : z.state.candidates w = y.state.candidates w := by
      rw [WatchState.candidates, WatchState.candidates, h.files]
    refine { h with walks := ?_ }
    rw [WatchSystem.step, WatchSystem.step, h.walks, hcandidates]
  | visit n =>
    have hnext := h.next?_eq n
    rw [WatchSystem.step, WatchSystem.step]
    cases hy : y.next? n with
    | none =>
      rw [hy] at hnext
      rw [visit, visit, hy, hnext]
      exact h
    | some next =>
      rw [hy] at hnext
      obtain ⟨_, hreqy⟩ := y.state.request_frame next.2
      obtain ⟨_, hreqz⟩ := z.state.request_frame next.2
      rw [visit_next w hy, visit_next w hnext, hreqy, hreqz, h.walks, h.now]
      exact { h with walks := rfl }
  | start sourceFailure =>
    rw [WatchSystem.step, WatchSystem.step, h.running]
    split
    · exact h
    · have hloop := h.start_loop (w := w) sourceFailure
      obtain ⟨_, _, _, hy, hdy⟩ := WatchState.start_eq w y.state sourceFailure
      obtain ⟨_, _, _, hz, hdz⟩ := WatchState.start_eq w z.state sourceFailure
      rw [hy, hz] at hloop ⊢
      refine { h with loop := hloop, now := ?_ }
      rcases hdy with rfl | rfl <;> rcases hdz with rfl | rfl <;> exact h.now
  | operation op path =>
    rw [WatchSystem.step, WatchSystem.step, h.running]
    split
    · exact ((sameAround_onOperation w y op path).symm.trans h).trans
        (sameAround_onOperation w z op path)
    · exact h
  | failSource cause =>
    rw [WatchSystem.step, WatchSystem.step, WatchState.failSource, WatchState.failSource]
    change SameAround { y with state := if y.running then _ else _ }
      { z with state := if z.running then _ else _ }
    rw [h.running]
    split
    · exact { h with loop := rfl, now := h.now }
    · exact h
  | cancel =>
    rw [WatchSystem.step, WatchSystem.step, WatchState.cancel, WatchState.cancel]
    change SameAround { y with state := if y.running then _ else _ }
      { z with state := if z.running then _ else _ }
    rw [h.running]
    split
    · exact { h with loop := rfl, now := h.now, cancelled := rfl }
    · exact { h with cancelled := rfl }
  | rearm =>
    rw [WatchSystem.step, WatchSystem.step, h.running]
    split
    · exact h
    · exact { h with cancelled := rfl }
  | advance ms =>
    rw [WatchSystem.step, WatchSystem.step, WatchState.advance_eq, WatchState.advance_eq]
    exact { h with now := congrArg (· + ms) h.now }
  | change files opened unwatchable => exact { h with files := rfl, unwatchable := rfl }

theorem SameAround.planned?_eq (h : SameAround y z) (x : WatchStep) :
    z.planned? w x = y.planned? w x := by
  cases x with
  | operation op path =>
    have hcalls := h.callsFor_eq w
    have hnotification : z.state.notification w path = y.state.notification w path := by
      funext change
      rw [WatchState.notification, WatchState.notification, h.now]
    simp only [planned?, h.running, WatchState.planned?, hcalls, hnotification]
  | _ => rfl

theorem SameAround.withdraws_eq (h : SameAround y z) (key : NotificationKey) (x : WatchStep) :
    z.withdraws w key x = y.withdraws w key x := by
  cases x with
  | operation op path =>
    have hcalls := h.callsFor_eq w
    simp only [withdraws, h.running, WatchState.withdraws, hcalls]
  | _ => exact congrArg₂ (· && !·) h.running (h.step _).running

theorem SameAround.reaches_eq (h : SameAround y z) (time : ℕ) (x : WatchStep) :
    z.reaches time x = y.reaches time x := by
  cases x <;> simp only [reaches, h.now]

/-! ### One path -/

/-- Two watchers of which a path can tell the same: the same is pending for it, and the client has
been told the same. -/
structure SameFor (p : Path) (y z : WatchSystem) : Prop extends SameAround y z where
  timers : z.state.timersOf p = y.state.timersOf p
  client : WatchClient.SameFor p y.state.client z.state.client

theorem SameFor.symm (h : SameFor p y z) : SameFor p z y :=
  ⟨h.toSameAround.symm, h.timers.symm, h.client.symm⟩

theorem SameFor.trans {u : WatchSystem} (h : SameFor p y z) (h' : SameFor p z u) : SameFor p y u :=
  ⟨h.toSameAround.trans h'.toSameAround, h'.timers.trans h.timers, h.client.trans h'.client⟩

/-- The client with the files open that a step says. -/
def reopened (c : WatchClient) : WatchStep → WatchClient
  | .change _ opened _ => { c with opened }
  | _ => c

theorem step_client (w : Watcher) (y : WatchSystem) (x : WatchStep) :
    (y.step w x).state.client = (reopened y.state.client x).sends (y.stepCalls w x) := by
  have hsignal := signal_frame w y (x := x)
  cases x with
  | operation op path =>
    rw [step, stepCalls]
    split
    · obtain ⟨_, _, heq⟩ := y.state.onOperation_handled w op path
      exact congrArg (·.client) heq
    · rfl
  | visit n =>
    rw [step, stepCalls]
    rcases y.visit_cases w n with ⟨hnone, heq⟩ | ⟨path, hsome, heq⟩
    · rw [heq, hnone]
      rfl
    · rw [heq, hsome]
      rfl
  | advance ms =>
    rw [step, WatchState.advance_eq]
    exact (WatchClient.sends_reports _ _).symm
  | start sourceFailure =>
    obtain ⟨_, _, _, heq, _⟩ := WatchState.start_eq w y.state sourceFailure
    rw [step]
    split
    · rfl
    · exact congrArg (·.client) heq
  | failSource _ | cancel | rearm =>
    obtain ⟨_, _, _, heq⟩ := hsignal rfl
    exact congrArg (·.client) heq
  | _ => rfl

/-- The calls about a path in a step depend on the world around the watcher, on what is pending for
the path and on whether the client has it open. -/
theorem SameAround.stepCalls_eq (h : SameAround y z) (hy : y.Tidy) (hz : z.Tidy)
    (htimers : z.state.timersOf p = y.state.timersOf p)
    (hopen : z.state.client.isOpen p = y.state.client.isOpen p) (x : WatchStep) :
    (z.stepCalls w x).filter (·.2.isAbout p) = (y.stepCalls w x).filter (·.2.isAbout p) := by
  have hopen {q : Path} (hq : Path.same p q = true) :
      z.state.client.isOpen q = y.state.client.isOpen q := by
    rw [WatchClient.isOpen_congr hq, WatchClient.isOpen_congr hq, hopen]
  cases x with
  | operation op path =>
    simp only [stepCalls, h.running, WatchState.operationCalls, h.callsFor_eq w, h.opens_eq w, h.now]
  | visit n =>
    rw [stepCalls, stepCalls, visited?, visited?, h.next?_eq, h.registry, h.now]
    cases y.next? n with
    | none => rfl
    | some next =>
      cases hp : Path.same p next.2 with
      | true => simp only [hopen hp]
      | false =>
        -- the call is about another file, whether it is made or not
        have hother : WatchCall.isAbout p (.open next.2) = false := hp
        dsimp only
        split <;> split <;> simp [hother]
  | advance ms =>
    have hqueue : ({ z.state.queue with timers := z.state.timersOf p } : TimerQueue _ _) =
        { y.state.queue with timers := y.state.timersOf p } := by
      rw [htimers]
      exact congrArg (TimerQueue.mk · _) h.now
    rw [stepCalls, stepCalls, WatchState.filter_dueCalls hz.keyed, WatchState.filter_dueCalls hy.keyed,
      hqueue]
    apply List.map_congr_left
    intro t ht
    obtain ⟨ht, hp⟩ := List.mem_filter.mp (TimerQueue.mem_expired_iff.mp ht).1
    rw [← hy.keyed t ht] at hp
    rw [WatchClient.report, WatchClient.report, hopen hp]
  | _ => rfl

theorem SameFor.step (h : SameFor p y z) (w : Watcher) (hy : y.Tidy) (hz : z.Tidy) (x : WatchStep) :
    SameFor p (y.step w x) (z.step w x) where
  toSameAround := h.toSameAround.step x
  timers := by
    have hkeep : (fun t => !z.withdraws w t.key x && !z.reaches t.due x) =
        fun t : Timer NotificationKey Path => !y.withdraws w t.key x && !y.reaches t.due x := by
      funext t
      rw [h.withdraws_eq, h.reaches_eq]
    have htimers : z.state.queue.timers.filter (Path.same p ·.key.path) =
        y.state.queue.timers.filter (Path.same p ·.key.path) := h.timers
    rw [WatchState.timersOf, WatchState.timersOf, step_timers w hz.settled, step_timers w hy.settled,
      hkeep, h.planned?_eq, List.filter_append, List.filter_append]
    congr 1
    exact (List.filter_comm ..).trans ((congrArg _ htimers).trans (List.filter_comm ..))
  client := by
    rw [step_client, step_client]
    refine WatchClient.SameFor.sends ?_
      (h.toSameAround.stepCalls_eq hy hz h.timers h.client.isOpen x)
    cases x with
    | change files opened unwatchable => exact ⟨h.client.failure, rfl, h.client.calls⟩
    | _ => exact h.client

/-- An operation on another file does not show. -/
theorem sameFor_operation (w : Watcher) (hy : y.Tidy) (op : FileOperation)
    (hq : Path.same p q = false) : SameFor p y (y.step w (.operation op q)) where
  toSameAround := by
    rw [WatchSystem.step]
    split
    · exact sameAround_onOperation w y op q
    · exact .refl y
  timers := by
    have hkey (change : FileChange) {key : NotificationKey} (hp : Path.same p key.path = true) :
        (key == ⟨q, change⟩) = false := by
      rw [← Bool.not_eq_true, NotificationKey.beq_iff, Path.same_congr hp, hq]
      simp
    -- none of the notifications about the path is withdrawn, and none is planned
    have hkeep : (y.state.queue.timers.filter fun t => !y.withdraws w t.key (.operation op q) &&
        !y.reaches t.due (.operation op q)).filter (Path.same p ·.key.path) =
          y.state.timersOf p := by
      rw [List.filter_filter]
      apply List.filter_congr
      intro t _
      cases hp : Path.same p t.key.path with
      | false => rfl
      | true => simp [withdraws, reaches, WatchState.withdraws, hkey _ hp]
    have hplanned : (y.planned? w (.operation op q)).toList.filter (Path.same p ·.key.path) = [] := by
      rw [List.filter_eq_nil_iff]
      intro t ht
      rw [planned?, Option.mem_toList] at ht
      split at ht
      · obtain ⟨change, _, rfl⟩ := Option.map_eq_some_iff.mp ht
        exact ne_true_of_eq_false hq
      · cases ht
    rw [WatchState.timersOf, step_timers w hy.settled, List.filter_append, hkeep, hplanned]
    exact List.append_nil _
  client := by
    have hcalls : (y.stepCalls w (.operation op q)).filter (·.2.isAbout p) = [] := by
      rw [List.filter_eq_nil_iff]
      intro call hcall
      rw [stepCalls] at hcall
      split at hcall
      · rw [WatchCall.isAbout, WatchState.path?_operationCalls hcall]
        exact ne_true_of_eq_false hq
      · cases hcall
    have hclient := (WatchClient.SameFor.refl p y.state.client).sends_filter
      (y.stepCalls w (.operation op q))
    rw [hcalls] at hclient
    rw [step_client]
    exact hclient

end WatchSystem

end WorkspaceLink
