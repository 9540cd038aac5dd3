import WorkspaceLink.Proofs.Watcher.OnePath

/-! What the client answers. Apart from the client itself, nothing that a watcher does depends on it;
and of the answers, only those to openings count. -/

namespace WorkspaceLink

/-! ### States with another client -/

namespace WatchState

variable (w : Watcher) {s s' : WatchState}

/-- Two states that differ in the client at most. -/
def SameButClient (s s' : WatchState) : Prop :=
  ∃ client, s' = { s with client }

theorem SameButClient.sameWorld (h : SameButClient s s') : SameWorld s s' := by
  obtain ⟨client, rfl⟩ := h
  exact ⟨rfl, rfl, rfl, rfl⟩

theorem SameButClient.onCreated (h : SameButClient s s') (path : Path) :
    SameButClient (s.onCreated w path) (s'.onCreated w path) := by
  obtain ⟨client, rfl⟩ := h
  cases hdir : s.files.isDir path with
  | true =>
    have hdir' : ({ s with client } : WatchState).files.isDir path = true := hdir
    rw [onCreated_of_isDir w s hdir, onCreated_of_isDir w { s with client } hdir']
    have hsubscribes : ({ s with client } : WatchState).subscribes w path = s.subscribes w path := rfl
    rw [hsubscribes]
    split <;> exact ⟨client, rfl⟩
  | false =>
    have hdir' : ({ s with client } : WatchState).files.isDir path = false := hdir
    rw [onCreated_of_not_isDir w s hdir, onCreated_of_not_isDir w { s with client } hdir']
    dsimp only
    split
    · exact ⟨client, rfl⟩
    · cases s.registry.mask? path with
      | none => exact ⟨client, rfl⟩
      | some mask =>
        dsimp only
        split <;> exact ⟨_, rfl⟩

theorem SameButClient.onWritten (h : SameButClient s s') (path : Path) :
    SameButClient (s.onWritten w path) (s'.onWritten w path) := by
  obtain ⟨client, rfl⟩ := h
  unfold WatchState.onWritten
  dsimp only
  cases s.registry.mask? path with
  | none => exact ⟨client, rfl⟩
  | some mask =>
    dsimp only
    split <;> exact ⟨client, rfl⟩

theorem SameButClient.onRemoved (h : SameButClient s s') (path : Path) :
    SameButClient (s.onRemoved w path) (s'.onRemoved w path) := by
  have hcalls := congrFun (congrFun (congrFun (h.sameWorld.callsFor_eq w) .removed) path) .deleted
  obtain ⟨client, rfl⟩ := h
  rcases onRemoved_cases w s path with ⟨hc, heq⟩ | ⟨hc, heq⟩ <;>
    rcases onRemoved_cases w { s with client } path with ⟨hc', heq'⟩ | ⟨hc', heq'⟩ <;>
    rw [heq, heq']
  · exact ⟨client, rfl⟩
  · rw [hcalls, hc] at hc'
    cases hc'
  · rw [hcalls, hc] at hc'
    cases hc'
  · exact ⟨_, rfl⟩

theorem SameButClient.onRenamed (h : SameButClient s s') (path : Path) :
    SameButClient (s.onRenamed w path) (s'.onRenamed w path) := by
  have hremoved := h.onRemoved w path
  rw [onRenamed_eq, onRenamed_eq, h.sameWorld.files]
  split
  · exact hremoved.onCreated w path
  · exact hremoved

theorem SameButClient.onOperation (h : SameButClient s s') (op : FileOperation) (path : Path) :
    SameButClient (s.onOperation w op path) (s'.onOperation w op path) := by
  cases op with
  | created => exact h.onCreated w path
  | written => exact h.onWritten w path
  | removed => exact h.onRemoved w path
  | renamed => exact h.onRenamed w path

theorem subscribeAll_client (s : WatchState) (client : WatchClient) (dirs : List Path) :
    ({ s with client } : WatchState).subscribeAll dirs =
      ({ (s.subscribeAll dirs).1 with client }, (s.subscribeAll dirs).2) := by
  induction dirs generalizing s with
  | nil => rfl
  | cons dir dirs ih =>
    simp only [subscribeAll, subscribe?]
    by_cases hdir : s.unwatchable.any (Path.same dir) = true
    · rw [if_pos hdir, if_pos hdir]
    · rw [if_neg hdir, if_neg hdir]
      exact ih { s with subscribed := s.subscribed ++ [dir] }

theorem SameButClient.start (h : SameButClient s s') (sourceFailure : Option Text) :
    SameButClient (s.start w sourceFailure) (s'.start w sourceFailure) := by
  obtain ⟨client, rfl⟩ := h
  have hdirs : ({ s with client } : WatchState).directories? w = s.directories? w := rfl
  unfold WatchState.start
  cases sourceFailure with
  | some cause => exact ⟨client, rfl⟩
  | none =>
    rw [hdirs]
    cases s.directories? w with
    | none => exact ⟨client, rfl⟩
    | some dirs =>
      dsimp only
      rw [subscribeAll_client s client dirs]
      generalize s.subscribeAll dirs = result
      obtain ⟨s, failed⟩ := result
      cases failed with
      | some dir => exact ⟨client, rfl⟩
      | none =>
        dsimp only
        split <;> exact ⟨client, rfl⟩

end WatchState

/-! ### Other answers -/

namespace WatchClient

variable {p q : Path} {c d : WatchClient} {time : ℕ} {call : WatchCall}
  {g : WatchCall → ℕ → Option ClientError}

/-- The client if it answers otherwise. -/
def answering (c : WatchClient) (g : WatchCall → ℕ → Option ClientError) : WatchClient :=
  { c with failure? := g }

/-- Whether the openings among calls made in turn fail or succeed as before. -/
def AnsweredAlike (f g : WatchCall → ℕ → Option ClientError) (calls : List (ℕ × WatchCall)) : Prop :=
  ∀ before time path after, calls = before ++ (time, .open path) :: after →
    (g (.open path) (before.countP (·.2 = .open path))).isNone =
      (f (.open path) (before.countP (·.2 = .open path))).isNone

theorem AnsweredAlike.of_append {f : WatchCall → ℕ → Option ClientError}
    {calls more : List (ℕ × WatchCall)} (h : AnsweredAlike f g (calls ++ more)) :
    AnsweredAlike f g calls := by
  intro before time path after heq
  refine h before time path (after ++ more) ?_
  rw [heq, List.append_assoc, List.cons_append]

theorem sends_cons (c : WatchClient) (call : ℕ × WatchCall) (calls : List (ℕ × WatchCall)) :
    c.sends (call :: calls) = (c.send call.1 call.2).sends calls :=
  rfl

theorem calls_sends (c : WatchClient) (calls : List (ℕ × WatchCall)) :
    (c.sends calls).calls = c.calls ++ calls := by
  induction calls generalizing c with
  | nil => exact (List.append_nil _).symm
  | cons call calls ih =>
    have hsend : (c.send call.1 call.2).calls = c.calls ++ [call] := rfl
    rw [sends_cons, ih, hsend, ← List.append_cons]

/-- A file is open after a call to open it if it was before, or the call succeeds. -/
theorem send_open (c : WatchClient) (time : ℕ) (path : Path) :
    c.send time (.open path) =
      { c with
        opened :=
          if (c.nextFailure? (.open path)).isNone && !c.isOpen path then c.opened ++ [path]
          else c.opened
        calls := c.calls ++ [(time, .open path)] } := by
  cases hfail : c.nextFailure? (.open path) with
  | some e => simp [send, hfail]
  | none => cases hopen : c.isOpen path <;> simp [send, hfail, hopen]

theorem send_answering (h : ∀ path, call = .open path →
    ((c.answering g).nextFailure? call).isNone = (c.nextFailure? call).isNone) :
    (c.answering g).send time call = (c.send time call).answering g := by
  cases call with
  | «open» path =>
    rw [send_open, send_open, h path rfl]
    rfl
  | change path => rfl
  | watched uri change => rfl

/-- Answers that change no opening do not show. -/
theorem sends_answering {calls : List (ℕ × WatchCall)}
    (h : AnsweredAlike c.failure? g (c.calls ++ calls)) :
    (c.answering g).sends calls = (c.sends calls).answering g := by
  induction calls generalizing c with
  | nil => rfl
  | cons call calls ih =>
    obtain ⟨time, call⟩ := call
    have hsend : (c.answering g).send time call = (c.send time call).answering g := by
      apply send_answering
      rintro path rfl
      exact h c.calls time path calls rfl
    rw [sends_cons, sends_cons, hsend]
    apply ih
    rw [List.append_cons] at h
    exact h

/-- Two clients of which a path can tell the same, though they may answer otherwise to all but its
openings. -/
structure AlikeFor (p : Path) (c d : WatchClient) : Prop where
  answers : ∀ q, Path.same p q = true → ∀ n,
    (d.failure? (.open q) n).isNone = (c.failure? (.open q) n).isNone
  isOpen : d.isOpen p = c.isOpen p
  calls : d.callsAbout p = c.callsAbout p

theorem AlikeFor.congr {c' d' : WatchClient} (h : AlikeFor p c d) (hc : SameFor p c c')
    (hd : SameFor p d d') : AlikeFor p c' d' where
  answers q hq n := by rw [hc.failure, hd.failure, h.answers q hq n]
  isOpen := by rw [hc.isOpen, hd.isOpen, h.isOpen]
  calls := by rw [hc.calls, hd.calls, h.calls]

theorem AlikeFor.send (h : AlikeFor p c d) (hcall : call.isAbout p = true) :
    AlikeFor p (c.send time call) (d.send time call) where
  answers := h.answers
  isOpen := by
    cases call with
    | «open» q =>
      have hq : Path.same p q = true := hcall
      have hanswer := h.answers q hq (c.calls.countP (·.2 = .open q))
      rw [isOpen_send_open, isOpen_send_open, h.isOpen, nextFailure?, nextFailure?,
        ← d.countP_callsAbout hcall, h.calls, c.countP_callsAbout hcall, hanswer]
    | change q => exact h.isOpen
    | watched uri change => exact h.isOpen
  calls := by rw [callsAbout_send, callsAbout_send, h.calls]

theorem AlikeFor.sends_about {calls : List (ℕ × WatchCall)} (h : AlikeFor p c d)
    (hcalls : ∀ call ∈ calls, call.2.isAbout p = true) :
    AlikeFor p (c.sends calls) (d.sends calls) := by
  induction calls generalizing c d with
  | nil => exact h
  | cons call calls ih =>
    obtain ⟨hcall, hcalls⟩ := List.forall_mem_cons.mp hcalls
    exact ih (h.send hcall) hcalls

theorem AlikeFor.sends {calls calls' : List (ℕ × WatchCall)} (h : AlikeFor p c d)
    (hcalls : calls'.filter (·.2.isAbout p) = calls.filter (·.2.isAbout p)) :
    AlikeFor p (c.sends calls) (d.sends calls') := by
  -- calls about other files do not show
  have habout : AlikeFor p (c.sends (calls.filter (·.2.isAbout p)))
      (d.sends (calls.filter (·.2.isAbout p))) :=
    h.sends_about fun _ hcall => (List.mem_filter.mp hcall).2
  refine habout.congr ((SameFor.refl p c).sends_filter calls) ?_
  rw [← hcalls]
  exact (SameFor.refl p d).sends_filter calls'

end WatchClient

/-! ### Steps -/

namespace WatchSystem

variable {w : Watcher} {y z : WatchSystem} {p : Path} {g : WatchCall → ℕ → Option ClientError}

/-- Two watchers that differ in the client at most. -/
structure SameButClient (y z : WatchSystem) : Prop where
  state : y.state.SameButClient z.state
  walks : z.walks = y.walks

theorem SameButClient.sameAround (h : SameButClient y z) : SameAround y z := by
  obtain ⟨⟨client, hstate⟩, hwalks⟩ := h
  exact ⟨⟨congrArg (·.files) hstate, congrArg (·.registry) hstate, congrArg (·.loop) hstate,
    congrArg (·.now) hstate⟩, congrArg (·.cancelled) hstate, congrArg (·.unwatchable) hstate, hwalks⟩

theorem SameButClient.step (h : SameButClient y z) (w : Watcher) (x : WatchStep) :
    SameButClient (y.step w x) (z.step w x) := by
  have hrun := h.sameAround.running
  have hnext (n : ℕ) := h.sameAround.next?_eq n
  obtain ⟨hstate, hwalks⟩ := h
  cases x with
  | operation op path =>
    rw [WatchSystem.step, WatchSystem.step, hrun]
    split
    · exact ⟨hstate.onOperation w op path, hwalks⟩
    · exact ⟨hstate, hwalks⟩
  | start sourceFailure =>
    rw [WatchSystem.step, WatchSystem.step, hrun]
    split
    · exact ⟨hstate, hwalks⟩
    · exact ⟨hstate.start w sourceFailure, hwalks⟩
  | visit n =>
    rw [WatchSystem.step, WatchSystem.step]
    have hnext := hnext n
    cases hy : y.next? n with
    | none =>
      rw [hy] at hnext
      rw [visit, visit, hy, hnext]
      exact ⟨hstate, hwalks⟩
    | some next =>
      rw [hy] at hnext
      obtain ⟨client, hreqy⟩ := y.state.request_frame next.2
      obtain ⟨client', hreqz⟩ := z.state.request_frame next.2
      obtain ⟨_, hstate⟩ := hstate
      rw [visit_next w hy, visit_next w hnext, hreqy, hreqz, hwalks, hstate]
      exact ⟨⟨client', rfl⟩, rfl⟩
  | register id registrations =>
    obtain ⟨client, hstate⟩ := hstate
    rw [WatchSystem.step, WatchSystem.step, hstate]
    exact ⟨⟨client, rfl⟩, hwalks⟩
  | unregister id =>
    obtain ⟨client, hstate⟩ := hstate
    rw [WatchSystem.step, WatchSystem.step, hstate]
    exact ⟨⟨client, rfl⟩, hwalks⟩
  | beginWalk =>
    obtain ⟨client, hstate⟩ := hstate
    rw [WatchSystem.step, WatchSystem.step, hwalks, hstate]
    exact ⟨⟨client, rfl⟩, rfl⟩
  | failSource cause =>
    obtain ⟨client, hstate⟩ := hstate
    rw [WatchSystem.step, WatchSystem.step, WatchState.failSource, WatchState.failSource, hstate]
    dsimp only
    split <;> exact ⟨⟨client, rfl⟩, hwalks⟩
  | cancel =>
    obtain ⟨client, hstate⟩ := hstate
    rw [WatchSystem.step, WatchSystem.step, WatchState.cancel, WatchState.cancel, hstate]
    dsimp only
    split <;> exact ⟨⟨client, rfl⟩, hwalks⟩
  | rearm =>
    rw [WatchSystem.step, WatchSystem.step, hrun]
    split
    · exact ⟨hstate, hwalks⟩
    · obtain ⟨client, hstate⟩ := hstate
      rw [hstate]
      exact ⟨⟨client, rfl⟩, hwalks⟩
  | advance ms =>
    obtain ⟨client, hstate⟩ := hstate
    rw [WatchSystem.step, WatchSystem.step, WatchState.advance_eq, WatchState.advance_eq, hstate]
    exact ⟨⟨_, rfl⟩, hwalks⟩
  | change files opened unwatchable =>
    obtain ⟨client, hstate⟩ := hstate
    rw [WatchSystem.step, WatchSystem.step, hstate]
    exact ⟨⟨_, rfl⟩, hwalks⟩

/-- Two watchers that differ in the client at most, and of which a path can tell the same. -/
structure AlikeFor (p : Path) (y z : WatchSystem) : Prop extends SameButClient y z where
  client : WatchClient.AlikeFor p y.state.client z.state.client

theorem AlikeFor.step (h : AlikeFor p y z) (w : Watcher) (hy : y.Tidy) (hz : z.Tidy)
    (x : WatchStep) : AlikeFor p (y.step w x) (z.step w x) where
  toSameButClient := h.toSameButClient.step w x
  client := by
    have haround := h.toSameButClient.sameAround
    have htimers : z.state.timersOf p = y.state.timersOf p := by
      obtain ⟨client, hstate⟩ := h.state
      rw [hstate]
      rfl
    rw [step_client, step_client]
    refine WatchClient.AlikeFor.sends ?_ (haround.stepCalls_eq hy hz htimers h.client.isOpen x)
    cases x with
    | change files opened unwatchable => exact ⟨h.client.answers, rfl, h.client.calls⟩
    | _ => exact h.client

/-- A watcher whose client answers otherwise. -/
def answering (y : WatchSystem) (g : WatchCall → ℕ → Option ClientError) : WatchSystem :=
  { y with state.client := y.state.client.answering g }

theorem sameButClient_answering (y : WatchSystem) (g : WatchCall → ℕ → Option ClientError) :
    SameButClient y (y.answering g) :=
  ⟨⟨_, rfl⟩, rfl⟩

theorem SameButClient.eq_answering (h : SameButClient y z)
    (hclient : z.state.client = y.state.client.answering g) : z = y.answering g := by
  obtain ⟨⟨client, hstate⟩, hwalks⟩ := h
  obtain ⟨state, walks⟩ := z
  obtain rfl : state = { y.state with client } := hstate
  obtain rfl : client = y.state.client.answering g := hclient
  obtain rfl : walks = y.walks := hwalks
  rfl

/-- Answers that change no opening made so far do not show. -/
theorem step_answering (w : Watcher) (x : WatchStep)
    (h : WatchClient.AnsweredAlike y.state.client.failure? g (y.step w x).state.client.calls) :
    (y.answering g).step w x = (y.step w x).answering g := by
  refine ((y.sameButClient_answering g).step w x).eq_answering ?_
  have hcalls : (y.answering g).stepCalls w x = y.stepCalls w x := by cases x <;> rfl
  have hreopened : reopened (y.answering g).state.client x =
      (reopened y.state.client x).answering g := by cases x <;> rfl
  have hkept : (reopened y.state.client x).calls = y.state.client.calls ∧
      (reopened y.state.client x).failure? = y.state.client.failure? := by
    cases x <;> exact ⟨rfl, rfl⟩
  rw [step_client, WatchClient.calls_sends, hkept.1] at h
  rw [step_client, step_client, hcalls, hreopened, WatchClient.sends_answering]
  rw [hkept.1, hkept.2]
  exact h

end WatchSystem

end WorkspaceLink
