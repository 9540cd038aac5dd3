import WorkspaceLink.Proofs.Watcher.Step

/-! What a path can tell of a client, and how calls change it: those about the path all alike, those
about other files not at all. Handling an operation touches the client by its calls only. -/

namespace WorkspaceLink

/-! ### Clients -/

/-- Whether a call is about a file, under whatever spelling of its path. -/
def WatchCall.isAbout (path : Path) (call : WatchCall) : Bool :=
  call.path?.any (Path.same path)

theorem Path.same_congr {p q : Path} (h : Path.same p q = true) : Path.same q = Path.same p := by
  funext a
  rw [Path.same, Path.same, Path.same_iff.mp h]

namespace WatchClient

variable {p q : Path} {c d e : WatchClient} {time : ℕ} {call : WatchCall}

def callsAbout (c : WatchClient) (path : Path) : List (ℕ × WatchCall) :=
  c.calls.filter (·.2.isAbout path)

/-- The client after calls in turn. -/
def sends (c : WatchClient) (calls : List (ℕ × WatchCall)) : WatchClient :=
  calls.foldl (fun c (time, call) => c.send time call) c

theorem failure?_sends (c : WatchClient) (calls : List (ℕ × WatchCall)) :
    (c.sends calls).failure? = c.failure? := by
  induction calls generalizing c with
  | nil => rfl
  | cons call calls ih => exact ih (c.send call.1 call.2)

theorem isOpen_congr (h : Path.same p q = true) : c.isOpen q = c.isOpen p := by
  rw [isOpen, isOpen, Path.same_congr h]

/-- A file is open after a call if it was before, or the call opens it. -/
theorem isOpen_send_open : (c.send time (.open q)).isOpen p =
    (c.isOpen p || (Path.same p q && (c.nextFailure? (.open q)).isNone)) := by
  cases hfail : c.nextFailure? (.open q) with
  | some e => simp [send, isOpen, hfail]
  | none =>
    rw [isOpen, isOpen]
    cases hopen : c.isOpen q with
    | true =>
      have hsend : (c.send time (.open q)).opened = c.opened := by simp [send, hfail, hopen]
      rw [hsend]
      cases hq : Path.same p q with
      | true =>
        rw [isOpen_congr hq, isOpen] at hopen
        simp [hopen]
      | false => simp
    | false =>
      have hsend : (c.send time (.open q)).opened = c.opened ++ [q] := by simp [send, hfail, hopen]
      rw [hsend]
      simp

theorem isOpen_send (hcall : call.isAbout p = false) : (c.send time call).isOpen p = c.isOpen p := by
  cases call with
  | «open» q =>
    have hq : Path.same p q = false := hcall
    rw [isOpen_send_open, hq]
    exact Bool.or_false _
  | change q => rfl
  | watched uri change => rfl

/-- Two clients of which a path can tell the same: they have it open or not, and it has been called
about in the same way. -/
structure SameFor (p : Path) (c d : WatchClient) : Prop where
  failure : d.failure? = c.failure?
  isOpen : d.isOpen p = c.isOpen p
  calls : d.callsAbout p = c.callsAbout p

theorem SameFor.refl (p : Path) (c : WatchClient) : SameFor p c c :=
  ⟨rfl, rfl, rfl⟩

theorem SameFor.symm (h : SameFor p c d) : SameFor p d c :=
  ⟨h.failure.symm, h.isOpen.symm, h.calls.symm⟩

theorem SameFor.trans (h : SameFor p c d) (h' : SameFor p d e) : SameFor p c e :=
  ⟨h'.failure.trans h.failure, h'.isOpen.trans h.isOpen, h'.calls.trans h.calls⟩

/-- Repetitions of a call about a path are found among the calls about the path. -/
theorem countP_callsAbout (c : WatchClient) (hcall : call.isAbout p = true) :
    (c.callsAbout p).countP (·.2 = call) = c.calls.countP (·.2 = call) := by
  rw [callsAbout, List.countP_filter]
  apply List.countP_congr
  intro x _
  simp only [decide_eq_true_eq, Bool.and_eq_true]
  constructor
  · exact And.left
  · rintro rfl
    exact ⟨rfl, hcall⟩

theorem SameFor.nextFailure?_eq (h : SameFor p c d) (hcall : call.isAbout p = true) :
    d.nextFailure? call = c.nextFailure? call := by
  rw [nextFailure?, nextFailure?, h.failure, ← c.countP_callsAbout hcall,
    ← d.countP_callsAbout hcall, h.calls]

theorem callsAbout_send : (c.send time call).callsAbout p =
    c.callsAbout p ++ if call.isAbout p then [(time, call)] else [] := by
  have hsend : (c.send time call).calls = c.calls ++ [(time, call)] := rfl
  rw [callsAbout, hsend, List.filter_append, List.filter_singleton]
  cases call.isAbout p <;> rfl

theorem SameFor.send (h : SameFor p c d) (hcall : call.isAbout p = true) :
    SameFor p (c.send time call) (d.send time call) where
  failure := h.failure
  isOpen := by
    cases call with
    | «open» q => rw [isOpen_send_open, isOpen_send_open, h.isOpen, h.nextFailure?_eq hcall]
    | change q => exact h.isOpen
    | watched uri change => exact h.isOpen
  calls := by rw [callsAbout_send, callsAbout_send, h.calls]

/-- A call about another file does not show. -/
theorem sameFor_send (c : WatchClient) (time : ℕ) (hcall : call.isAbout p = false) :
    SameFor p c (c.send time call) where
  failure := rfl
  isOpen := isOpen_send hcall
  calls := by
    rw [callsAbout_send, hcall]
    exact List.append_nil _

theorem SameFor.sends_filter (h : SameFor p c d) (calls : List (ℕ × WatchCall)) :
    SameFor p (c.sends (calls.filter (·.2.isAbout p))) (d.sends calls) := by
  induction calls generalizing c d with
  | nil => exact h
  | cons call calls ih =>
    rw [List.filter_cons]
    cases hcall : call.2.isAbout p with
    | true => exact ih (h.send hcall)
    | false => exact ih (h.trans (sameFor_send d call.1 hcall))

theorem SameFor.sends (h : SameFor p c d) {calls calls' : List (ℕ × WatchCall)}
    (hcalls : calls'.filter (·.2.isAbout p) = calls.filter (·.2.isAbout p)) :
    SameFor p (c.sends calls) (d.sends calls') := by
  have hleft := (SameFor.refl p c).sends_filter calls
  have hright := h.sends_filter calls'
  rw [hcalls] at hright
  exact hleft.symm.trans hright

/-- Reports leave the open files as they are, so all go by the files open at first. -/
theorem sends_reports (c : WatchClient) (ts : List (Timer NotificationKey Path)) :
    c.sends (ts.map fun t => (t.due, c.report t.action t.key.change)) =
      { c with
        calls := c.calls ++ ts.map fun t => (t.due, c.report t.action t.key.change) } := by
  have hfrom (calls : List (ℕ × WatchCall)) :
      ({ c with calls } : WatchClient).sends
        (ts.map fun t => (t.due, c.report t.action t.key.change)) =
        { c with calls := calls ++ ts.map fun t => (t.due, c.report t.action t.key.change) } := by
    induction ts generalizing calls with
    | nil => simp [sends]
    | cons t ts ih =>
      have hsend := send_report { c with calls } t.due t.action t.key.change
      have hrest := ih (calls ++ [(t.due, c.report t.action t.key.change)])
      rw [List.append_assoc] at hrest
      rw [List.map_cons, sends, List.foldl_cons]
      exact (congrArg (sends · _) hsend).trans hrest
  exact hfrom c.calls

theorem sends_append (c : WatchClient) (calls more : List (ℕ × WatchCall)) :
    c.sends (calls ++ more) = (c.sends calls).sends more :=
  List.foldl_append

end WatchClient

/-! ### Operations -/

namespace WatchState

variable (w : Watcher) (s : WatchState)

/-- Handling an operation changes nothing but the subscriptions, the notifications and, by calls made
to it, the client. -/
def Handled (op : FileOperation) (path : Path) (s' : WatchState) : Prop :=
  ∃ subscribed debouncer, s' =
    { s with subscribed, debouncer, client := s.client.sends (s.operationCalls w op path) }

theorem onCreated_handled (path : Path) : s.Handled w .created path (s.onCreated w path) := by
  have hdeleted : s.callsFor w .created path .deleted = false := rfl
  have hcalls : s.operationCalls w .created path =
      if s.opens w .created path then [(s.now, .open path)] else [] := by
    rw [operationCalls, hdeleted]
    rfl
  rw [Handled, hcalls]
  rcases onCreated_cases w s path with ⟨ho, _, dirs, heq⟩ | ⟨ho, _, heq⟩ | ⟨ho, _, heq⟩ <;>
    rw [heq, ho] <;> exact ⟨_, _, rfl⟩

theorem onWritten_handled (path : Path) : s.Handled w .written path (s.onWritten w path) := by
  have hcalls : s.operationCalls w .written path = [] := rfl
  rw [Handled, hcalls]
  rcases onWritten_cases w s path with ⟨_, heq⟩ | ⟨_, heq⟩ <;> rw [heq] <;> exact ⟨_, _, rfl⟩

theorem onRemoved_handled (path : Path) : s.Handled w .removed path (s.onRemoved w path) := by
  have hopens : s.opens w .removed path = false := rfl
  have hcalls : s.operationCalls w .removed path =
      if s.callsFor w .removed path .deleted then
        [(s.now, .watched (.ofPath path) .deleted)] else [] := by
    rw [operationCalls, hopens]
    exact List.append_nil _
  rw [Handled, hcalls]
  rcases onRemoved_cases w s path with ⟨hc, heq⟩ | ⟨hc, heq⟩ <;> rw [heq, hc] <;>
    exact ⟨_, _, rfl⟩

/-- The calls of a rename are those of a removal and, if a file has the name, of a creation after
it. -/
theorem onRenamed_handled (path : Path) : s.Handled w .renamed path (s.onRenamed w path) := by
  have hcalls := (onRenamed_effect w s path).calls
  have hremoved := onRemoved_effect w s path
  obtain ⟨dirs, debouncer, hr⟩ := s.onRemoved_handled w path
  cases hfile : s.files.isFile path with
  | false =>
    have heq : s.onRenamed w path = s.onRemoved w path := by
      rw [onRenamed_eq, hfile, if_neg Bool.false_ne_true]
    rw [heq, hremoved.calls] at hcalls
    rw [Handled, heq, ← List.append_cancel_left hcalls]
    exact ⟨dirs, debouncer, hr⟩
  | true =>
    have heq : s.onRenamed w path = (s.onRemoved w path).onCreated w path := by
      rw [onRenamed_eq, hfile, if_pos rfl]
    have hcreated := onCreated_effect w (s.onRemoved w path) path
    obtain ⟨dirs', debouncer', hc⟩ := (s.onRemoved w path).onCreated_handled w path
    rw [heq, hcreated.calls, hremoved.calls, List.append_assoc] at hcalls
    rw [Handled, heq, ← List.append_cancel_left hcalls, WatchClient.sends_append]
    refine ⟨dirs', debouncer', hc.trans ?_⟩
    rw [hr]

theorem onOperation_handled (op : FileOperation) (path : Path) :
    s.Handled w op path (s.onOperation w op path) := by
  cases op with
  | created => exact s.onCreated_handled w path
  | written => exact s.onWritten_handled w path
  | removed => exact s.onRemoved_handled w path
  | renamed => exact s.onRenamed_handled w path

variable {w s}

/-- An operation on a file makes calls about the file alone. -/
theorem path?_operationCalls {op : FileOperation} {path : Path} {call : ℕ × WatchCall}
    (h : call ∈ s.operationCalls w op path) : call.2.path? = some path := by
  rcases List.mem_append.mp h with h | h
  · split at h
    · rw [List.mem_singleton.mp h]
      exact WatchCall.path?_watched path .deleted
    · cases h
  · split at h
    · rw [List.mem_singleton.mp h]
      rfl
    · cases h

end WatchState

end WorkspaceLink
