import WorkspaceLink.Proofs.Debouncer.Queue
import WorkspaceLink.Watch.Watcher

/-! What handling an operation on a file does: which notifications it plans and withdraws, and what
it tells the client. -/

namespace WorkspaceLink

/-! ### Calls -/

namespace WatchCall

/-- The change that a call reports; an opening reports none. -/
def change? : WatchCall → Option FileChange
  | .open _ => none
  | .change _ => some .changed
  | .watched _ kind => some kind

def path? : WatchCall → Option Path
  | .open path => some path
  | .change path => some path
  | .watched uri _ => Text.afterFront? DocumentUri.fileScheme uri.text

/-- Whether a call reports a change of a file, under whatever spelling of its path. -/
def reports (call : WatchCall) (path : Path) (kind : FileChange) : Bool :=
  call.change? == some kind && call.path?.any (Path.same path)

theorem path?_watched (path : Path) (kind : FileChange) :
    (watched (.ofPath path) kind).path? = some path :=
  List.isPrefixOf?_eq_some_iff_append_eq.mpr rfl

end WatchCall

namespace WatchClient

/-- The call that reports a change of a file: in place, if the content of an open file changed. -/
def report (c : WatchClient) (path : Path) (change : FileChange) : WatchCall :=
  if change = .changed ∧ c.isOpen path then .change path else .watched (.ofPath path) change

theorem path?_report (c : WatchClient) (path : Path) (change : FileChange) :
    (c.report path change).path? = some path := by
  rw [report]
  split
  · rfl
  · exact WatchCall.path?_watched path change

theorem change?_report (c : WatchClient) (path : Path) (change : FileChange) :
    (c.report path change).change? = some change := by
  rw [report]
  split
  · next h => rw [h.1]; rfl
  · rfl

theorem reports_report {c : WatchClient} {path q : Path} {change d : FileChange} :
    (c.report path change).reports q d = true ↔ change = d ∧ Path.same q path = true := by
  simp [WatchCall.reports, path?_report, change?_report]

theorem report_deleted (c : WatchClient) (path : Path) :
    c.report path .deleted = .watched (.ofPath path) .deleted :=
  if_neg (by simp)

/-- A report leaves the files open at the client as they are. -/
theorem send_report (c : WatchClient) (time : ℕ) (path : Path) (change : FileChange) :
    c.send time (c.report path change) =
      { c with calls := c.calls ++ [(time, c.report path change)] } := by
  rw [report]
  split <;> rfl

end WatchClient

/-! ### Operations -/

/-- Whether an operation on a path says that no file has the name any more. A rename may. -/
def FileOperation.removes : FileOperation → Bool
  | removed => true
  | renamed => true
  | _ => false

namespace WatchState

variable (w : Watcher) (s : WatchState)

/-- The notifications that are pending, and the time. -/
def queue : TimerQueue NotificationKey Path :=
  s.debouncer.queue

/-- Whether the registration that decides about a path asks for a change. -/
def wants (path : Path) (change : FileChange) : Bool :=
  (s.registry.mask? path).any (·.wants change)

/-- Whether an operation on a path brings something there that is no directory: it is created, or
a file has the name after a rename. -/
def brings (op : FileOperation) (path : Path) : Bool :=
  (op == .created || op == .renamed && s.files.isFile path) && !s.files.isDir path

/-- Whether a file is opened when an operation on it is handled. -/
def opens (op : FileOperation) (path : Path) : Bool :=
  s.brings op path && (s.registry.mask? path).isSome && !w.policy.excludesFile s.files path

/-- Whether a directory is subscribed when its creation is handled. -/
def subscribes (path : Path) : Bool :=
  s.files.isDir path && !w.policy.excludesDir path && !s.unwatchable.any (Path.same path)

/-- Whether an operation on a file calls for a report of a change. -/
def callsFor (op : FileOperation) (path : Path) : FileChange → Bool
  | .created =>
    s.brings op path && s.wants path .created && !w.policy.excludesFile s.files path
  | .changed => op == .written && s.wants path .changed && !w.policy.excludesFile s.files path
  | .deleted => op.removes && s.wants path .deleted && !w.policy.excludesPath path

/-- Whether an operation takes the place of a pending notification: the same report is called for
again, or that of a change is dropped for that of a deletion. -/
def withdraws (op : FileOperation) (path : Path) (key : NotificationKey) : Bool :=
  s.callsFor w op path .created && key == ⟨path, .created⟩ ||
    (s.callsFor w op path .changed || s.callsFor w op path .deleted) && key == ⟨path, .changed⟩

/-- The change whose report an operation plans. Deletions are reported at once. -/
def planned? (op : FileOperation) (path : Path) : Option FileChange :=
  [.created, .changed].find? (s.callsFor w op path)

/-- The report of a change after the quiet period. -/
def notification (path : Path) (change : FileChange) : Timer NotificationKey Path :=
  ⟨⟨path, change⟩, s.now + w.settings.debounceMs, path⟩

/-- The calls made when an operation is handled. -/
def operationCalls (op : FileOperation) (path : Path) : List (ℕ × WatchCall) :=
  (if s.callsFor w op path .deleted then [(s.now, .watched (.ofPath path) .deleted)] else []) ++
    if s.opens w op path then [(s.now, .open path)] else []

/-- What handling an operation leaves as it is. -/
structure SameWorld (s s' : WatchState) : Prop where
  files : s'.files = s.files
  registry : s'.registry = s.registry
  loop : s'.loop = s.loop
  now : s'.now = s.now

structure Effect (op : FileOperation) (path : Path) (s' : WatchState) : Prop
    extends SameWorld s s' where
  timers : s'.queue.timers =
    s.queue.timers.filter (fun t => !s.withdraws w op path t.key) ++
      ((s.planned? w op path).map (s.notification w path)).toList
  calls : s'.client.calls = s.client.calls ++ s.operationCalls w op path

variable {s} in
theorem SameWorld.callsFor_eq {s' : WatchState} (h : SameWorld s s') :
    s'.callsFor w = s.callsFor w := by
  ext op path change
  cases change <;> simp only [callsFor, brings, wants, h.files, h.registry]

variable {s} in
theorem SameWorld.opens_eq {s' : WatchState} (h : SameWorld s s') : s'.opens w = s.opens w := by
  ext op path
  simp only [opens, brings, h.files, h.registry]

/-! ### Handlers -/

theorem excludesFile_of_error {path : Path} {e : FileError} (h : s.files.find path = .error e) :
    w.policy.excludesFile s.files path = true := by
  rw [ExclusionPolicy.excludesFile, FileTree.size?, h, Bool.or_true]

theorem onCreated_of_isDir {path : Path} (h : s.files.isDir path = true) :
    s.onCreated w path =
      if s.subscribes w path then { s with subscribed := s.subscribed ++ [path] } else s := by
  cases hfind : s.files.find path with
  | error e => simp [FileTree.isDir, hfind] at h
  | ok node =>
    cases node with
    | dir entries =>
      cases hexcluded : w.policy.excludesDir path <;>
        cases hunwatchable : s.unwatchable.any (Path.same path) <;>
        simp [onCreated, subscribes, subscribe?, h, hfind, hexcluded, hunwatchable]
    | file content => simp [FileTree.isDir, hfind] at h
    | link target => simp [FileTree.isDir, hfind] at h

theorem onCreated_of_not_isDir {path : Path} (h : s.files.isDir path = false) :
    s.onCreated w path =
      if w.policy.excludesFile s.files path then s
      else match s.registry.mask? path with
        | none => s
        | some mask =>
          if mask.wants .created then (s.call s.now (.open path)).schedule w path .created
          else s.call s.now (.open path) := by
  cases hfind : s.files.find path with
  | error e =>
    rw [if_pos (excludesFile_of_error w s hfind), onCreated, hfind]
  | ok node =>
    cases node with
    | dir entries => simp [FileTree.isDir, hfind] at h
    | file content => cases hmask : s.registry.mask? path <;> simp [onCreated, hfind, hmask]
    | link target => cases hmask : s.registry.mask? path <;> simp [onCreated, hfind, hmask]

/-- The handler of creations leaves the client and the notifications alone, or opens the file; then
it may plan to report the creation too. -/
theorem onCreated_cases (path : Path) :
    (s.opens w .created path = false ∧ s.callsFor w .created path .created = false ∧
      ∃ dirs, s.onCreated w path = { s with subscribed := dirs }) ∨
    (s.opens w .created path = true ∧ s.callsFor w .created path .created = false ∧
      s.onCreated w path = s.call s.now (.open path)) ∨
    (s.opens w .created path = true ∧ s.callsFor w .created path .created = true ∧
      s.onCreated w path = (s.call s.now (.open path)).schedule w path .created) := by
  have hbrings : s.brings .created path = !s.files.isDir path := rfl
  cases hdir : s.files.isDir path with
  | true =>
    -- only the subscriptions can change
    refine .inl ⟨by simp [opens, hbrings, hdir], by simp [callsFor, hbrings, hdir], ?_⟩
    rw [onCreated_of_isDir w s hdir]
    split
    · exact ⟨_, rfl⟩
    · exact ⟨s.subscribed, rfl⟩
  | false =>
    rw [onCreated_of_not_isDir w s hdir]
    simp only [opens, callsFor, wants, hbrings, hdir, Bool.not_false, Bool.true_and]
    cases w.policy.excludesFile s.files path with
    | true => exact .inl ⟨by simp, by simp, s.subscribed, rfl⟩
    | false =>
      cases s.registry.mask? path with
      | none => exact .inl ⟨rfl, rfl, s.subscribed, rfl⟩
      | some mask =>
        cases hmask : mask.wants .created with
        | false => exact .inr (.inl ⟨rfl, by simp [hmask], by simp [hmask]⟩)
        | true => exact .inr (.inr ⟨rfl, by simp [hmask], by simp [hmask]⟩)

theorem onWritten_cases (path : Path) :
    (s.callsFor w .written path .changed = false ∧ s.onWritten w path = s) ∨
    (s.callsFor w .written path .changed = true ∧
      s.onWritten w path = s.schedule w path .changed) := by
  simp only [onWritten, callsFor, wants]
  cases s.registry.mask? path with
  | none => exact .inl ⟨rfl, rfl⟩
  | some mask =>
    cases hmask : mask.wants .changed with
    | false => exact .inl ⟨by simp [hmask], by simp [hmask]⟩
    | true =>
      cases hx : w.policy.excludesFile s.files path with
      | true => exact .inl ⟨by simp, by simp⟩
      | false => exact .inr ⟨by simp [hmask], by simp [hmask]⟩

/-- The state after a deletion has been reported. -/
def tellDeleted (path : Path) : WatchState :=
  { s with
    debouncer := s.debouncer.cancel ⟨path, .changed⟩
    client := s.client.send s.now (.watched (.ofPath path) .deleted) }

theorem queue_schedule (path : Path) (change : FileChange) :
    (s.schedule w path change).queue =
      s.queue.schedule ⟨path, change⟩ w.settings.debounceMs path :=
  Debouncer.queue_schedule _ _ _ _

theorem queue_tellDeleted (path : Path) :
    (s.tellDeleted path).queue = s.queue.cancel ⟨path, .changed⟩ :=
  Debouncer.queue_cancel _ _

theorem onRemoved_cases (path : Path) :
    (s.callsFor w .removed path .deleted = false ∧ s.onRemoved w path = s) ∨
    (s.callsFor w .removed path .deleted = true ∧ s.onRemoved w path = s.tellDeleted path) := by
  simp only [onRemoved, callsFor, wants, FileOperation.removes]
  cases s.registry.mask? path with
  | none => exact .inl ⟨rfl, rfl⟩
  | some mask =>
    cases hmask : mask.wants .deleted with
    | false => exact .inl ⟨by simp [hmask], by simp [hmask]⟩
    | true =>
      cases hx : w.policy.excludesPath path with
      | true => exact .inl ⟨by simp, by simp⟩
      | false =>
        refine .inr ⟨by simp [hmask], ?_⟩
        simp [hmask, dispatch, call, tellDeleted, now]
        rfl

theorem onCreated_effect (path : Path) : s.Effect w .created path (s.onCreated w path) := by
  have hchanged : s.callsFor w .created path .changed = false := rfl
  have hdeleted : s.callsFor w .created path .deleted = false := rfl
  rcases onCreated_cases w s path with ⟨ho, hc, dirs, heq⟩ | ⟨ho, hc, heq⟩ | ⟨ho, hc, heq⟩ <;>
    rw [heq]
  · -- subscriptions do not count here
    refine ⟨⟨rfl, rfl, rfl, rfl⟩, ?_, ?_⟩
    · show s.queue.timers = _
      simp [withdraws, planned?, hc, hchanged, hdeleted]
    · simp [operationCalls, ho, hdeleted]
  · refine ⟨⟨rfl, rfl, rfl, rfl⟩, ?_, ?_⟩
    · show s.queue.timers = _
      simp [withdraws, planned?, hc, hchanged, hdeleted]
    · simp [operationCalls, ho, hdeleted, call, WatchClient.send]
  · refine ⟨⟨rfl, rfl, rfl, rfl⟩, ?_, ?_⟩
    · have hplanned : s.planned? w .created path = some .created := by
        simp [planned?, hc]
      have hwithdraws (key : NotificationKey) :
          s.withdraws w .created path key = (key == ⟨path, .created⟩) := by
        simp [withdraws, hc, hchanged, hdeleted]
      rw [queue_schedule, hplanned]
      simp only [hwithdraws]
      rfl
    · simp [operationCalls, ho, hdeleted, call, schedule, WatchClient.send]

theorem onWritten_effect (path : Path) : s.Effect w .written path (s.onWritten w path) := by
  have hopens : s.opens w .written path = false := rfl
  have hcreated : s.callsFor w .written path .created = false := rfl
  have hdeleted : s.callsFor w .written path .deleted = false := rfl
  rcases onWritten_cases w s path with ⟨hc, heq⟩ | ⟨hc, heq⟩ <;> rw [heq]
  · refine ⟨⟨rfl, rfl, rfl, rfl⟩, ?_, ?_⟩
    · simp [withdraws, planned?, hc, hcreated, hdeleted]
    · simp [operationCalls, hopens, hdeleted]
  · refine ⟨⟨rfl, rfl, rfl, rfl⟩, ?_, ?_⟩
    · have hplanned : s.planned? w .written path = some .changed := by
        simp [planned?, hc, hcreated]
      have hwithdraws (key : NotificationKey) :
          s.withdraws w .written path key = (key == ⟨path, .changed⟩) := by
        simp [withdraws, hc, hcreated, hdeleted]
      rw [queue_schedule, hplanned]
      simp only [hwithdraws]
      rfl
    · simp [operationCalls, hopens, hdeleted, schedule]

theorem onRemoved_effect (path : Path) : s.Effect w .removed path (s.onRemoved w path) := by
  have hopens : s.opens w .removed path = false := rfl
  have hcreated : s.callsFor w .removed path .created = false := rfl
  have hchanged : s.callsFor w .removed path .changed = false := rfl
  rcases onRemoved_cases w s path with ⟨hc, heq⟩ | ⟨hc, heq⟩ <;> rw [heq]
  · refine ⟨⟨rfl, rfl, rfl, rfl⟩, ?_, ?_⟩
    · simp [withdraws, planned?, hc, hcreated, hchanged]
    · simp [operationCalls, hopens, hc]
  · refine ⟨⟨rfl, rfl, rfl, rfl⟩, ?_, ?_⟩
    · rw [queue_tellDeleted]
      simp [withdraws, planned?, hc, hcreated, hchanged, TimerQueue.cancel]
    · simp [operationCalls, hopens, hc, tellDeleted, WatchClient.send]

/-- A rename is handled as a removal and, if a file has the name, as a creation after it. -/
theorem onRenamed_eq (path : Path) : s.onRenamed w path =
    if s.files.isFile path then (s.onRemoved w path).onCreated w path else s.onRemoved w path := by
  rw [← (onRemoved_effect w s path).files]
  rfl

theorem onRenamed_effect (path : Path) : s.Effect w .renamed path (s.onRenamed w path) := by
  have hr := onRemoved_effect w s path
  have hc := onCreated_effect w (s.onRemoved w path) path
  have hdeleted : s.callsFor w .renamed path .deleted = s.callsFor w .removed path .deleted := rfl
  have hchanged : s.callsFor w .renamed path .changed = false := rfl
  have hbrings : s.brings .renamed path = (s.files.isFile path && s.brings .created path) := rfl
  have hcreated : s.callsFor w .renamed path .created =
      (s.files.isFile path && s.callsFor w .created path .created) := by
    simp only [callsFor, hbrings, Bool.and_assoc]
  have hopens : s.opens w .renamed path = (s.files.isFile path && s.opens w .created path) := by
    simp only [opens, hbrings, Bool.and_assoc]
  cases hfile : s.files.isFile path with
  | false =>
    have heq : s.onRenamed w path = s.onRemoved w path := by
      rw [onRenamed_eq, hfile, if_neg Bool.false_ne_true]
    have hsame : s.callsFor w .renamed path = s.callsFor w .removed path := by
      ext change
      cases change with
      | created => rw [hcreated, hfile]; rfl
      | changed => rfl
      | deleted => rfl
    have hopens : s.opens w .renamed path = s.opens w .removed path := by
      rw [hopens, hfile]; rfl
    rw [heq]
    refine ⟨hr.toSameWorld, ?_, ?_⟩
    · simpa only [withdraws, planned?, hsame] using hr.timers
    · simpa only [operationCalls, hsame, hopens] using hr.calls
  | true =>
    have heq : s.onRenamed w path = (s.onRemoved w path).onCreated w path := by
      rw [onRenamed_eq, hfile, if_pos rfl]
    -- a removal calls for no report but that of the deletion, a creation for none of it
    have hremoval : s.callsFor w .removed path .created = false ∧
        s.callsFor w .removed path .changed = false ∧ s.opens w .removed path = false :=
      ⟨rfl, rfl, rfl⟩
    have hcreation : s.callsFor w .created path .changed = false ∧
        s.callsFor w .created path .deleted = false := ⟨rfl, rfl⟩
    rw [hfile, Bool.true_and] at hcreated hopens
    rw [heq]
    refine ⟨⟨hc.files.trans hr.files, hc.registry.trans hr.registry, hc.loop.trans hr.loop,
      hc.now.trans hr.now⟩, ?_, ?_⟩
    · -- the removal drops the report of a change, the creation replaces that of a creation
      rw [hc.timers, hr.timers]
      cases hcc : s.callsFor w .created path .created <;>
        simp [withdraws, planned?, notification, hr.toSameWorld.callsFor_eq, hr.now, hdeleted,
          hchanged, hcreated, hremoval, hcreation, hcc, List.filter_filter]
    · rw [hc.calls, hr.calls]
      simp [operationCalls, hr.toSameWorld.callsFor_eq, hr.toSameWorld.opens_eq, hr.now, hdeleted,
        hopens, hremoval, hcreation]

theorem onOperation_effect (op : FileOperation) (path : Path) :
    s.Effect w op path (s.onOperation w op path) := by
  cases op with
  | created => exact onCreated_effect w s path
  | written => exact onWritten_effect w s path
  | removed => exact onRemoved_effect w s path
  | renamed => exact onRenamed_effect w s path

end WatchState

end WorkspaceLink
