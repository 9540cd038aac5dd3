import WorkspaceLink.Proofs.Debouncer.Table
import WorkspaceLink.Proofs.Watcher.Step

/-! Runs of a watcher: which notifications wait before a step, and which calls are made in it, told
by what happened in the steps before. -/

namespace WorkspaceLink

/-! ### What a step plans and withdraws -/

namespace WatchState

variable (w : Watcher) {s : WatchState} {op : FileOperation} {path q : Path} {change : FileChange}

theorem written_of_callsFor (h : s.callsFor w op path .changed = true) : op = .written := by
  simp only [callsFor, Bool.and_eq_true, beq_iff_eq] at h
  exact h.1.1

/-- No operation calls for two reports that have to wait. -/
theorem planned?_eq_some_iff :
    s.planned? w op path = some change ↔ change ≠ .deleted ∧ s.callsFor w op path change = true := by
  -- only writes call for the report of a change, and they bring nothing
  have hexcl : s.callsFor w op path .changed = true → s.callsFor w op path .created = false := by
    intro h
    obtain rfl := written_of_callsFor w h
    rfl
  cases hc : s.callsFor w op path .created <;> cases hw : s.callsFor w op path .changed <;>
    cases change <;> simp_all [planned?]

theorem withdraws_eq_false_iff (hchange : change ≠ .deleted) :
    s.withdraws w op q ⟨path, change⟩ = false ↔
      (Path.same q path = true → s.callsFor w op q change = false ∧
        (change = .changed → s.callsFor w op q .deleted = false)) := by
  have hkey (c : FileChange) : ((⟨path, change⟩ : NotificationKey) == ⟨q, c⟩) =
      (Path.same q path && change == c) := by
    rw [Path.same_comm]
    rfl
  simp only [withdraws, hkey]
  cases Path.same q path with
  | false => simp
  | true =>
    cases change with
    | created => simp
    | changed => simp
    | deleted => exact absurd rfl hchange

end WatchState

namespace WatchSystem

variable (w : Watcher) {y : WatchSystem} {x : WatchStep}

theorem withdraws_eq_false_iff {key : NotificationKey} :
    y.withdraws w key x = false ↔ y.ends w x = false ∧ ∀ op path, x = .operation op path →
      y.running = true → y.state.withdraws w op path key = false := by
  cases x with
  | operation op path =>
    have hends : y.ends w (.operation op path) = false := by
      simp [ends, operation_running]
    simp [withdraws, hends]
  | _ => simp [withdraws]

theorem reaches_eq_true_iff {time : ℕ} :
    y.reaches time x = true ↔ ∃ ms, x = .advance ms ∧ time ≤ y.state.now + ms := by
  cases x <;> simp [reaches]

end WatchSystem

/-! ### Runs -/

namespace WatchRun

variable (r : WatchRun)

/-- In its `n`-th step the loop handles an operation. -/
structure Handles (n : ℕ) (op : FileOperation) (path : Path) : Prop where
  step : r.steps[n]? = some (.operation op path)
  running : (r.system n).running = true

/-- In its `n`-th step the loop handles an operation on a file that calls for a report. -/
def CallsFor (n : ℕ) (path : Path) (change : FileChange) : Prop :=
  ∃ op, r.Handles n op path ∧ (r.state n).callsFor r.watcher op path change = true

def Ends (n : ℕ) : Prop :=
  (r.system n).running = true ∧ (r.system (n+1)).running = false

/-- When a report is due that the `i`-th step calls for. -/
def due (i : ℕ) : ℕ :=
  r.clock i + r.watcher.settings.debounceMs

/-- In the `n`-th step, time reaches the moment when the report is due that the `i`-th step calls
for. -/
def Reaches (i n : ℕ) : Prop :=
  ∃ ms, r.steps[n]? = some (.advance ms) ∧ r.due i ≤ r.clock n + ms

/-- In the `n`-th step something happens for which a report of a change is given up: the loop ends,
the same report is called for again, or that of a deletion in place of that of a change. -/
inductive GivesUp (n : ℕ) (path : Path) (change : FileChange) : Prop where
  | ended (h : r.Ends n)
  | again (q : Path) (hq : Path.same q path = true) (h : r.CallsFor n q change)
  | deleted (q : Path) (hq : Path.same q path = true) (hc : change = .changed)
      (h : r.CallsFor n q .deleted)

/-- The report of a change that the `i`-th step called for waits before the `n`-th. -/
structure Waits (i n : ℕ) (path : Path) (change : FileChange) : Prop where
  lt : i < n
  called : r.CallsFor i path change
  kept : ∀ m < n, i < m → ¬r.GivesUp m path change
  early : ∀ m < n, i < m → ¬r.Reaches i m

/-- The report of a change that the `i`-th step called for is sent in the `n`-th, the first in which
time reaches the moment when it is due. -/
structure GoesOff (i n : ℕ) (path : Path) (change : FileChange) : Prop
    extends Waits r i n path change where
  reached : r.Reaches i n

variable {r} {i n m : ℕ} {x : WatchStep} {path : Path} {change : FileChange}

theorem system_step (hx : r.steps[n]? = some x) :
    r.system (n+1) = (r.system n).step r.watcher x := by
  rw [system, WatchSystem.run, List.take_add_one, List.foldl_append, hx]
  rfl

theorem system_stay (hx : r.steps[n]? = none) : r.system (n+1) = r.system n := by
  rw [system, WatchSystem.run, List.take_add_one, hx]
  simp [system, WatchSystem.run]

variable (r) in
theorem system_settled (n : ℕ) : (r.system n).Settled := by
  induction n with
  | zero => exact fun _ => rfl
  | succ n ih =>
    cases hx : r.steps[n]? with
    | none => rw [system_stay hx]; exact ih
    | some x => rw [system_step hx]; exact WatchSystem.step_settled _ ih x

theorem callsAt_step (hx : r.steps[n]? = some x) :
    r.callsAt n = (r.system n).stepCalls r.watcher x := by
  rw [callsAt, state, state, system_step hx, WatchSystem.step_calls]
  exact List.drop_left

theorem callsAt_stay (hx : r.steps[n]? = none) : r.callsAt n = [] := by
  rw [callsAt, state, state, system_stay hx]
  exact List.drop_length

/-- The notifications of a run as a table with a history. -/
def notifications (r : WatchRun) : StepTable (Timer NotificationKey Path) where
  entries n := (r.state n).queue.timers
  keeps n t := r.steps[n]?.all fun x =>
    !(r.system n).withdraws r.watcher t.key x && !(r.system n).reaches t.due x
  added n := r.steps[n]?.bind ((r.system n).planned? r.watcher)
  entries_zero := rfl
  entries_succ n := by
    cases hx : r.steps[n]? with
    | none => simp [state, system_stay hx]
    | some x =>
      have h := WatchSystem.step_timers r.watcher (r.system_settled n) x
      simpa [state, system_step hx] using h

/-- The report of a change that the `i`-th step calls for, as it waits. -/
def planned (r : WatchRun) (i : ℕ) (path : Path) (change : FileChange) :
    Timer NotificationKey Path :=
  ⟨⟨path, change⟩, r.due i, path⟩

theorem added_notifications_iff {t : Timer NotificationKey Path} :
    r.notifications.added i = some t ↔
      ∃ path change, change ≠ .deleted ∧ r.CallsFor i path change ∧ t = r.planned i path change := by
  constructor
  · intro h
    obtain ⟨x, hx, ht⟩ := Option.bind_eq_some_iff.mp h
    cases x with
    | operation op path =>
      simp only [WatchSystem.planned?] at ht
      split at ht
      · next hrun =>
        obtain ⟨change, hc, rfl⟩ := Option.map_eq_some_iff.mp ht
        obtain ⟨hne, hcalls⟩ := (WatchState.planned?_eq_some_iff r.watcher).mp hc
        exact ⟨path, change, hne, ⟨op, ⟨hx, hrun⟩, hcalls⟩, rfl⟩
      · cases ht
    | _ => cases ht
  · intro h
    obtain ⟨path, change, hne, ⟨op, ⟨hx, hrun⟩, hcalls⟩, rfl⟩ := h
    have hc := (WatchState.planned?_eq_some_iff r.watcher).mpr ⟨hne, hcalls⟩
    refine Option.bind_eq_some_iff.mpr ⟨_, hx, ?_⟩
    rw [WatchSystem.planned?, if_pos hrun]
    exact Option.map_eq_some_iff.mpr ⟨change, hc, rfl⟩

theorem ends_eq_true_iff (hx : r.steps[n]? = some x) :
    (r.system n).ends r.watcher x = true ↔ r.Ends n := by
  simp [WatchSystem.ends, Ends, system_step hx]

theorem callsFor_iff {op : FileOperation} (hx : r.steps[n]? = some (.operation op path)) :
    r.CallsFor n path change ↔
      (r.system n).running = true ∧ (r.state n).callsFor r.watcher op path change = true := by
  constructor
  · intro h
    obtain ⟨op', ⟨hx', hrun⟩, hcalls⟩ := h
    rw [hx] at hx'
    cases hx'
    exact ⟨hrun, hcalls⟩
  · intro h
    obtain ⟨hrun, hcalls⟩ := h
    exact ⟨op, ⟨hx, hrun⟩, hcalls⟩

theorem withdraws_iff_givesUp (hx : r.steps[n]? = some x) (hchange : change ≠ .deleted) :
    (r.system n).withdraws r.watcher ⟨path, change⟩ x = false ↔ ¬r.GivesUp n path change := by
  rw [WatchSystem.withdraws_eq_false_iff]
  constructor
  · intro h hup
    obtain ⟨hends, hop⟩ := h
    -- the operation of the step, if there is one, withdraws nothing
    have hnone (q : Path) (hq : Path.same q path = true) (c : FileChange) (hc : r.CallsFor n q c) :
        c ≠ change ∧ (change = .changed → c ≠ .deleted) := by
      obtain ⟨op, ⟨hx', hrun⟩, hcalls⟩ := hc
      rw [hx] at hx'
      have h := hop op q (Option.some.inj hx') hrun
      have h := (WatchState.withdraws_eq_false_iff r.watcher hchange).mp h hq
      refine ⟨?_, fun hchanged => ?_⟩ <;> rintro rfl
      · exact absurd hcalls (by simp [state, h.1])
      · exact absurd hcalls (by simp [state, h.2 hchanged])
    cases hup with
    | ended h => simp [(ends_eq_true_iff hx).mpr h] at hends
    | again q hq h => exact (hnone q hq _ h).1 rfl
    | deleted q hq hc h => exact (hnone q hq _ h).2 hc rfl
  · intro hup
    refine ⟨?_, fun op q hop hrun => ?_⟩
    · rw [← Bool.not_eq_true, ends_eq_true_iff hx]
      exact fun h => hup (.ended h)
    · subst hop
      rw [WatchState.withdraws_eq_false_iff r.watcher hchange]
      intro hq
      refine ⟨?_, fun hc => ?_⟩ <;> rw [← Bool.not_eq_true] <;> intro hcalls
      · exact hup (.again q hq ((callsFor_iff hx).mpr ⟨hrun, hcalls⟩))
      · exact hup (.deleted q hq hc ((callsFor_iff hx).mpr ⟨hrun, hcalls⟩))

theorem reaches_iff (hx : r.steps[n]? = some x) :
    (r.system n).reaches (r.due i) x = true ↔ r.Reaches i n := by
  rw [WatchSystem.reaches_eq_true_iff, Reaches, hx]
  simp only [Option.some.injEq]
  rfl

theorem keeps_notifications_iff (hchange : change ≠ .deleted) :
    r.notifications.keeps n (r.planned i path change) = true ↔
      ¬r.GivesUp n path change ∧ ¬r.Reaches i n := by
  cases hx : r.steps[n]? with
  | none =>
    -- after the last step nothing happens any more
    have hkeep : r.notifications.keeps n (r.planned i path change) = true := by
      simp [notifications, hx]
    have hcalls (q : Path) (c : FileChange) : ¬r.CallsFor n q c := by
      intro h
      obtain ⟨op, ⟨h, _⟩, _⟩ := h
      simp [hx] at h
    refine iff_of_true hkeep ⟨fun hup => ?_, ?_⟩
    · cases hup with
      | ended h => simp [Ends, system_stay hx] at h
      | again q _ h => exact hcalls q _ h
      | deleted q _ _ h => exact hcalls q _ h
    · intro h
      obtain ⟨ms, h, _⟩ := h
      simp [hx] at h
  | some x =>
    rw [← withdraws_iff_givesUp hx hchange, ← reaches_iff hx]
    simp [notifications, hx, planned]

theorem lasts_notifications_iff {t : Timer NotificationKey Path} :
    r.notifications.Lasts i n t ↔
      ∃ path change, change ≠ .deleted ∧ r.Waits i n path change ∧ t = r.planned i path change := by
  constructor
  · intro h
    obtain ⟨path, change, hne, hcalls, rfl⟩ := added_notifications_iff.mp h.added
    have hk (m : ℕ) (hm : m < n) (him : i < m) := (keeps_notifications_iff hne).mp (h.kept m hm him)
    exact ⟨path, change, hne, ⟨h.lt, hcalls, fun m hm him => (hk m hm him).1,
      fun m hm him => (hk m hm him).2⟩, rfl⟩
  · intro h
    obtain ⟨path, change, hne, h, rfl⟩ := h
    exact ⟨h.lt, added_notifications_iff.mpr ⟨path, change, hne, h.called, rfl⟩,
      fun m hm him => (keeps_notifications_iff hne).mpr ⟨h.kept m hm him, h.early m hm him⟩⟩

/-- What is pending before a step are the reports that wait. -/
theorem mem_timers_iff {t : Timer NotificationKey Path} :
    t ∈ (r.state n).queue.timers ↔ ∃ i path change, change ≠ .deleted ∧
      r.Waits i n path change ∧ t = r.planned i path change := by
  change t ∈ r.notifications.entries n ↔ _
  rw [StepTable.mem_entries_iff]
  simp only [lasts_notifications_iff]

theorem mem_expired_iff {ms : ℕ} {t : Timer NotificationKey Path} :
    t ∈ (r.state n).debouncer.expired ms ↔
      (∃ i path change, change ≠ .deleted ∧ r.Waits i n path change ∧ t = r.planned i path change) ∧
        t.due ≤ r.clock n + ms := by
  rw [Debouncer.expired_eq, TimerQueue.mem_expired_iff]
  exact and_congr_left' mem_timers_iff

/-- No two pending reports have the same key: the later one has taken the place of the earlier. -/
theorem pairwise_key_pending (r : WatchRun) (n : ℕ) :
    (r.state n).queue.timers.Pairwise fun t u => (t.key == u.key) = false := by
  apply r.notifications.pairwise_entries fun t u => (t.key == u.key) = false
  intro m t ht u hu hkeep
  obtain ⟨q, change, hne, hcalls, rfl⟩ := added_notifications_iff.mp ht
  obtain ⟨i, path, c, hc, _, rfl⟩ := mem_timers_iff.mp hu
  have hup := ((keeps_notifications_iff hc).mp hkeep).1
  by_contra hkey
  obtain ⟨hsame, rfl⟩ := NotificationKey.beq_iff.mp (by simpa using hkey)
  exact hup (.again q (by rw [Path.same_comm]; exact hsame) hcalls)

/-! ### Calls -/

/-- In its `n`-th step an operation or the visit of a walk opens a file. -/
inductive Opens (r : WatchRun) (n : ℕ) (path : Path) : Prop where
  | handled (op : FileOperation) (h : r.Handles n op path)
      (opens : (r.state n).opens r.watcher op path = true)
  | visited (m : ℕ) (hx : r.steps[n]? = some (.visit m))
      (h : (r.system n).visited? m = some path)

inductive Reason (r : WatchRun) (n : ℕ) : ℕ → WatchCall → Prop where
  | opens {path : Path} (h : r.Opens n path) : Reason r n (r.clock n) (.open path)
  | deleted {path : Path} (h : r.CallsFor n path .deleted) :
    Reason r n (r.clock n) (.watched (.ofPath path) .deleted)
  | due {i : ℕ} {path : Path} {change : FileChange} (hc : change ≠ .deleted)
      (h : r.GoesOff i n path change) :
    Reason r n (r.due i) ((r.state n).client.report path change)

theorem mem_dueCalls_iff {ms time : ℕ} {call : WatchCall} (hx : r.steps[n]? = some (.advance ms)) :
    (time, call) ∈ (r.state n).dueCalls ms ↔ ∃ i path change, change ≠ .deleted ∧
      r.GoesOff i n path change ∧ time = r.due i ∧ call = (r.state n).client.report path change := by
  simp only [WatchState.dueCalls, List.mem_map, mem_expired_iff]
  constructor
  · intro h
    obtain ⟨t, ⟨⟨i, path, change, hc, hwaits, rfl⟩, hdue⟩, heq⟩ := h
    cases heq
    exact ⟨i, path, change, hc, ⟨hwaits, ms, hx, hdue⟩, rfl, rfl⟩
  · intro h
    obtain ⟨i, path, change, hc, hgo, rfl, rfl⟩ := h
    obtain ⟨ms', hx', hdue⟩ := hgo.reached
    rw [hx] at hx'
    cases hx'
    exact ⟨_, ⟨⟨i, path, change, hc, hgo.toWaits, rfl⟩, hdue⟩, rfl⟩

/-- Every call has its reason, and every reason has its call. -/
theorem mem_callsAt_iff {time : ℕ} {call : WatchCall} :
    (time, call) ∈ r.callsAt n ↔ r.Reason n time call := by
  constructor
  · intro h
    cases hx : r.steps[n]? with
    | none => simp [callsAt_stay hx] at h
    | some x =>
      -- calls come from operations, visits and time, each kind of step with its own
      rw [callsAt_step hx] at h
      cases x with
      | operation op path =>
        simp only [WatchSystem.stepCalls] at h
        split at h
        · next hrun =>
          have hhandles : r.Handles n op path := ⟨hx, hrun⟩
          rcases List.mem_append.mp h with h | h
          · split at h
            · next hc =>
              cases List.mem_singleton.mp h
              exact .deleted ⟨op, hhandles, hc⟩
            · cases h
          · split at h
            · next hopens =>
              cases List.mem_singleton.mp h
              exact .opens (.handled op hhandles hopens)
            · cases h
        · cases h
      | visit m =>
        simp only [WatchSystem.stepCalls, Option.mem_toList, Option.map_eq_some_iff] at h
        obtain ⟨path, hpath, heq⟩ := h
        cases heq
        exact .opens (.visited m hx hpath)
      | advance ms =>
        obtain ⟨i, path, change, hc, hgo, rfl, rfl⟩ := (mem_dueCalls_iff hx).mp h
        exact .due hc hgo
      | _ => cases h
  · intro h
    cases h with
    | opens h =>
      cases h with
      | handled op h hopens =>
        rw [callsAt_step h.step, WatchSystem.stepCalls, if_pos h.running]
        rw [state] at hopens
        exact List.mem_append_right _ (by simp [hopens, clock, state])
      | visited m hx h =>
        rw [callsAt_step hx, WatchSystem.stepCalls, h]
        exact List.mem_cons_self
    | deleted h =>
      obtain ⟨op, h, hc⟩ := h
      rw [callsAt_step h.step, WatchSystem.stepCalls, if_pos h.running]
      rw [state] at hc
      exact List.mem_append_left _ (by simp [hc, clock, state])
    | due hc h =>
      obtain ⟨ms, hx, _⟩ := h.reached
      rw [callsAt_step hx]
      exact (mem_dueCalls_iff hx).mpr ⟨_, _, _, hc, h, rfl, rfl⟩

theorem CallsFor.path_eq {c d : FileChange} {p q : Path} (hp : r.CallsFor n p c)
    (hq : r.CallsFor n q d) : p = q := by
  obtain ⟨_, ⟨hx, _⟩, _⟩ := hp
  obtain ⟨_, ⟨hx', _⟩, _⟩ := hq
  rw [hx] at hx'
  cases hx'
  rfl

/-- What a step calls for is reported at most once. -/
theorem GoesOff.unique {q : Path} (h : r.GoesOff i n path change) (h' : r.GoesOff i m q change) :
    n = m ∧ path = q := by
  refine ⟨?_, h.called.path_eq h'.called⟩
  by_contra hne
  rcases Nat.lt_or_gt_of_ne hne with hlt | hlt
  · exact h'.early n hlt h.lt h.reached
  · exact h.early m hlt h'.lt h'.reached

/-- A call that reports a creation or a change of a file is a report that goes off. -/
theorem Reason.goesOff {time : ℕ} {call : WatchCall} (hcall : r.Reason n time call)
    (hc : change ≠ .deleted) (hreports : call.reports path change = true) :
    ∃ i q, Path.same path q = true ∧ r.GoesOff i n q change := by
  cases hcall with
  | opens h => cases hreports
  | deleted h =>
    rw [← (r.state n).client.report_deleted, WatchClient.reports_report] at hreports
    exact absurd hreports.1.symm hc
  | due hd h =>
    obtain ⟨rfl, hq⟩ := WatchClient.reports_report.mp hreports
    exact ⟨_, _, hq, h⟩

theorem GoesOff.mem_callsAt (h : r.GoesOff i n path change) (hc : change ≠ .deleted) :
    (r.due i, (r.state n).client.report path change) ∈ r.callsAt n :=
  mem_callsAt_iff.mpr (.due hc h)

/-- Of entries no two of which have what an entry of the list has, only that entry has it. -/
theorem filter_eq_singleton {α : Type} {R : α → α → Prop} {p : α → Bool} {l : List α} {a : α}
    (hl : l.Pairwise R) (ha : a ∈ l) (hp : p a = true)
    (hR : ∀ b ∈ l, ∀ c ∈ l, p b = true → p c = true → ¬R b c) : l.filter p = [a] := by
  have hmem : a ∈ l.filter p := List.mem_filter.mpr ⟨ha, hp⟩
  have hpair := hl.filter p
  have hsub (b : α) (hb : b ∈ l.filter p) : b ∈ l ∧ p b = true := List.mem_filter.mp hb
  match hf : l.filter p with
  | [] => rw [hf] at hmem; cases hmem
  | [b] =>
    rw [hf] at hmem
    rw [List.mem_singleton.mp hmem]
  | b :: c :: rest =>
    rw [hf] at hpair hsub
    obtain ⟨hb, hpb⟩ := hsub b List.mem_cons_self
    obtain ⟨hc, hpc⟩ := hsub c (List.mem_cons_of_mem _ List.mem_cons_self)
    -- a second entry would be related to the first
    exact absurd (List.rel_of_pairwise_cons hpair List.mem_cons_self) (hR b hb c hc hpb hpc)

/-- Of the calls made in a step, one reports what goes off in it. -/
theorem GoesOff.filter_callsAt {q : Path} (h : r.GoesOff i n path change) (hc : change ≠ .deleted)
    (hq : Path.same q path = true) :
    (r.callsAt n).filter (·.2.reports q change) =
      [(r.due i, (r.state n).client.report path change)] := by
  obtain ⟨ms, hx, hdue⟩ := h.reached
  let report (t : Timer NotificationKey Path) : ℕ × WatchCall :=
    (t.due, (r.state n).client.report t.action t.key.change)
  have hcalls : r.callsAt n = ((r.state n).debouncer.expired ms).map report := callsAt_step hx
  have hkeys := TimerQueue.pairwise_expired ms (pairwise_key_pending r n)
  rw [WatchState.queue, ← Debouncer.expired_eq] at hkeys
  have hpending : r.planned i path change ∈ (r.state n).debouncer.expired ms :=
    mem_expired_iff.mpr ⟨⟨i, path, change, hc, h.toWaits, rfl⟩, hdue⟩
  rw [hcalls, List.filter_map]
  refine congrArg (List.map report) (filter_eq_singleton hkeys hpending ?_ ?_)
  · exact WatchClient.reports_report.mpr ⟨rfl, hq⟩
  · -- two reports of the change for the same path would have the same key
    intro t ht u hu htq huq hne
    obtain ⟨j, p, c, _, _, rfl⟩ := (mem_expired_iff.mp ht).1
    obtain ⟨k, p', c', _, _, rfl⟩ := (mem_expired_iff.mp hu).1
    obtain ⟨hchange, hp⟩ := WatchClient.reports_report.mp htq
    obtain ⟨hchange', hp'⟩ := WatchClient.reports_report.mp huq
    have hsame : ((r.planned j p c).key == (r.planned k p' c').key) = true := by
      rw [NotificationKey.beq_iff, Path.same_iff]
      exact ⟨(Path.same_iff.mp hp).symm.trans (Path.same_iff.mp hp'), hchange.trans hchange'.symm⟩
    rw [hsame] at hne
    cases hne.2

/-- A run in a workspace that holds one file, with the default settings. -/
def oneFile (steps : List WatchStep) : WatchRun :=
  let files : FileTree := ⟨.dir [("ws", .dir [("a.go", .file .empty)])]⟩
  { watcher :=
      { root := "/ws"
        policy := .ofSettings files "/ws" .default
        settings := .default }
    files, steps }

end WatchRun

end WorkspaceLink
