import WorkspaceLink.Proofs.Debouncer.Queue
import WorkspaceLink.Proofs.Debouncer.Table

/-! Runs of a debouncer. Each key has a trailing edge of its own: of the actions scheduled for it
the latest goes off, a delay after it was scheduled, unless the wait is broken off before. -/

namespace WorkspaceLink

inductive DebounceStep (κ α : Type) where
  | schedule (key : κ) (delay : ℕ) (action : α)
  | cancel (key : κ)
  | cancelAll
  | advance (ms : ℕ)

/-! ### Steps -/

namespace DebounceStep

variable {κ α : Type}

def elapsed : DebounceStep κ α → ℕ
  | advance ms => ms
  | _ => 0

/-- The time before the `n`-th of some steps. -/
def clock (steps : List (DebounceStep κ α)) (n : ℕ) : ℕ :=
  ((steps.take n).map elapsed).sum

/-- The timer that a step sets. -/
def timer? (now : ℕ) : DebounceStep κ α → Option (Timer κ α)
  | schedule key delay action => some ⟨key, now + delay, action⟩
  | _ => none

variable [BEq κ]

/-- Whether a step breaks off the wait of a key: it schedules or cancels the key, or cancels all. -/
def breaksOff (key : κ) : DebounceStep κ α → Bool
  | schedule k _ _ => key == k
  | cancel k => key == k
  | cancelAll => true
  | advance _ => false

/-- Whether a timer is still pending after a step. -/
def keeps (now : ℕ) : DebounceStep κ α → Timer κ α → Bool
  | advance ms, t => now + ms < t.due
  | x, t => !x.breaksOff t.key

/-- Whether a step matters to a key. Time passes for all keys. -/
def concerns (key : κ) : DebounceStep κ α → Bool
  | advance _ => true
  | x => x.breaksOff key

/-- The timer that the `i`-th step set is pending before the `n`-th: no step since then has broken
off the wait of its key, and time has not reached it. -/
structure Waits (steps : List (DebounceStep κ α)) (i n : ℕ) (t : Timer κ α) : Prop where
  lt : i < n
  scheduled : ∃ delay, steps[i]? = some (schedule t.key delay t.action) ∧
    t.due = clock steps i + delay
  unbroken : ∀ m < n, i < m → ∀ x, steps[m]? = some x → x.breaksOff t.key = false
  early : ∀ m < n, i < m → ∀ ms, steps[m]? = some (advance ms) →
    clock steps m + ms < t.due

/-- The timer that the `i`-th step set goes off in the `n`-th, the first to reach it. -/
structure GoesOff (steps : List (DebounceStep κ α)) (i n : ℕ) (t : Timer κ α) : Prop
    extends Waits steps i n t where
  reached : ∃ ms, steps[n]? = some (advance ms) ∧ t.due ≤ clock steps n + ms

variable {steps : List (DebounceStep κ α)} {i n : ℕ} {t : Timer κ α}

/-- Of two timers that wait, neither has the key of the other: the later one would have broken off
the wait of the earlier. -/
theorem Waits.key_ne [EquivBEq κ] {j : ℕ} {u : Timer κ α} (ht : Waits steps i n t)
    (hu : Waits steps j n u) (hij : i ≠ j) : (t.key == u.key) = false := by
  obtain ⟨_, hi, _⟩ := ht.scheduled
  obtain ⟨_, hj, _⟩ := hu.scheduled
  rcases Nat.lt_or_gt_of_ne hij with h | h
  · exact ht.unbroken j hu.lt h _ hj
  · rw [BEq.comm]
    exact hu.unbroken i ht.lt h _ hi

theorem Waits.unique {m : ℕ} {u : Timer κ α} (ht : Waits steps i n t) (hu : Waits steps i m u) :
    t = u := by
  obtain ⟨delay, hx, hdue⟩ := ht.scheduled
  obtain ⟨delay', hx', hdue'⟩ := hu.scheduled
  obtain ⟨key, due, action⟩ := t
  obtain ⟨key', due', action'⟩ := u
  rw [hx] at hx'
  cases hx'
  rw [show due = due' from hdue.trans hdue'.symm]

/-- What is scheduled goes off at most once. -/
theorem GoesOff.unique {m : ℕ} {u : Timer κ α} (ht : GoesOff steps i n t)
    (hu : GoesOff steps i m u) : n = m ∧ t = u := by
  obtain rfl := ht.toWaits.unique hu.toWaits
  obtain ⟨ms, hx, hdue⟩ := ht.reached
  obtain ⟨ms', hx', hdue'⟩ := hu.reached
  refine ⟨?_, rfl⟩
  by_contra hne
  rcases Nat.lt_or_gt_of_ne hne with h | h
  · have := hu.early n h ht.lt ms hx
    omega
  · have := ht.early m h hu.lt ms' hx'
    omega

end DebounceStep

namespace TimerQueue

open DebounceStep

variable {κ α : Type} [BEq κ]

def step (d : TimerQueue κ α) : DebounceStep κ α → TimerQueue κ α
  | .schedule key delay action => d.schedule key delay action
  | .cancel key => d.cancel key
  | .cancelAll => d.cancelAll
  | .advance ms => d.advance ms

def fired (d : TimerQueue κ α) : DebounceStep κ α → List (Timer κ α)
  | .advance ms => d.expired ms
  | _ => []

/-- The queue before the `n`-th of some steps; after the last step it stays as it is. -/
def before (steps : List (DebounceStep κ α)) (n : ℕ) : TimerQueue κ α :=
  (steps.take n).foldl step {}

def firedAt (steps : List (DebounceStep κ α)) (n : ℕ) : List (Timer κ α) :=
  (steps[n]?.map (before steps n).fired).getD []

def firings (steps : List (DebounceStep κ α)) : List (Timer κ α) :=
  (List.range steps.length).flatMap (firedAt steps)

theorem step_now (d : TimerQueue κ α) (x : DebounceStep κ α) : (d.step x).now = d.now + x.elapsed := by
  cases x <;> rfl

theorem step_timers (d : TimerQueue κ α) (x : DebounceStep κ α) :
    (d.step x).timers = d.timers.filter (x.keeps d.now) ++ (x.timer? d.now).toList := by
  cases x with
  | schedule key delay action => rfl
  | cancel key => exact (List.append_nil _).symm
  | cancelAll =>
    have hnone (t : Timer κ α) : DebounceStep.cancelAll.keeps d.now t = false := rfl
    simp [step, TimerQueue.cancelAll, DebounceStep.timer?, hnone]
  | advance ms => exact (List.append_nil _).symm

theorem before_succ (steps : List (DebounceStep κ α)) (n : ℕ) :
    before steps (n+1) = (steps[n]?.map (before steps n).step).getD (before steps n) := by
  rw [before, List.take_add_one, List.foldl_append]
  cases steps[n]? <;> rfl

theorem now_before (steps : List (DebounceStep κ α)) (n : ℕ) :
    (before steps n).now = clock steps n := by
  induction n with
  | zero => rfl
  | succ n ih =>
    rw [before_succ, clock, List.take_add_one, List.map_append, List.sum_append, ← clock, ← ih]
    cases steps[n]? with
    | none => rfl
    | some x => exact step_now (before steps n) x

/-- The pending timers of a run as a table with a history. -/
def history (steps : List (DebounceStep κ α)) : StepTable (Timer κ α) where
  entries n := (before steps n).timers
  keeps n t := steps[n]?.all fun x => x.keeps (clock steps n) t
  added n := steps[n]?.bind fun x => x.timer? (clock steps n)
  entries_zero := rfl
  entries_succ n := by
    rw [before_succ, ← now_before]
    cases steps[n]? with
    | none => simp
    | some x => simpa using step_timers (before steps n) x

variable {steps : List (DebounceStep κ α)} {i n : ℕ} {t : Timer κ α}

theorem added_history_iff :
    (history steps).added i = some t ↔
      ∃ delay, steps[i]? = some (.schedule t.key delay t.action) ∧
        t.due = clock steps i + delay := by
  constructor
  · intro h
    obtain ⟨x, hx, ht⟩ := Option.bind_eq_some_iff.mp h
    cases x with
    | schedule key delay action =>
      obtain rfl := Option.some.inj ht
      exact ⟨delay, hx, rfl⟩
    | cancel key => cases ht
    | cancelAll => cases ht
    | advance ms => cases ht
  · intro h
    obtain ⟨delay, hx, hdue⟩ := h
    refine Option.bind_eq_some_iff.mpr ⟨_, hx, ?_⟩
    rw [DebounceStep.timer?, ← hdue]

theorem keeps_history_iff {m : ℕ} :
    (history steps).keeps m t = true ↔
      (∀ x, steps[m]? = some x → x.breaksOff t.key = false) ∧
        ∀ ms, steps[m]? = some (.advance ms) → clock steps m + ms < t.due := by
  cases hx : steps[m]? with
  | none => simp [history, hx]
  | some x => cases x <;> simp [history, hx, DebounceStep.keeps, DebounceStep.breaksOff]

theorem lasts_history_iff : (history steps).Lasts i n t ↔ Waits steps i n t := by
  constructor
  · intro h
    have hk (m : ℕ) (hm : m < n) (him : i < m) := keeps_history_iff.mp (h.kept m hm him)
    exact ⟨h.lt, added_history_iff.mp h.added, fun m hm him => (hk m hm him).1,
      fun m hm him => (hk m hm him).2⟩
  · intro h
    exact ⟨h.lt, added_history_iff.mpr h.scheduled,
      fun m hm him => keeps_history_iff.mpr ⟨h.unbroken m hm him, h.early m hm him⟩⟩

theorem mem_timers_before_iff : t ∈ (before steps n).timers ↔ ∃ i, Waits steps i n t := by
  change t ∈ (history steps).entries n ↔ _
  simp only [StepTable.mem_entries_iff, lasts_history_iff]

theorem length_timers_before (steps : List (DebounceStep κ α)) (n : ℕ) :
    (before steps n).timers.length = {i | ∃ t, Waits steps i n t}.ncard := by
  change ((history steps).entries n).length = _
  simp only [StepTable.length_entries, lasts_history_iff]

theorem mem_firedAt_iff : t ∈ firedAt steps n ↔ ∃ i, GoesOff steps i n t := by
  constructor
  · intro h
    cases hx : steps[n]? with
    | none => simp [firedAt, hx] at h
    | some x =>
      cases x with
      | advance ms =>
        simp only [firedAt, hx, Option.map_some, Option.getD_some, fired, mem_expired_iff,
          now_before] at h
        obtain ⟨i, hi⟩ := mem_timers_before_iff.mp h.1
        exact ⟨i, hi, ms, hx, h.2⟩
      | schedule key delay action => simp [firedAt, hx, fired] at h
      | cancel key => simp [firedAt, hx, fired] at h
      | cancelAll => simp [firedAt, hx, fired] at h
  · intro h
    obtain ⟨i, hi, ms, hx, hdue⟩ := h
    simp only [firedAt, hx, Option.map_some, Option.getD_some, fired, mem_expired_iff, now_before]
    exact ⟨mem_timers_before_iff.mpr ⟨i, hi⟩, hdue⟩

/-! ### Each key on its own -/

theorem pairwise_key_timers (steps : List (DebounceStep κ α)) (n : ℕ) :
    (before steps n).timers.Pairwise fun t u => (t.key == u.key) = false := by
  apply (history steps).pairwise_entries fun t u => (t.key == u.key) = false
  intro m t ht u _ hu
  obtain ⟨delay, hx, _⟩ := added_history_iff.mp ht
  exact (keeps_history_iff.mp hu).1 _ hx

theorem any_timers_before_iff {key : κ} :
    (before steps n).timers.any (·.key == key) = true ↔
      ∃ i t, Waits steps i n t ∧ (t.key == key) = true := by
  simp only [List.any_eq_true, mem_timers_before_iff]
  constructor
  · intro h
    obtain ⟨t, ⟨i, hi⟩, hkey⟩ := h
    exact ⟨i, t, hi, hkey⟩
  · intro h
    obtain ⟨i, t, hi, hkey⟩ := h
    exact ⟨t, ⟨i, hi⟩, hkey⟩

theorem pairwise_firedAt [EquivBEq κ] (steps : List (DebounceStep κ α)) (n : ℕ) :
    (firedAt steps n).Pairwise fun t u => t.due ≤ u.due ∧ (t.key == u.key) = false := by
  cases hx : steps[n]? with
  | none => simp [firedAt, hx]
  | some x =>
    cases x with
    | advance ms =>
      simp only [firedAt, hx, Option.map_some, Option.getD_some, fired]
      exact pairwise_expired ms (pairwise_key_timers steps n)
    | schedule key delay action => simp [firedAt, hx, fired]
    | cancel key => simp [firedAt, hx, fired]
    | cancelAll => simp [firedAt, hx, fired]

/-- A debouncer with the timers of one key only. -/
def restrict (d : TimerQueue κ α) (key : κ) : TimerQueue κ α :=
  { d with timers := d.timers.filter (key == ·.key) }

theorem restrict_step_of_concerns (d : TimerQueue κ α) {key : κ} {x : DebounceStep κ α}
    (h : x.concerns key = true) : (d.step x).restrict key = (d.restrict key).step x := by
  have hcomm (p : Timer κ α → Bool) : (d.timers.filter p).filter (key == ·.key) =
      (d.timers.filter (key == ·.key)).filter p := List.filter_comm _ _ _
  cases x with
  | schedule k delay action =>
    have hk : (key == k) = true := h
    simp [step, schedule, restrict, hcomm, hk]
  | cancel k => simp only [step, cancel, restrict, hcomm]
  | cancelAll => rfl
  | advance ms => exact congrArg (TimerQueue.mk (d.now + ms)) (hcomm _)

theorem restrict_step_of_not_concerns [EquivBEq κ] (d : TimerQueue κ α) {key : κ}
    {x : DebounceStep κ α} (h : x.concerns key = false) :
    (d.step x).restrict key = d.restrict key := by
  have hother (k : κ) (hk : (key == k) = false) :
      (d.timers.filter fun t => !(t.key == k)).filter (key == ·.key) =
        d.timers.filter (key == ·.key) := by
    rw [List.filter_filter]
    apply List.filter_congr
    intro t _
    cases ht : key == t.key with
    | false => rfl
    | true => rw [← BEq.congr_left ht, hk]; rfl
  cases x with
  | schedule k delay action =>
    have hk : (key == k) = false := h
    simp [step, schedule, restrict, hother k hk, hk]
  | cancel k => simp only [step, cancel, restrict, hother k h]
  | cancelAll => cases h
  | advance ms => cases h

theorem filter_fired (d : TimerQueue κ α) (key : κ) (x : DebounceStep κ α) :
    (d.fired x).filter (key == ·.key) = (d.restrict key).fired x := by
  cases x with
  | advance ms => exact d.filter_expired _ ms
  | schedule k delay action => rfl
  | cancel k => rfl
  | cancelAll => rfl

theorem restrict_foldl_step [EquivBEq κ] (key : κ) (steps : List (DebounceStep κ α))
    (d : TimerQueue κ α) :
    (steps.foldl step d).restrict key =
      (steps.filter (·.concerns key)).foldl step (d.restrict key) := by
  induction steps generalizing d with
  | nil => rfl
  | cons x steps ih =>
    rw [List.foldl_cons, ih]
    cases h : x.concerns key with
    | true => rw [List.filter_cons_of_pos h, List.foldl_cons, restrict_step_of_concerns d h]
    | false => rw [List.filter_cons_of_neg (by simp [h]), restrict_step_of_not_concerns d h]

theorem firings_concat (steps : List (DebounceStep κ α)) (x : DebounceStep κ α) :
    firings (steps ++ [x]) = firings steps ++ (steps.foldl step {}).fired x := by
  have hold : ∀ n ∈ List.range steps.length, firedAt (steps ++ [x]) n = firedAt steps n := by
    intro n hn
    have hn := List.mem_range.mp hn
    rw [firedAt, firedAt, before, before, List.getElem?_append_left hn,
      List.take_append_of_le_length hn.le]
  have hlast : firedAt (steps ++ [x]) steps.length = (steps.foldl step {}).fired x := by
    simp [firedAt, before]
  rw [firings, List.length_append, List.length_singleton, List.range_succ, List.flatMap_append,
    List.flatMap_singleton, hlast, List.flatMap_congr hold]
  rfl

/-- What is done to other keys has no influence on what goes off for a key. -/
theorem filter_firings [EquivBEq κ] (key : κ) (steps : List (DebounceStep κ α)) :
    (firings steps).filter (key == ·.key) = firings (steps.filter (·.concerns key)) := by
  -- from the end: a longer run has the same firings up to its last step
  induction steps using List.reverseRecOn with
  | nil => rfl
  | append_singleton steps x ih =>
    have hrun : (steps.foldl step {}).restrict key =
        (steps.filter (·.concerns key)).foldl step ({} : TimerQueue κ α) :=
      restrict_foldl_step key steps {}
    rw [firings_concat, List.filter_append, List.filter_append, ih, filter_fired, hrun]
    cases h : x.concerns key with
    | true => rw [List.filter_cons_of_pos h, List.filter_nil, firings_concat]
    | false =>
      rw [List.filter_cons_of_neg (by simp [h]), List.filter_nil, List.append_nil]
      cases x with
      | advance ms => cases h
      | schedule k delay action => exact List.append_nil _
      | cancel k => exact List.append_nil _
      | cancelAll => exact List.append_nil _

end TimerQueue

/-! ### Debouncers -/

namespace Debouncer

variable {κ α : Type} [BEq κ] [EquivBEq κ]

def step (d : Debouncer κ α) : DebounceStep κ α → Debouncer κ α
  | .schedule key delay action => d.schedule key delay action
  | .cancel key => d.cancel key
  | .cancelAll => d.cancelAll
  | .advance ms => d.advance ms

def fired (d : Debouncer κ α) : DebounceStep κ α → List (Timer κ α)
  | .advance ms => d.expired ms
  | _ => []

variable (late : ℕ → Bool) (steps : List (DebounceStep κ α)) (n : ℕ)

/-- The debouncer before the `n`-th of some steps; after the last step it stays as it is. -/
def before : Debouncer κ α :=
  (steps.take n).foldl step { late }

def firedAt : List (Timer κ α) :=
  (steps[n]?.map (before late steps n).fired).getD []

def firings : List (Timer κ α) :=
  (List.range steps.length).flatMap (firedAt late steps)

theorem queue_step (d : Debouncer κ α) (x : DebounceStep κ α) :
    (d.step x).queue = d.queue.step x := by
  cases x with
  | schedule key delay action => exact queue_schedule d key delay action
  | cancel key => exact queue_cancel d key
  | cancelAll => exact queue_cancelAll d
  | advance ms => exact queue_advance d ms

theorem fired_eq (d : Debouncer κ α) (x : DebounceStep κ α) : d.fired x = d.queue.fired x := by
  cases x with
  | advance ms => exact expired_eq d ms
  | schedule key delay action => rfl
  | cancel key => rfl
  | cancelAll => rfl

/-- Whatever aborts come too late, a run shows as that of a queue. -/
theorem queue_before : (before late steps n).queue = TimerQueue.before steps n := by
  have hfold (xs : List (DebounceStep κ α)) (d : Debouncer κ α) :
      (xs.foldl step d).queue = xs.foldl TimerQueue.step d.queue := by
    induction xs generalizing d with
    | nil => rfl
    | cons x xs ih => rw [List.foldl_cons, ih, queue_step, List.foldl_cons]
  exact hfold _ _

theorem firedAt_eq : firedAt late steps n = TimerQueue.firedAt steps n := by
  rw [firedAt, TimerQueue.firedAt, ← queue_before late]
  cases steps[n]? with
  | none => rfl
  | some x => exact fired_eq _ x

theorem firings_eq : firings late steps = TimerQueue.firings steps :=
  List.flatMap_congr fun n _ => firedAt_eq late steps n

theorem firings_concat (x : DebounceStep κ α) :
    firings late (steps ++ [x]) = firings late steps ++ (steps.foldl step { late }).fired x := by
  have hqueue := queue_before late steps steps.length
  rw [before, TimerQueue.before, List.take_length] at hqueue
  rw [firings_eq, firings_eq, TimerQueue.firings_concat, fired_eq, hqueue]

end Debouncer

end WorkspaceLink
