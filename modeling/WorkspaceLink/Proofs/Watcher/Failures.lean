import Mathlib.Data.List.Induction
import WorkspaceLink.Proofs.Watcher.Answers
import WorkspaceLink.Proofs.Watcher.Independence

/-! Failures of the client are contained. That a report fails makes no difference at all; that a file
cannot be opened makes one for this file alone, which is then not open. -/

namespace WorkspaceLink

variable {w : Watcher} {p : Path} {g : WatchCall → ℕ → Option ClientError}

/-! ### Walks -/

/-- Two counts of the same files. Their openings may have come out otherwise. -/
structure OpenStats.SameFiles (a b : OpenStats) : Prop where
  scanned : b.scanned = a.scanned
  matched : b.matched = a.matched

namespace WatchState

variable {s s' : WatchState} {a b : OpenStats}

theorem SameButClient.openCandidate (h : SameButClient s s') (hab : a.SameFiles b) (path : Path) :
    SameButClient (s.openCandidate a path).1 (s'.openCandidate b path).1 ∧
      (s.openCandidate a path).2.SameFiles (s'.openCandidate b path).2 := by
  have hwatched : s'.isWatched path = s.isWatched path := by
    rw [isWatched, isWatched, h.sameWorld.registry]
  obtain ⟨_, hs⟩ := s.request_frame path
  obtain ⟨client', hs'⟩ := s'.request_frame path
  obtain ⟨_, rfl⟩ := h
  rw [openCandidate_eq, openCandidate_eq]
  refine ⟨?_, hab.scanned, ?_⟩
  · rw [hs, hs']
    exact ⟨client', rfl⟩
  · rw [count, count, hwatched, hab.matched]

theorem SameButClient.advance (h : SameButClient s s') (ms : ℕ) :
    SameButClient (s.advance ms) (s'.advance ms) := by
  obtain ⟨client, rfl⟩ := h
  rw [advance_eq, advance_eq]
  exact ⟨_, rfl⟩

theorem SameButClient.openEach (h : SameButClient s s') (w : Watcher) (hab : a.SameFiles b)
    (paths : List Path) :
    SameButClient (s.openEach w a paths).1 (s'.openEach w b paths).1 ∧
      (s.openEach w a paths).2.SameFiles (s'.openEach w b paths).2 := by
  induction paths generalizing s s' a b with
  | nil => exact ⟨h, hab⟩
  | cons path paths ih =>
    obtain ⟨hvisit, hcount⟩ := h.openCandidate hab path
    rw [WatchState.openEach, WatchState.openEach]
    dsimp only
    rw [hcount.scanned]
    -- the pauses depend on how many files have been visited
    refine ih ?_ ⟨rfl, hcount.matched⟩
    split
    · exact hvisit.advance _
    · exact hvisit

theorem SameButClient.openAll (h : SameButClient s s') (w : Watcher) :
    (s.openAll w).2.SameFiles (s'.openAll w).2 := by
  have hcandidates : s'.candidates w = s.candidates w := by
    obtain ⟨_, rfl⟩ := h
    rfl
  rw [WatchState.openAll, WatchState.openAll, hcandidates]
  exact (h.openEach w ⟨rfl, rfl⟩ (s.candidates w)).2

/-- A walk goes through all its files, whatever the client answers. -/
theorem scanned_openEach (w : Watcher) (s : WatchState) (stats : OpenStats) (paths : List Path) :
    (s.openEach w stats paths).2.scanned = stats.scanned + paths.length := by
  induction paths generalizing s stats with
  | nil => rfl
  | cons path paths ih => rw [openEach_cons, ih, count, List.length_cons, Nat.add_assoc, Nat.add_comm 1]

/-- The count goes by whether the client can open the file, whatever the error is. -/
theorem openCandidate_answering (s : WatchState) (stats : OpenStats) (path : Path)
    (h : s.needsOpening path = true →
      ((s.client.answering g).nextFailure? (.open path)).isNone =
        (s.client.nextFailure? (.open path)).isNone) :
    (({ s with client := s.client.answering g } : WatchState).openCandidate stats path).2 =
      (s.openCandidate stats path).2 := by
  let s' : WatchState := { s with client := s.client.answering g }
  have hwatched : s'.isWatched path = s.isWatched path := rfl
  have hneeds : s'.needsOpening path = s.needsOpening path := rfl
  have hfails (hasked : s.needsOpening path = true) :
      s'.failsToOpen path = s.failsToOpen path := by
    rw [failsToOpen, failsToOpen, ← Option.not_isNone, ← Option.not_isNone]
    exact congrArg not (h hasked)
  rw [openCandidate_eq, openCandidate_eq]
  dsimp only
  rw [count, count, opensAtVisit, opensAtVisit, failsAtVisit, failsAtVisit, hwatched, hneeds]
  cases hasked : s.needsOpening path with
  | false => rfl
  | true => rw [hfails hasked]

end WatchState

/-! ### Steps -/

namespace WatchSystem

variable {y z : WatchSystem} {a b : OpenStats}

theorem SameButClient.countStep (h : SameButClient y z) (hab : a.SameFiles b) (n : ℕ)
    (x : WatchStep) : (y.countStep n a x).SameFiles (z.countStep n b x) := by
  cases x with
  | visit m =>
    rw [WatchSystem.countStep, WatchSystem.countStep, h.sameAround.next?_eq]
    split
    · next walk path _ =>
      split
      · obtain ⟨_, hcount⟩ := h.state.openCandidate hab path
        exact ⟨congrArg (· + 1) hcount.scanned, hcount.matched⟩
      · exact hab
    · exact hab
  | _ => exact hab

theorem SameButClient.walkStats (h : SameButClient y z) (w : Watcher) (hab : a.SameFiles b) (n : ℕ)
    (steps : List WatchStep) :
    (walkStats w n y a steps).SameFiles (walkStats w n z b steps) := by
  induction steps generalizing y z a b with
  | nil => exact hab
  | cons x steps ih => exact ih (h.step w x) (h.countStep hab n x)

theorem countStep_answering (w : Watcher) (n : ℕ) (stats : OpenStats) (x : WatchStep)
    (h : WatchClient.AnsweredAlike y.state.client.failure? g (y.step w x).state.client.calls) :
    (y.answering g).countStep n stats x = y.countStep n stats x := by
  cases x with
  | visit m =>
    have hsame : (y.answering g).next? n = y.next? n := rfl
    rw [countStep, countStep, hsame]
    cases hnext : y.next? n with
    | none => rfl
    | some next =>
      dsimp only
      split
      · next hm =>
        have hcount := y.state.openCandidate_answering (g := g) stats next.2 (by
          intro hasked
          -- the file is asked for, so that the visit makes the call
          have hvisited : y.visited? m = some next.2 := by
            rw [hm, visited?_next hnext, if_pos hasked]
          rw [step_calls, stepCalls, hvisited] at h
          exact h y.state.client.calls y.state.now next.2 [] rfl)
        exact congrArg (fun counted : OpenStats => { counted with scanned := counted.scanned + 1 })
          hcount
      · rfl
  | _ => rfl

theorem failure?_run (w : Watcher) (y : WatchSystem) (steps : List WatchStep) :
    (y.run w steps).state.client.failure? = y.state.client.failure? := by
  induction steps generalizing y with
  | nil => rfl
  | cons x steps ih =>
    have hrest := ih (y.step w x)
    rw [step_client, WatchClient.failure?_sends] at hrest
    cases x <;> exact hrest

/-- Answers that change none of the openings made in a run do not show in it. -/
theorem run_answering (w : Watcher) (y : WatchSystem) (steps : List WatchStep)
    (h : WatchClient.AnsweredAlike y.state.client.failure? g
      (y.run w steps).state.client.calls) :
    (y.answering g).run w steps = (y.run w steps).answering g ∧
      ∀ n stats, walkStats w n (y.answering g) stats steps = walkStats w n y stats steps := by
  -- the induction is on the last step, so that the answers before it are known to be alike
  induction steps using List.reverseRecOn with
  | nil => exact ⟨rfl, fun _ _ => rfl⟩
  | append_singleton steps x ih =>
    have hlast (y : WatchSystem) : y.run w (steps ++ [x]) = (y.run w steps).step w x :=
      run_append w y steps [x]
    rw [hlast] at h
    have hbefore := h
    rw [step_calls] at hbefore
    obtain ⟨hrun, hstats⟩ := ih hbefore.of_append
    rw [← failure?_run w y steps] at h
    constructor
    · rw [hlast, hlast, hrun, step_answering w x h]
    · intro n stats
      rw [walkStats_append, walkStats_append, hstats, hrun]
      exact countStep_answering w n _ x h

end WatchSystem

/-! ### The loop -/

namespace LoopSystem

variable {y z : LoopSystem}

/-- Two watchers with their loops that differ in the client at most. -/
structure SameButClient (y z : LoopSystem) : Prop where
  system : y.system.SameButClient z.system
  queue : z.queue = y.queue
  rest : z.rest = y.rest
  told : z.told = y.told

theorem SameButClient.running (h : SameButClient y z) : z.system.running = y.system.running :=
  h.system.sameAround.running

theorem SameButClient.turn (h : SameButClient y z) (w : Watcher) :
    SameButClient (y.turn w) (z.turn w) := by
  obtain ⟨system, queue, rest, told⟩ := y
  obtain ⟨system', queue', rest', told'⟩ := z
  obtain ⟨hsystem, rfl, rfl, rfl⟩ := h
  cases rest' with
  | cons o rest => exact ⟨hsystem.step w (.operation o.1 o.2), rfl, rfl, rfl⟩
  | nil =>
    cases told' with
    | true => exact ⟨hsystem.step w .cancel, rfl, rfl, rfl⟩
    | false =>
      cases queue' with
      | nil => exact ⟨hsystem, rfl, rfl, rfl⟩
      | cons item queue =>
        cases item with
        | event e => exact ⟨hsystem, rfl, rfl, rfl⟩
        | failure cause => exact ⟨hsystem.step w (.failSource cause), rfl, rfl, rfl⟩

theorem SameButClient.step (h : SameButClient y z) (w : Watcher) (x : LoopStep) :
    SameButClient (y.step w x) (z.step w x) := by
  have hrun := h.running
  cases x with
  | beside x hx => exact { h with system := h.system.step w x }
  | start sourceFailure =>
    rw [LoopSystem.step, LoopSystem.step, hrun]
    split
    · exact h
    · exact { h with system := h.system.step w (.start sourceFailure) }
  | arrive item =>
    rw [LoopSystem.step, LoopSystem.step, hrun]
    split
    · exact { h with queue := congrArg (· ++ [item]) h.queue }
    · exact h
  | turn =>
    rw [LoopSystem.step, LoopSystem.step, hrun]
    split
    · exact h.turn w
    · exact h
  | cancel =>
    rw [LoopSystem.step, LoopSystem.step, hrun]
    split
    · exact { h with told := rfl }
    · exact { h with system := h.system.step w .cancel, told := rfl }
  | rearm =>
    rw [LoopSystem.step, LoopSystem.step, hrun]
    split
    · exact h
    · exact { h with system := h.system.step w .rearm, told := rfl }

theorem SameButClient.run (h : SameButClient y z) (w : Watcher) (xs : List LoopStep) :
    SameButClient (y.run w xs) (z.run w xs) := by
  induction xs generalizing y z with
  | nil => exact h
  | cons x xs ih => exact ih (h.step w x)

theorem SameButClient.move_eq (h : SameButClient y z) (x : LoopStep) : z.move x = y.move x := by
  have hidle : z.system.idle = y.system.idle := by
    rw [WatchSystem.idle, WatchSystem.idle, h.system.walks]
  cases x <;> simp only [move, turnMove, hidle, h.running, h.queue, h.rest, h.told]

theorem SameButClient.moves_eq (h : SameButClient y z) (w : Watcher) (xs : List LoopStep) :
    z.moves w xs = y.moves w xs := by
  induction xs generalizing y z with
  | nil => rfl
  | cons x xs ih => rw [moves, moves, h.move_eq, ih (h.step w x)]

theorem SameButClient.run_alikeFor (h : SameButClient y z)
    (hp : WatchSystem.AlikeFor p y.system z.system) (hy : y.system.Tidy) (hz : z.system.Tidy)
    (w : Watcher) (xs : List LoopStep) :
    WatchSystem.AlikeFor p (y.run w xs).system (z.run w xs).system := by
  induction xs generalizing y z with
  | nil => exact hp
  | cons x xs ih =>
    refine ih (h.step w x) ?_ (run_tidy hy [x]) (run_tidy hz [x])
    rw [step_system, step_system, h.move_eq]
    exact hp.step w hy hz (y.move x)

/-- A watcher and its loop whose client answers otherwise. -/
def answering (y : LoopSystem) (g : WatchCall → ℕ → Option ClientError) : LoopSystem :=
  { y with system := y.system.answering g }

theorem sameButClient_answering (y : LoopSystem) (g : WatchCall → ℕ → Option ClientError) :
    SameButClient y (y.answering g) :=
  ⟨y.system.sameButClient_answering g, rfl, rfl, rfl⟩

theorem SameButClient.eq_answering (h : SameButClient y z) (hz : z.system = y.system.answering g) :
    z = y.answering g := by
  obtain ⟨system, queue, rest, told⟩ := z
  obtain ⟨_, rfl, rfl, rfl⟩ := h
  obtain rfl : system = y.system.answering g := hz
  rfl

/-- The loop ends only because it is told to stop or its source of events fails. -/
theorem ends_cases {x : LoopStep} (w : Watcher) (y : LoopSystem) (hrun : y.system.running = true)
    (hends : (y.step w x).system.running = false) :
    x = .turn ∧ y.rest = [] ∧ (y.told = true ∨ ∃ cause queue, y.queue = .failure cause :: queue) := by
  have hstays : (y.step w x).system ≠ y.system := by
    intro hsame
    rw [hsame, hrun] at hends
    cases hends
  cases x with
  | beside x hx =>
    rw [step, WatchSystem.beside_running w _ hx, hrun] at hends
    cases hends
  | start sourceFailure => simp [step, hrun] at hstays
  | arrive item => simp [step, hrun] at hstays
  | cancel => simp [step, hrun] at hstays
  | rearm => simp [step, hrun] at hstays
  | turn =>
    rw [step, if_pos hrun] at hends hstays
    obtain ⟨system, queue, rest, told⟩ := y
    cases rest with
    | cons o rest =>
      have hgoes := WatchSystem.operation_running w system o.1 o.2
      rw [show (system.step w (.operation o.1 o.2)).running = false from hends] at hgoes
      exact absurd (hgoes.trans hrun) Bool.false_ne_true
    | nil =>
      refine ⟨rfl, rfl, ?_⟩
      cases told with
      | true => exact .inl rfl
      | false =>
        cases queue with
        | nil => exact absurd rfl hstays
        | cons item queue =>
          cases item with
          | event e => exact absurd rfl hstays
          | failure cause => exact .inr ⟨cause, queue, rfl⟩

end LoopSystem

/-! ### Runs -/

namespace LoopRun

variable (r : LoopRun)

/-- The run if the client answers otherwise. -/
def answering (g : WatchCall → ℕ → Option ClientError) : LoopRun :=
  { r with client := r.client.answering g }

/-- The statistics of the `m`-th walk before the `n`-th step. -/
def walkStats (m n : ℕ) : OpenStats :=
  WatchSystem.walkStats r.watcher m r.initial.system {} (r.toWatchRun.steps.take n)

/-- The calls made to the client before the `n`-th step, each with its time. -/
def callsBefore (n : ℕ) : List (ℕ × WatchCall) :=
  (r.system n).system.state.client.calls

/-- How failures of the client are contained in a run. The run is compared with the runs that are the
same but for what the client answers. -/
structure FailuresContained (r : LoopRun) : Prop where
  /-- Whatever the client answers, nothing but the client is different: the loop, what is in line
  and what is pending, the subscriptions, and the files that walks have yet to visit. -/
  apart : ∀ g n, (r.system n).SameButClient ((r.answering g).system n)
  /-- The same files are visited, and the same are found to be watched. -/
  counted : ∀ g m n, (r.walkStats m n).SameFiles ((r.answering g).walkStats m n)
  /-- Answers to reports do not matter: the calls, their times, the open files and the statistics are
  the same if only such answers are different. -/
  reports : ∀ g, (∀ path n, (g (.open path) n).isNone = (r.client.failure? (.open path) n).isNone) →
    ∀ n, (r.answering g).system n = (r.system n).answering g ∧
      ∀ m, (r.answering g).walkStats m n = r.walkStats m n
  /-- The same holds up to the first opening that comes out otherwise. -/
  before : ∀ g n, WatchClient.AnsweredAlike r.client.failure? g (r.callsBefore n) →
    (r.answering g).system n = (r.system n).answering g ∧
      ∀ m, (r.answering g).walkStats m n = r.walkStats m n
  /-- That other files can or cannot be opened does not matter to a file: it is open or not and is
  called about as before. -/
  others : ∀ g path, (∀ q, Path.same path q = true → ∀ n,
      (g (.open q) n).isNone = (r.client.failure? (.open q) n).isNone) →
    ∀ n, ((r.answering g).system n).system.state.client.isOpen path =
        (r.system n).system.state.client.isOpen path ∧
      ((r.answering g).system n).system.state.client.callsAbout path =
        (r.system n).system.state.client.callsAbout path
  /-- An opening that fails leaves nothing but the record that it was tried. -/
  tried : ∀ n time path, ((r.system n).system.state.client.nextFailure? (.open path)).isSome →
    (r.system n).system.state.call time (.open path) =
      { (r.system n).system.state with
        client.calls := r.callsBefore n ++ [(time, .open path)] }
  /-- A walk over the whole workspace comes to its end, and counts the same whatever the client
  answers. -/
  walked : ∀ g n, ((r.system n).system.state.openAll r.watcher).2.scanned =
      ((r.system n).system.state.candidates r.watcher).length ∧
    ((r.system n).system.state.openAll r.watcher).2.SameFiles
      (((r.answering g).system n).system.state.openAll r.watcher).2
  /-- The loop ends at its turn, because it has been told to stop or its source has failed. -/
  ended : ∀ n, r.running n = true → r.running (n + 1) = false →
    r.steps[n]? = some .turn ∧ (r.system n).rest = [] ∧
      ((r.system n).told = true ∨ ∃ cause queue, (r.system n).queue = .failure cause :: queue)

variable {r}

theorem sameButClient_system (g : WatchCall → ℕ → Option ClientError) (n : ℕ) :
    (r.system n).SameButClient ((r.answering g).system n) :=
  (r.initial.sameButClient_answering g).run r.watcher (r.steps.take n)

theorem steps_answering (g : WatchCall → ℕ → Option ClientError) :
    (r.answering g).toWatchRun.steps = r.toWatchRun.steps :=
  (r.initial.sameButClient_answering g).moves_eq r.watcher r.steps

theorem system_answering {n : ℕ}
    (h : WatchClient.AnsweredAlike r.client.failure? g (r.callsBefore n)) :
    (r.answering g).system n = (r.system n).answering g ∧
      ∀ m, (r.answering g).walkStats m n = r.walkStats m n := by
  have hsystem (r : LoopRun) :
      (r.system n).system = r.initial.system.run r.watcher (r.toWatchRun.steps.take n) :=
    (r.system_toWatchRun n).symm
  rw [callsBefore, hsystem] at h
  obtain ⟨hrun, hstats⟩ := r.initial.system.run_answering r.watcher _ h
  constructor
  · apply (sameButClient_system g n).eq_answering
    rw [hsystem, hsystem, steps_answering]
    exact hrun
  · intro m
    rw [walkStats, walkStats, steps_answering]
    exact hstats m {}

theorem alikeFor_system {path : Path} (h : ∀ q, Path.same path q = true → ∀ n,
      (g (.open q) n).isNone = (r.client.failure? (.open q) n).isNone) (n : ℕ) :
    WatchSystem.AlikeFor path (r.system n).system ((r.answering g).system n).system := by
  have htidy : r.initial.system.Tidy := ⟨fun _ => rfl, nofun⟩
  have hinitial := r.initial.sameButClient_answering g
  refine hinitial.run_alikeFor ?_ htidy ⟨fun _ => rfl, nofun⟩ r.watcher (r.steps.take n)
  exact { hinitial.system with client := ⟨h, rfl, rfl⟩ }

/-- In every run failures of the client are contained. -/
theorem run_failuresContained (r : LoopRun) : FailuresContained r := by
  constructor
  case apart => exact sameButClient_system
  case counted =>
    intro g m n
    rw [walkStats, walkStats, steps_answering]
    exact (r.initial.sameButClient_answering g).system.walkStats r.watcher ⟨rfl, rfl⟩ m _
  case reports =>
    intro g hg n
    exact system_answering fun before _ path _ _ => hg path (before.countP (·.2 = .open path))
  case before => exact fun g n => system_answering
  case others =>
    intro g path hg n
    have halike := alikeFor_system hg n
    exact ⟨halike.client.isOpen, halike.client.calls⟩
  case tried =>
    intro n time path hfail
    rw [WatchState.call, WatchClient.send_open, Option.isNone_eq_false_iff.mpr hfail]
    rfl
  case walked =>
    intro g n
    refine ⟨?_, (sameButClient_system g n).system.state.openAll r.watcher⟩
    rw [WatchState.openAll, WatchState.scanned_openEach]
    exact Nat.zero_add _
  case ended =>
    intro n hrun hends
    cases hx : r.steps[n]? with
    | none =>
      rw [running, system_stay hx] at hends
      exact absurd (hends.symm.trans hrun) Bool.false_ne_true
    | some x =>
      rw [running, system_step hx] at hends
      obtain ⟨rfl, hrest, hwhy⟩ := LoopSystem.ends_cases r.watcher (r.system n) hrun hends
      exact ⟨rfl, hrest, hwhy⟩

end LoopRun

end WorkspaceLink
