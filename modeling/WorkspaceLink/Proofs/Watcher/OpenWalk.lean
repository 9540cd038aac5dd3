import WorkspaceLink.Proofs.Watcher.Visits

/-! The bulk open walk is exact. Of the files in its list it asks the client for those that are watched
and not open yet, for each of them once and in turn, and after each batch of files it pauses. A walk
that follows asks for nothing but what could not be opened. -/

namespace WorkspaceLink

namespace WatchState

variable {w : Watcher} {s : WatchState} {p : Path}

/-! ### The walk -/

/-- What a walk over files leads to from a state on, if it was begun at `start` and its statistics are
`stats` so far. -/
structure Walked (w : Watcher) (s : WatchState) (start : ℕ) (stats : OpenStats) (paths : List Path)
    (result : WatchState × OpenStats) : Prop where
  frame : ∃ debouncer client, result.1 = { s with debouncer, client }
  now : result.1.now = w.visitTime start (stats.scanned + paths.length)
  openings : result.1.client.openings = s.client.openings ++
    (w.visits start stats.scanned paths).filter fun visit => s.needsOpening visit.2
  isOpen : ∀ p, result.1.client.isOpen p =
    (s.client.isOpen p || (paths.filter s.opensAtVisit).any (Path.same p))
  stats : result.2 =
    { scanned := stats.scanned + paths.length
      matched := stats.matched + paths.countP s.isWatched
      opened := stats.opened + paths.countP s.opensAtVisit
      failed := stats.failed + paths.countP s.failsAtVisit }

theorem countP_cons_toNat (f : Path → Bool) (path : Path) (paths : List Path) :
    (path :: paths).countP f = (f path).toNat + paths.countP f := by
  rw [List.countP_cons, Nat.add_comm]
  cases f path <;> rfl

/-- A walk that goes on after the visit of a file, and the pause that may follow it, has come to that
file as well, if this is none of the files to come. -/
theorem Walked.of_visit {start : ℕ} {stats : OpenStats} {path : Path} {paths : List Path}
    {result : WatchState × OpenStats} (hnow : s.now = w.visitTime start stats.scanned)
    (hother : ∀ q ∈ paths, Path.same q path = false)
    (h : Walked w ((s.request path).pauseAfter w (stats.scanned + 1)) start (s.count stats path)
      paths result) :
    Walked w s start stats (path :: paths) result := by
  -- to the files to come nothing has changed
  have halike : ∀ q ∈ paths,
      VisitedAlike q s ((s.request path).pauseAfter w (stats.scanned + 1)) := by
    intro q hq
    apply (s.visitedAlike_request (hother q hq)).trans
    exact visitedAlike_pauseAfter w _ _ q
  have hframe : ∃ debouncer client, (s.request path).pauseAfter w (stats.scanned + 1) =
      { s with debouncer, client } := by
    obtain ⟨_, hasked⟩ := s.request_frame path
    obtain ⟨debouncer, client, hpaused⟩ := (s.request path).pauseAfter_frame w (stats.scanned + 1)
    exact ⟨debouncer, client, hpaused.trans (by rw [hasked])⟩
  have hopenings := openings_pauseAfter w (s.request path) (stats.scanned + 1)
  have hopen (p : Path) :=
    (visitedAlike_pauseAfter w (s.request path) (stats.scanned + 1) p).isOpen
  generalize (s.request path).pauseAfter w (stats.scanned + 1) = next at *
  constructor
  case frame =>
    obtain ⟨_, _, rfl⟩ := hframe
    obtain ⟨debouncer, client, hrest⟩ := h.frame
    exact ⟨debouncer, client, hrest⟩
  case now => rw [h.now, count, List.length_cons, Nat.add_assoc, Nat.add_comm 1]
  case openings =>
    have hneeds := w.filter_visits_congr start (stats.scanned + 1)
      fun q hq => (halike q hq).needsOpening
    calc result.1.client.openings
        = next.client.openings ++ (w.visits start (stats.scanned + 1) paths).filter
            fun visit => next.needsOpening visit.2 := h.openings
      _ = s.client.openings ++ ((if s.needsOpening path then [(s.now, path)] else []) ++
            (w.visits start (stats.scanned + 1) paths).filter
              fun visit => s.needsOpening visit.2) := by
          rw [hneeds, hopenings, openings_request, List.append_assoc]
      _ = s.client.openings ++ (w.visits start stats.scanned (path :: paths)).filter
            fun visit => s.needsOpening visit.2 := by
          rw [w.visits_cons, List.filter_cons, hnow]
          split <;> rfl
  case isOpen =>
    intro p
    have hopens : paths.filter next.opensAtVisit = paths.filter s.opensAtVisit :=
      List.filter_congr fun q hq => (halike q hq).opensAtVisit
    rw [h.isOpen, hopens, hopen, isOpen_request, List.filter_cons, Bool.or_assoc]
    cases s.opensAtVisit path <;> simp
  case stats =>
    have hcount {f g : Path → Bool} (h : ∀ q ∈ paths, f q = g q) :
        paths.countP f = paths.countP g :=
      List.countP_congr fun q hq => by rw [h q hq]
    rw [h.stats, count, hcount fun q hq => (halike q hq).isWatched,
      hcount fun q hq => (halike q hq).opensAtVisit, hcount fun q hq => (halike q hq).failsAtVisit]
    simp only [countP_cons_toNat, List.length_cons, OpenStats.mk.injEq]
    omega

theorem openEach_walked {start : ℕ} {stats : OpenStats} {paths : List Path}
    (hpaths : Path.Distinct paths) (hnow : s.now = w.visitTime start stats.scanned) :
    Walked w s start stats paths (s.openEach w stats paths) := by
  induction paths generalizing s stats with
  | nil =>
    refine ⟨⟨_, _, rfl⟩, hnow, (List.append_nil _).symm, fun p => ?_, rfl⟩
    exact (Bool.or_false _).symm
  | cons path paths ih =>
    obtain ⟨hother, hpaths⟩ := List.pairwise_cons.mp hpaths
    have hasked : (s.request path).now = s.now := by
      obtain ⟨client, hasked⟩ := s.request_frame path
      rw [hasked]
      rfl
    rw [openEach_cons]
    apply Walked.of_visit hnow hother
    apply ih hpaths
    exact now_pauseAfter w _ start stats.scanned (hasked.trans hnow)

theorem walked_openEach (w : Watcher) (s : WatchState) {paths : List Path}
    (hpaths : Path.Distinct paths) : Walked w s s.now {} paths (s.openEach w {} paths) := by
  apply openEach_walked hpaths
  rw [Watcher.visitTime, w.pausesAfter_zero, Nat.zero_mul]
  rfl

/-- A file that is asked for is opened or fails to be. -/
theorem toNat_needsOpening (s : WatchState) (path : Path) : (s.needsOpening path).toNat =
    (s.opensAtVisit path).toNat + (s.failsAtVisit path).toNat := by
  rw [opensAtVisit, failsAtVisit]
  cases s.needsOpening path <;> cases s.failsToOpen path <;> rfl

theorem countP_needsOpening (s : WatchState) (paths : List Path) : paths.countP s.needsOpening =
    paths.countP s.opensAtVisit + paths.countP s.failsAtVisit := by
  induction paths with
  | nil => rfl
  | cons path paths ih =>
    simp only [countP_cons_toNat, ih, toNat_needsOpening]
    omega

/-- After a walk those of its files need to be opened that it could not open. -/
theorem Walked.needsOpening {start : ℕ} {stats : OpenStats} {paths : List Path}
    {result : WatchState × OpenStats} (h : Walked w s start stats paths result)
    (hpaths : Path.Distinct paths) (hp : p ∈ paths) :
    result.1.needsOpening p = s.failsAtVisit p := by
  have hwatched : result.1.isWatched p = s.isWatched p := by
    obtain ⟨debouncer, client, hframe⟩ := h.frame
    rw [hframe]
    rfl
  have hopen : result.1.client.isOpen p = (s.client.isOpen p || s.opensAtVisit p) := by
    rw [h.isOpen, hpaths.any_filter hp]
  rw [WatchState.needsOpening, hwatched, hopen, opensAtVisit, failsAtVisit, WatchState.needsOpening]
  cases s.isWatched p <;> cases s.client.isOpen p <;> cases s.failsToOpen p <;> rfl

end WatchState

/-! ### Steps -/

namespace WatchStep

/-- Whether time passes in a step. -/
def isPause : WatchStep → Bool
  | advance _ => true
  | _ => false

/-- Whether a step is a visit of the `n`-th walk. -/
def isVisit (n : ℕ) : WatchStep → Bool
  | visit m => m = n
  | _ => false

end WatchStep

namespace WatchSystem

variable {w : Watcher} {n : ℕ}

theorem countP_walkSteps (w : Watcher) (n visited : ℕ) (paths : List Path) :
    w.pausesAfter visited + (walkSteps w n visited paths).countP WatchStep.isPause =
      w.pausesAfter (visited + paths.length) := by
  induction paths generalizing visited with
  | nil => rfl
  | cons path paths ih =>
    have hpause : (if (visited + 1) % max w.settings.openBatchSize 1 = 0 then
        [WatchStep.advance w.settings.openBatchPauseMs] else []).countP WatchStep.isPause =
        if (visited + 1) % max w.settings.openBatchSize 1 = 0 then 1 else 0 := by
      split <;> rfl
    have hsteps : (walkSteps w n visited (path :: paths)).countP WatchStep.isPause =
        (if (visited + 1) % max w.settings.openBatchSize 1 = 0 then 1 else 0) +
          (walkSteps w n (visited + 1) paths).countP WatchStep.isPause := by
      rw [walkSteps, List.cons_append, List.countP_cons_of_neg Bool.false_ne_true,
        List.countP_append, hpause]
    calc w.pausesAfter visited + (walkSteps w n visited (path :: paths)).countP WatchStep.isPause
        = w.pausesAfter (visited + 1) +
            (walkSteps w n (visited + 1) paths).countP WatchStep.isPause := by
          rw [hsteps, w.pausesAfter_succ, Nat.add_assoc]
      _ = w.pausesAfter (visited + 1 + paths.length) := ih (visited + 1)
      _ = w.pausesAfter (visited + (path :: paths).length) := by
          rw [List.length_cons, Nat.add_assoc, Nat.add_comm 1]

/-- The files that the `n`-th walk asks for in steps, which may be those of others too. -/
def walkRequests (w : Watcher) (n : ℕ) : WatchSystem → List WatchStep → List Path
  | _, [] => []
  | y, x :: xs =>
    (if x.isVisit n then y.visited? n else none).toList ++ walkRequests w n (y.step w x) xs

/-- Whether, but for the visits of the `n`-th walk, steps change neither which of some files are
watched nor which are open. -/
def Undisturbed (w : Watcher) (n : ℕ) (paths : List Path) : WatchSystem → List WatchStep → Prop
  | _, [] => True
  | y, x :: xs =>
    (x.isVisit n = false → WatchState.SameNeeds paths y.state (y.step w x).state) ∧
      Undisturbed w n paths (y.step w x) xs

/-- A step beside a walk does not show in the walk, nor in its statistics. -/
theorem step_beside {x : WatchStep} {walk : BulkWalk} (w : Watcher) (y : WatchSystem)
    (hx : x.isVisit n = false) (hwalk : y.walks[n]? = some walk) (stats : OpenStats) :
    (y.step w x).walks[n]? = some walk ∧ y.countStep n stats x = stats := by
  cases x with
  | visit m =>
    have hmn : m ≠ n := by simpa [WatchStep.isVisit] using hx
    constructor
    · rw [step, visit]
      split
      · rw [List.getElem?_set_ne hmn, hwalk]
      · exact hwalk
    · rw [countStep]
      split
      · exact if_neg hmn
      · rfl
  | beginWalk =>
    have hlt := (List.getElem?_eq_some_iff.mp hwalk).1
    exact ⟨(List.getElem?_append_left hlt).trans hwalk, rfl⟩
  | start sourceFailure =>
    refine ⟨?_, rfl⟩
    rw [step]
    split <;> exact hwalk
  | operation op path =>
    refine ⟨?_, rfl⟩
    rw [step]
    split <;> exact hwalk
  | rearm =>
    refine ⟨?_, rfl⟩
    rw [step]
    split <;> exact hwalk
  | _ => exact ⟨hwalk, rfl⟩

/-- What a walk has done in steps if it has visited some files in them. -/
structure WalkedBeside (w : Watcher) (n : ℕ) (y : WatchSystem) (stats : OpenStats)
    (steps : List WatchStep) (visited : List Path) : Prop where
  requests : walkRequests w n y steps = visited.filter y.state.needsOpening
  scanned : (walkStats w n y stats steps).scanned = stats.scanned + visited.length
  matched : (walkStats w n y stats steps).matched =
    stats.matched + visited.countP y.state.isWatched
  called : (walkStats w n y stats steps).opened + (walkStats w n y stats steps).failed =
    stats.opened + stats.failed + visited.countP y.state.needsOpening

/-- A walk visits the same files if a step comes first in which it asks for none and counts none. -/
theorem WalkedBeside.of_beside {y : WatchSystem} {x : WatchStep} {steps : List WatchStep}
    {stats : OpenStats} {visited : List Path}
    (h : WalkedBeside w n (y.step w x) stats steps visited)
    (hasks : (if x.isVisit n then y.visited? n else none) = none)
    (hcount : y.countStep n stats x = stats)
    (hsame : WatchState.SameNeeds visited y.state (y.step w x).state) :
    WalkedBeside w n y stats (x :: steps) visited := by
  have hstats : walkStats w n y stats (x :: steps) = walkStats w n (y.step w x) stats steps := by
    rw [walkStats, hcount]
  constructor
  case requests =>
    rw [walkRequests, hasks, h.requests, hsame.filter_needsOpening]
    rfl
  case scanned => rw [hstats, h.scanned]
  case matched => rw [hstats, h.matched, hsame.countP_isWatched]
  case called => rw [hstats, h.called, hsame.countP_needsOpening]

/-- A walk visits one more file if a visit of it comes first. -/
theorem WalkedBeside.of_visit {y : WatchSystem} {steps : List WatchStep} {stats : OpenStats}
    {walk : BulkWalk} {path : Path} {visited : List Path}
    (h : WalkedBeside w n (y.step w (.visit n)) (y.countStep n stats (.visit n)) steps visited)
    (hnext : y.next? n = some (walk, path))
    (hsame : WatchState.SameNeeds visited y.state (y.step w (.visit n)).state) :
    WalkedBeside w n y stats (.visit n :: steps) (path :: visited) := by
  have hvisit : WatchStep.isVisit n (.visit n) = true := decide_eq_true rfl
  have hstats : walkStats w n y stats (.visit n :: steps) =
      walkStats w n (y.step w (.visit n)) (y.countStep n stats (.visit n)) steps := rfl
  have hcount := countStep_visit stats hnext
  constructor
  case requests =>
    rw [walkRequests, hvisit, h.requests, hsame.filter_needsOpening, if_pos rfl, visited?_next hnext,
      List.filter_cons]
    split <;> rfl
  case scanned =>
    rw [hstats, h.scanned, hcount, List.length_cons, WatchState.count, Nat.add_assoc, Nat.add_comm 1]
  case matched =>
    rw [hstats, h.matched, hcount, hsame.countP_isWatched, WatchState.countP_cons_toNat,
      WatchState.count, Nat.add_assoc]
  case called =>
    rw [hstats, h.called, hcount, hsame.countP_needsOpening, WatchState.countP_cons_toNat,
      WatchState.toNat_needsOpening, WatchState.count]
    dsimp only
    omega

/-- What a walk has visited after steps is what it had yet to visit, up to what is left. -/
theorem run_walkedBeside {y : WatchSystem} {all : List Path} {walk : BulkWalk}
    {steps : List WatchStep} (stats : OpenStats) (hwalk : y.walks[n]? = some walk)
    (hpaths : Path.Distinct walk.paths) (hall : walk.paths ⊆ all) (h : Undisturbed w n all y steps) :
    ∃ visited walk', walk.paths = visited ++ walk'.paths ∧ (y.run w steps).walks[n]? = some walk' ∧
      WalkedBeside w n y stats steps visited := by
  -- `all` stays as it is, while the walk has fewer and fewer paths left
  induction steps generalizing y stats walk with
  | nil => exact ⟨[], walk, rfl, hwalk, rfl, rfl, rfl, rfl⟩
  | cons x steps ih =>
    obtain ⟨hbeside, h⟩ := h
    cases hx : x.isVisit n with
    | false =>
      obtain ⟨hwalk', hcount⟩ := y.step_beside w hx hwalk stats
      obtain ⟨visited, rest, hsplit, hrest, hwalked⟩ := ih stats hwalk' hpaths hall h
      have hsame : WatchState.SameNeeds visited y.state (y.step w x).state := by
        intro p hp
        exact hbeside hx p (hall (hsplit ▸ List.mem_append_left _ hp))
      exact ⟨visited, rest, hsplit, hrest, hwalked.of_beside (by simp [hx]) hcount hsame⟩
    | true =>
      obtain rfl : x = .visit n := by
        cases x with
        | visit m => rw [of_decide_eq_true hx]
        | _ => cases hx
      cases hnext : y.next? n with
      | none =>
        -- the walk has come to its end, or pauses
        have hstep : y.step w (.visit n) = y := by rw [step, visit, hnext]
        have hnone : y.visited? n = none := by rw [visited?, hnext]
        have hcount : y.countStep n stats (.visit n) = stats := by rw [countStep, hnext]
        obtain ⟨visited, rest, hsplit, hrest, hwalked⟩ :=
          ih stats (by rw [hstep, hwalk]) hpaths hall h
        refine ⟨visited, rest, hsplit, hrest, hwalked.of_beside (by simp [hnone]) hcount ?_⟩
        rw [hstep]
        exact fun p _ => ⟨rfl, rfl⟩
      | some next =>
        obtain ⟨hthis, -, hhead⟩ := next?_eq_some_iff.mp hnext
        obtain rfl : walk = next.1 := Option.some.inj (hwalk.symm.trans hthis)
        have hcons : next.1.paths = next.2 :: next.1.paths.tail := List.eq_cons_of_mem_head? hhead
        rw [hcons] at hpaths
        obtain ⟨hother, hpaths⟩ := List.pairwise_cons.mp hpaths
        have hlt := (List.getElem?_eq_some_iff.mp hwalk).1
        have hstep : y.step w (.visit n) =
            ⟨y.state.request next.2, y.walks.set n (next.1.goOn w y.state.now)⟩ :=
          visit_next w hnext
        have hwalk' : (y.step w (.visit n)).walks[n]? = some (next.1.goOn w y.state.now) := by
          rw [hstep]
          exact List.getElem?_set_self hlt
        obtain ⟨visited, rest, hsplit, hrest, hwalked⟩ :=
          ih (y.countStep n stats (.visit n)) hwalk' hpaths
            (fun p hp => hall (List.mem_of_mem_tail hp)) h
        have hsplit : next.1.paths.tail = visited ++ rest.paths := hsplit
        have hsame : WatchState.SameNeeds visited y.state (y.step w (.visit n)).state := by
          intro p hp
          have halike := y.state.visitedAlike_request
            (hother p (hsplit ▸ List.mem_append_left _ hp))
          rw [hstep]
          exact ⟨halike.isWatched, halike.isOpen⟩
        refine ⟨next.2 :: visited, rest, ?_, hrest, hwalked.of_visit hnext hsame⟩
        rw [hcons, hsplit, List.cons_append]

end WatchSystem

/-! ### The result -/

namespace WatchState

/-- How a walk over files comes out. The registrations, the files that are open and what the client
answers are those of the state that it begins in. -/
structure ExactWalk (w : Watcher) (s : WatchState) (paths : List Path)
    (result : WatchState × OpenStats) : Prop where
  /-- Nothing but the client and what is pending changes. -/
  frame : ∃ debouncer client, result.1 = { s with debouncer, client }
  /-- The client is asked to open the files that are watched and not open yet, each once and in turn
  and when it is visited, and no others. -/
  openings : result.1.client.openings =
    s.client.openings ++ (w.visits s.now 0 paths).filter fun visit => s.needsOpening visit.2
  scanned : result.2.scanned = paths.length
  matched : result.2.matched = paths.countP s.isWatched
  failed : result.2.failed = paths.countP s.failsAtVisit
  /-- What is counted as opened or failed is the calls. -/
  called : result.1.client.openings.length =
    s.client.openings.length + (result.2.opened + result.2.failed)
  /-- The walk is one that goes step by step: it visits a file after the other, and time passes as
  many times as there are full batches. -/
  pauses : ∀ walks n, walks[n]? = some { paths } →
    ((WatchSystem.run w ⟨s, walks⟩ (WatchSystem.walkSteps w n 0 paths)).state,
      WatchSystem.walkStats w n ⟨s, walks⟩ {} (WatchSystem.walkSteps w n 0 paths)) = result ∧
    (WatchSystem.walkSteps w n 0 paths).countP WatchStep.isPause =
      paths.length / max w.settings.openBatchSize 1
  /-- There is no delay but the pauses. -/
  clock : result.1.now = s.now +
    paths.length / max w.settings.openBatchSize 1 * w.settings.openBatchPauseMs
  /-- Other things may happen between the visits. So long as they change neither which of the files
  are watched nor which are open, the walk has asked for the same files when it comes to its end. -/
  beside : ∀ walks n steps, walks[n]? = some { paths } →
    WatchSystem.Undisturbed w n paths ⟨s, walks⟩ steps →
    (WatchSystem.run w ⟨s, walks⟩ steps).walks[n]?.map (·.paths) = some [] →
    WatchSystem.WalkedBeside w n ⟨s, walks⟩ {} steps paths
  /-- If the same files are watched and open as after the walk, another one asks for those, in turn,
  that the first could not open. -/
  again : ∀ s', SameNeeds paths result.1 s' →
    (s'.openEach w {} paths).1.client.openings =
      s'.client.openings ++ (w.visits s'.now 0 paths).filter fun visit => s.failsAtVisit visit.2
  /-- If all could be opened, another one asks for nothing. -/
  settled : result.2.failed = 0 → ∀ s', SameNeeds paths result.1 s' →
    (s'.openEach w {} paths).1.client.openings = s'.client.openings ∧
      (s'.openEach w {} paths).2.opened = 0
  /-- The walk over the whole workspace is that over its files. -/
  whole : s.candidates w = paths → s.openAll w = result

/-- A walk over distinct files is exact. -/
theorem openEach_exact (w : Watcher) (s : WatchState) {paths : List Path}
    (hpaths : Path.Distinct paths) : ExactWalk w s paths (s.openEach w {} paths) := by
  have hwalk (s : WatchState) := walked_openEach w s hpaths
  have hstats (s : WatchState) : (s.openEach w {} paths).2 = ⟨paths.length, paths.countP s.isWatched,
      paths.countP s.opensAtVisit, paths.countP s.failsAtVisit⟩ := by
    rw [(hwalk s).stats]
    simp only [Nat.zero_add]
  have hneeds {s' : WatchState} (hsame : SameNeeds paths (s.openEach w {} paths).1 s') :
      ∀ p ∈ paths, s'.needsOpening p = s.failsAtVisit p := by
    intro p hp
    rw [hsame.needsOpening hp, (hwalk s).needsOpening hpaths hp]
  have hagain {s' : WatchState} (hsame : SameNeeds paths (s.openEach w {} paths).1 s') :
      (s'.openEach w {} paths).1.client.openings = s'.client.openings ++
        (w.visits s'.now 0 paths).filter fun visit => s.failsAtVisit visit.2 := by
    rw [(hwalk s').openings, w.filter_visits_congr _ _ (hneeds hsame)]
  constructor
  case frame => exact (hwalk s).frame
  case openings => exact (hwalk s).openings
  case scanned => rw [hstats]
  case matched => rw [hstats]
  case failed => rw [hstats]
  case called =>
    rw [(hwalk s).openings, List.length_append, w.length_filter_visits, countP_needsOpening, hstats]
  case pauses =>
    intro walks n hwalks
    have hcount := WatchSystem.countP_walkSteps w n 0 paths
    rw [w.pausesAfter_zero, Nat.zero_add, Nat.zero_add] at hcount
    have hrun := WatchSystem.run_walkSteps w ⟨s, walks⟩ n paths 0 {} hwalks (Nat.zero_le _)
    exact ⟨hrun, hcount⟩
  case clock => rw [(hwalk s).now, Watcher.visitTime, Watcher.pausesAfter, Nat.zero_add]
  case beside =>
    intro walks n steps hwalks hundisturbed hend
    obtain ⟨visited, rest, hsplit, hrest, hwalked⟩ :=
      WatchSystem.run_walkedBeside {} hwalks hpaths (List.Subset.refl paths) hundisturbed
    rw [hrest] at hend
    have hnone : rest.paths = [] := Option.some.inj hend
    rw [hnone, List.append_nil] at hsplit
    obtain rfl : paths = visited := hsplit
    exact hwalked
  case again => exact fun s' => hagain
  case settled =>
    intro hfailed s' hsame
    have hnone : paths.countP s.failsAtVisit = 0 := by
      rw [hstats] at hfailed
      exact hfailed
    constructor
    -- no file has to be asked for again, so that none is opened either
    · have hvisits := w.length_filter_visits s'.now 0 paths s.failsAtVisit
      rw [hagain hsame, List.eq_nil_of_length_eq_zero (hvisits.trans hnone), List.append_nil]
    · have hasked : paths.countP s'.needsOpening = paths.countP s.failsAtVisit :=
        List.countP_congr fun p hp => by rw [hneeds hsame p hp]
      rw [countP_needsOpening, hnone] at hasked
      rw [hstats]
      exact (Nat.add_eq_zero_iff.mp hasked).1
  case whole =>
    rintro rfl
    rfl

/-- A watcher that pauses for 100 ms after every second file. -/
def pairWatcher : Watcher :=
  ⟨"/ws", .ofSettings ⟨.dir [("ws", .dir [])]⟩ "/ws" .default,
    { WatchSettings.default with openBatchSize := 2, openBatchPauseMs := 100 }⟩

/-- A workspace of which one file is open and another cannot be opened. -/
def partlyOpen : WatchState where
  files := ⟨.dir [("ws", .dir [("a.go", .file .empty), ("b.go", .file .empty),
    ("c.txt", .file .empty), ("d.go", .file .empty), ("e.go", .file .empty)])]⟩
  registry := ⟨[⟨"go", ⟨none, "**/*.go"⟩, none⟩]⟩
  client :=
    { opened := ["/ws/b.go"]
      failure? := fun call _ => if call = .open "/ws/d.go" then some (.io "busy") else none }

/-- The walk pauses twice. It asks for three of the five files, and a second walk would ask for one. -/
theorem partlyOpen_exact :
    Path.Distinct (partlyOpen.candidates pairWatcher) ∧
      ExactWalk pairWatcher partlyOpen (partlyOpen.candidates pairWatcher)
        (partlyOpen.openAll pairWatcher) ∧
      (partlyOpen.openAll pairWatcher).1.client.openings =
        [(0, "/ws/a.go".toList), (100, "/ws/d.go".toList), (200, "/ws/e.go".toList)] ∧
      (partlyOpen.candidates pairWatcher).filter partlyOpen.failsAtVisit = ["/ws/d.go"] := by
  have hpaths : Path.Distinct (partlyOpen.candidates pairWatcher) := by
    rw [Path.Distinct]
    decide +kernel
  refine ⟨hpaths, openEach_exact pairWatcher partlyOpen hpaths, ?_, ?_⟩
  · decide +kernel
  · decide +kernel

end WatchState

end WorkspaceLink
