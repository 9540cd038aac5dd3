import WorkspaceLink.Proofs.Watcher.Step

/-! The larger operations of a watcher are runs of its steps, so that what holds of all runs holds
of them too: events that are handled together, and registrations with the walk that they start. -/

namespace WorkspaceLink.WatchSystem

variable (w : Watcher) (y : WatchSystem)

theorem run_append (steps more : List WatchStep) :
    y.run w (steps ++ more) = (y.run w steps).run w more := by
  simp only [run, List.foldl_append]

theorem run_running {steps : List WatchStep}
    (h : ∀ x ∈ steps, ∃ op path, x = .operation op path) : (y.run w steps).running = y.running := by
  induction steps generalizing y with
  | nil => rfl
  | cons x steps ih =>
    obtain ⟨op, path, rfl⟩ := h x List.mem_cons_self
    have hrest := ih (y.step w (.operation op path)) fun x hx => h x (List.mem_cons_of_mem _ hx)
    exact hrest.trans (operation_running w y op path)

/-! ### Events -/

/-- The operations of an event as steps. -/
def eventSteps (e : FileEvent) : List WatchStep :=
  e.operations.map fun (op, path) => .operation op path

theorem run_operations (ops : List (FileOperation × Path)) (hrun : y.running = true) :
    y.run w (ops.map fun (op, path) => .operation op path) =
      { y with state := ops.foldl (fun s (op, path) => s.onOperation w op path) y.state } := by
  induction ops generalizing y with
  | nil => rfl
  | cons o ops ih =>
    obtain ⟨op, path⟩ := o
    have hstep : y.step w (.operation op path) = { y with state := y.state.onOperation w op path } :=
      if_pos hrun
    have hrun' : (y.step w (.operation op path)).running = true :=
      (operation_running w y op path).trans hrun
    have hrest := ih _ hrun'
    rw [hstep] at hrest
    rw [List.map_cons, run, List.foldl_cons, hstep]
    exact hrest

theorem run_events (events : List FileEvent) (hrun : y.running = true) :
    y.run w (events.flatMap eventSteps) =
      { y with state := events.foldl (fun s e => s.onEvent w e) y.state } := by
  induction events generalizing y with
  | nil => rfl
  | cons e events ih =>
    have hevent : y.run w (eventSteps e) = { y with state := y.state.onEvent w e } :=
      run_operations w y e.operations hrun
    have hrun' : (y.run w (eventSteps e)).running = true := by
      rw [← hrun]
      apply run_running
      intro x hx
      obtain ⟨o, _, rfl⟩ := List.mem_map.mp hx
      exact ⟨o.1, o.2, rfl⟩
    have hrest := ih _ hrun'
    rw [hevent] at hrest
    rw [List.flatMap_cons, run_append, hevent]
    exact hrest

/-- Events that a running loop receives together are handled operation by operation; what is due at
once is sent after all of them. -/
theorem run_deliver (events : List FileEvent) (hrun : y.running = true) :
    y.run w (events.flatMap eventSteps ++ [.advance 0]) =
      { y with state := y.state.deliver w events } := by
  have hdeliver : y.state.deliver w events =
      (events.foldl (fun s e => s.onEvent w e) y.state).advance 0 := if_pos hrun
  rw [run_append, run_events w y events hrun, hdeliver]
  rfl

/-! ### Walks -/

/-- The steps of the `n`-th walk while it visits files, `scanned` files having been visited. After
each batch there is a pause. -/
def walkSteps (n scanned : ℕ) : List Path → List WatchStep
  | [] => []
  | _ :: paths =>
    .visit n ::
      (if (scanned + 1) % max w.settings.openBatchSize 1 = 0 then
        [.advance w.settings.openBatchPauseMs] else []) ++
      walkSteps n (scanned + 1) paths

/-- The statistics of the `n`-th walk after a step, if they are `stats` before it. -/
def countStep (n : ℕ) (stats : OpenStats) : WatchStep → OpenStats
  | .visit m =>
    match y.next? n with
    | some (_, path) =>
      if m = n then
        let counted := (y.state.openCandidate stats path).2
        { counted with scanned := counted.scanned + 1 }
      else stats
    | none => stats
  | _ => stats

/-- The statistics of the `n`-th walk after steps in turn. -/
def walkStats (w : Watcher) (n : ℕ) : WatchSystem → OpenStats → List WatchStep → OpenStats
  | _, stats, [] => stats
  | y, stats, x :: xs => walkStats w n (y.step w x) (y.countStep n stats x) xs

theorem walkStats_append (n : ℕ) (stats : OpenStats) (steps more : List WatchStep) :
    walkStats w n y stats (steps ++ more) =
      walkStats w n (y.run w steps) (walkStats w n y stats steps) more := by
  induction steps generalizing y stats with
  | nil => rfl
  | cons x steps ih => exact ih (y.step w x) (y.countStep n stats x)

variable {y} in
theorem countStep_visit {n : ℕ} {walk : BulkWalk} {path : Path} (stats : OpenStats)
    (hnext : y.next? n = some (walk, path)) :
    y.countStep n stats (.visit n) = y.state.count stats path := by
  rw [countStep, hnext]
  dsimp only
  rw [if_pos rfl, WatchState.openCandidate_eq]
  rfl

/-- The walk is ready when the steps begin, and again when the pause after a batch is over. -/
theorem run_walkSteps (n : ℕ) (paths : List Path) (resumes : ℕ) (stats : OpenStats)
    (hwalk : y.walks[n]? = some ⟨paths, stats.scanned, resumes⟩) (hready : resumes ≤ y.state.now) :
    ((y.run w (walkSteps w n stats.scanned paths)).state,
      walkStats w n y stats (walkSteps w n stats.scanned paths)) = y.state.openEach w stats paths := by
  induction paths generalizing y stats resumes with
  | nil => rfl
  | cons path paths ih =>
    have hlt : n < y.walks.length := (List.getElem?_eq_some_iff.mp hwalk).1
    have hnext := next?_eq_some_iff.mpr ⟨hwalk, hready, rfl⟩
    have hcount := countStep_visit stats hnext
    let walk := BulkWalk.goOn w ⟨path :: paths, stats.scanned, resumes⟩ y.state.now
    have hvisit : y.step w (.visit n) = ⟨y.state.request path, y.walks.set n walk⟩ :=
      visit_next w hnext
    -- the pause after the visit, if there is one, leads to the state that the loop goes on with
    let pause : List WatchStep :=
      if (stats.scanned + 1) % max w.settings.openBatchSize 1 = 0 then
        [.advance w.settings.openBatchPauseMs] else []
    let paused := (y.state.request path).pauseAfter w (stats.scanned + 1)
    have hpause : (y.step w (.visit n)).run w pause = ⟨paused, y.walks.set n walk⟩ := by
      rw [hvisit]
      simp only [pause, paused, WatchState.pauseAfter]
      split <;> rfl
    have huncounted (y : WatchSystem) (stats : OpenStats) : walkStats w n y stats pause = stats := by
      simp only [pause]
      split <;> rfl
    have hsteps : walkSteps w n stats.scanned (path :: paths) =
        .visit n :: (pause ++ walkSteps w n (stats.scanned + 1) paths) := rfl
    have hagain : walk.resumes ≤ paused.now := by
      have hnow : (y.state.request path).now = y.state.now := by
        obtain ⟨_, heq⟩ := y.state.request_frame path
        exact congrArg (·.now) heq
      simp only [walk, paused, BulkWalk.goOn, WatchState.pauseAfter]
      split
      · rw [WatchState.advance_eq, ← hnow]
        exact Nat.le_refl _
      · rw [hnow]
        exact hready
    have hrest := ih ⟨paused, y.walks.set n walk⟩ walk.resumes (y.state.count stats path)
      (List.getElem?_set_self hlt) hagain
    have hscanned : (y.state.count stats path).scanned = stats.scanned + 1 := rfl
    rw [hscanned] at hrest
    rw [hsteps, run, List.foldl_cons, walkStats, walkStats_append, huncounted, hcount, hpause]
    change (((y.step w (.visit n)).run w _).state, _) = _
    rw [run_append, hpause, hrest, WatchState.openEach_cons]

/-- The walk over all files of the workspace: the files are listed and visited in turn. -/
theorem run_openAll :
    ((y.run w (.beginWalk :: walkSteps w y.walks.length 0 (y.state.candidates w))).state,
      walkStats w y.walks.length y {}
        (.beginWalk :: walkSteps w y.walks.length 0 (y.state.candidates w))) =
      y.state.openAll w := by
  have hwalk : (y.step w .beginWalk).walks[y.walks.length]? =
      some { paths := y.state.candidates w } :=
    List.getElem?_concat_length
  exact run_walkSteps w (y.step w .beginWalk) y.walks.length _ 0 {} hwalk (Nat.zero_le _)

/-- A registration, with the walk that it starts if the settings ask for it. -/
theorem run_register (id : Text) (registrations : List WatchRegistration) :
    ∃ steps, (y.run w steps).state = (y.state.register w id registrations).1 := by
  let z := y.step w (.register id registrations)
  rw [WatchState.register]
  by_cases h : w.settings.openOnRegister = true
  · refine ⟨.register id registrations :: .beginWalk ::
      walkSteps w y.walks.length 0 (z.state.candidates w), ?_⟩
    rw [if_pos h]
    exact congrArg Prod.fst (run_openAll w z)
  · refine ⟨[.register id registrations], ?_⟩
    rw [if_neg h]
    rfl

end WorkspaceLink.WatchSystem
