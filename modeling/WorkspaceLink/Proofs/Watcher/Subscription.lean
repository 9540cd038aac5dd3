import Mathlib.Data.List.TakeWhile
import WorkspaceLink.Proofs.Watcher.Run

/-! Which directories a watcher subscribes. A start subscribes those that it lists, up to the first
that cannot be subscribed; later each is subscribed only when its own creation is handled. -/

namespace WorkspaceLink

theorem FileTree.isDir_of_isFile {t : FileTree} {path : Path} (h : t.isFile path = true) :
    t.isDir path = false := by
  rw [isFile] at h
  rw [isDir]
  split at h
  · next heq => rw [heq]
  · cases h

namespace WatchState

variable (w : Watcher) (s : WatchState)

/-- The directories that a start subscribes. -/
def startDirectories (sourceFailure : Option Text) : List Path :=
  if sourceFailure.isSome then []
  else ((s.directories? w).getD []).takeWhile fun dir => !s.unwatchable.any (Path.same dir)

theorem onOperation_subscribed (op : FileOperation) (path : Path) :
    (s.onOperation w op path).subscribed =
      s.subscribed ++ if op = .created ∧ s.subscribes w path then [path] else [] := by
  have hfile (s : WatchState) (hdir : s.files.isDir path = false) :
      (s.onCreated w path).subscribed = s.subscribed := by
    rw [onCreated_of_not_isDir w s hdir]
    split
    · rfl
    · cases s.registry.mask? path with
      | none => rfl
      | some mask =>
        dsimp only
        split <;> rfl
  have hremoved : (s.onRemoved w path).subscribed = s.subscribed := by
    rcases onRemoved_cases w s path with ⟨_, heq⟩ | ⟨_, heq⟩ <;> rw [heq]
    rfl
  cases op with
  | created =>
    cases hdir : s.files.isDir path with
    | true =>
      rw [onOperation, onCreated_of_isDir w s hdir]
      cases s.subscribes w path <;> simp
    | false =>
      have hnot : s.subscribes w path = false := by rw [subscribes, hdir]; rfl
      rw [onOperation, hfile s hdir, hnot]
      simp
  | written =>
    rw [onOperation]
    rcases onWritten_cases w s path with ⟨_, heq⟩ | ⟨_, heq⟩ <;> rw [heq] <;> simp [schedule]
  | removed =>
    rw [onOperation, hremoved]
    simp
  | renamed =>
    -- what has the name after a rename is a file, if it is handled as created
    rw [onOperation, onRenamed_eq]
    split
    · next hisFile =>
      have hdir := FileTree.isDir_of_isFile hisFile
      rw [← (onRemoved_effect w s path).files] at hdir
      rw [hfile _ hdir, hremoved]
      simp
    · rw [hremoved]
      simp

theorem subscribeAll_subscribed (dirs : List Path) :
    (s.subscribeAll dirs).1.subscribed =
      s.subscribed ++ dirs.takeWhile fun dir => !s.unwatchable.any (Path.same dir) := by
  induction dirs generalizing s with
  | nil => exact (List.append_nil _).symm
  | cons dir dirs ih =>
    rw [subscribeAll, subscribe?]
    cases hdir : s.unwatchable.any (Path.same dir) with
    | true => simp [hdir]
    | false =>
      have hrest := ih { s with subscribed := s.subscribed ++ [dir] }
      simpa [hdir] using hrest

theorem subscribeAll_eq_none_iff (dirs : List Path) :
    (s.subscribeAll dirs).2 = none ↔ ∀ dir ∈ dirs, s.unwatchable.any (Path.same dir) = false := by
  induction dirs generalizing s with
  | nil => exact iff_of_true rfl (List.forall_mem_nil _)
  | cons dir dirs ih =>
    have hrest := ih { s with subscribed := s.subscribed ++ [dir] }
    rw [subscribeAll, subscribe?, List.forall_mem_cons]
    cases s.unwatchable.any (Path.same dir) with
    | true => exact iff_of_false (Option.some_ne_none dir) fun h => Bool.noConfusion h.1
    | false => exact hrest.trans (and_iff_right rfl).symm

theorem start_subscribed (sourceFailure : Option Text) :
    (s.start w sourceFailure).subscribed = s.subscribed ++ s.startDirectories w sourceFailure := by
  unfold start startDirectories
  cases sourceFailure with
  | some cause => exact (List.append_nil _).symm
  | none =>
    cases s.directories? w with
    | none => exact (List.append_nil _).symm
    | some dirs =>
      have hall := s.subscribeAll_subscribed dirs
      dsimp only
      generalize s.subscribeAll dirs = result at hall ⊢
      obtain ⟨s', failed⟩ := result
      cases failed with
      | some dir => exact hall
      | none =>
        dsimp only
        split <;> exact hall

/-- A loop that has been started watches all directories of the workspace. -/
theorem startDirectories_of_running {sourceFailure : Option Text}
    (h : (s.start w sourceFailure).loop.isRunning = true) :
    s.directories? w = some (s.startDirectories w sourceFailure) := by
  unfold start at h
  unfold startDirectories
  cases sourceFailure with
  | some cause => cases h
  | none =>
    cases hdirs : s.directories? w with
    | none =>
      rw [hdirs] at h
      cases h
    | some dirs =>
      have hall := s.subscribeAll_eq_none_iff dirs
      rw [hdirs] at h
      dsimp only at h
      generalize s.subscribeAll dirs = result at h hall
      obtain ⟨s', failed⟩ := result
      cases failed with
      | some dir => cases h
      | none =>
        have hwatchable : ∀ dir ∈ dirs, (!s.unwatchable.any (Path.same dir)) = true := by
          intro dir hdir
          rw [hall.mp rfl dir hdir]
          rfl
        exact congrArg some (List.takeWhile_eq_self_iff.mpr hwatchable).symm

end WatchState

namespace WatchSystem

variable (w : Watcher) (y : WatchSystem)

/-- The directories that a step subscribes. -/
def newSubscriptions : WatchStep → List Path
  | .start sourceFailure => if y.running then [] else y.state.startDirectories w sourceFailure
  | .operation .created path => if y.running && y.state.subscribes w path then [path] else []
  | _ => []

theorem step_subscribed (x : WatchStep) :
    (y.step w x).state.subscribed = y.state.subscribed ++ y.newSubscriptions w x := by
  have hsignal := signal_frame w y (x := x)
  cases x with
  | start sourceFailure =>
    rw [step, newSubscriptions]
    split
    · exact (List.append_nil _).symm
    · exact y.state.start_subscribed w sourceFailure
  | operation op path =>
    have hop := y.state.onOperation_subscribed w op path
    rw [step]
    cases hrun : y.running with
    | false => cases op <;> simp [newSubscriptions, hrun]
    | true =>
      rw [if_pos rfl, hop]
      cases op <;> simp [newSubscriptions, hrun]
  | visit n =>
    rw [step]
    rcases y.visit_cases w n with ⟨_, heq⟩ | ⟨path, _, heq⟩ <;> rw [heq] <;>
      exact (List.append_nil _).symm
  | advance ms =>
    rw [step, WatchState.advance_eq]
    exact (List.append_nil _).symm
  | failSource _ | cancel | rearm =>
    obtain ⟨_, _, _, heq⟩ := hsignal rfl
    exact (congrArg (·.subscribed) heq).trans (List.append_nil _).symm
  | _ => exact (List.append_nil _).symm

end WatchSystem

namespace WatchRun

variable (r : WatchRun)

/-- The directories that are subscribed in the `n`-th step. -/
def subscribedAt (n : ℕ) : List Path :=
  (r.steps[n]?.map ((r.system n).newSubscriptions r.watcher)).getD []

variable {r}

/-- What is subscribed has been subscribed in an earlier step. -/
theorem mem_subscribed_iff {n : ℕ} {dir : Path} :
    dir ∈ (r.state n).subscribed ↔ ∃ m < n, dir ∈ r.subscribedAt m := by
  induction n with
  | zero => simp [state, system, WatchSystem.run]
  | succ n ih =>
    have hstep : (r.state (n + 1)).subscribed = (r.state n).subscribed ++ r.subscribedAt n := by
      rw [state, state, subscribedAt]
      cases hx : r.steps[n]? with
      | none =>
        rw [system_stay hx]
        exact (List.append_nil _).symm
      | some x =>
        rw [system_step hx]
        exact (r.system n).step_subscribed r.watcher x
    rw [hstep, List.mem_append, ih]
    constructor
    · rintro (⟨m, hm, hdir⟩ | hdir)
      · exact ⟨m, by omega, hdir⟩
      · exact ⟨n, by omega, hdir⟩
    · rintro ⟨m, hm, hdir⟩
      rcases Nat.lt_succ_iff_lt_or_eq.mp hm with hm | rfl
      · exact .inl ⟨m, hm, hdir⟩
      · exact .inr hdir

/-- A step that subscribes a directory starts the loop or handles the creation of the directory. -/
theorem mem_subscribedAt_iff {n : ℕ} {dir : Path} :
    dir ∈ r.subscribedAt n ↔
      (∃ sourceFailure, r.steps[n]? = some (.start sourceFailure) ∧ (r.system n).running = false ∧
        dir ∈ (r.state n).startDirectories r.watcher sourceFailure) ∨
      r.Handles n .created dir ∧ (r.state n).subscribes r.watcher dir = true := by
  rw [subscribedAt, state]
  constructor
  · intro h
    cases hx : r.steps[n]? with
    | none => simp [hx] at h
    | some x =>
      rw [hx] at h
      cases x with
      | start sourceFailure =>
        cases hrun : (r.system n).running with
        | true => simp [WatchSystem.newSubscriptions, hrun] at h
        | false =>
          refine .inl ⟨sourceFailure, rfl, rfl, ?_⟩
          simpa [WatchSystem.newSubscriptions, hrun] using h
      | operation op path =>
        cases op with
        | created =>
          simp only [WatchSystem.newSubscriptions, Option.map_some, Option.getD_some] at h
          split at h
          · next hadds =>
            obtain ⟨hrun, hsubscribes⟩ := Bool.and_eq_true_iff.mp hadds
            obtain rfl := List.mem_singleton.mp h
            exact .inr ⟨⟨hx, hrun⟩, hsubscribes⟩
          · cases h
        | _ => cases h
      | _ => cases h
  · rintro (⟨sourceFailure, hx, hrun, hdir⟩ | ⟨⟨hx, hrun⟩, hsubscribes⟩)
    · simpa [hx, WatchSystem.newSubscriptions, hrun] using hdir
    · simp [hx, WatchSystem.newSubscriptions, hrun, hsubscribes]

end WatchRun

end WorkspaceLink
