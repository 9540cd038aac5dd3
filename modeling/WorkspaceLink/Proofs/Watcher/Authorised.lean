import WorkspaceLink.Proofs.Watcher.Run

/-! Every call to the client is authorised: by the rules of exclusion, and by the registrations at
the moment of the call or, for a report that had to wait, when its event was handled. -/

namespace WorkspaceLink

/-! ### Walks -/

namespace WatchSystem

variable (w : Watcher) (y : WatchSystem)

/-- No walk is going to visit a file whose path is excluded. -/
def WalksIncluded : Prop :=
  ∀ walk ∈ y.walks, ∀ path ∈ walk.paths, w.policy.excludesPath path = false

theorem excludesPath_of_excludesFile {policy : ExclusionPolicy} {files : FileTree} {path : Path}
    (h : policy.excludesFile files path = false) : policy.excludesPath path = false :=
  (Bool.or_eq_false_iff.mp h).1

variable {w y} in
theorem step_walksIncluded (hy : y.WalksIncluded w) (x : WatchStep) :
    (y.step w x).WalksIncluded w := by
  cases x with
  | beginWalk =>
    intro walk hwalk path hpath
    rcases List.mem_append.mp hwalk with h | h
    · exact hy walk h path hpath
    · obtain rfl := List.mem_singleton.mp h
      have hincluded := (List.mem_filter.mp hpath).2
      exact excludesPath_of_excludesFile (by simpa using hincluded)
  | visit n =>
    -- a visit leaves the walks as they are, or takes the first file off one of them
    rw [step, visit]
    split
    · next walk path hnext =>
      obtain ⟨hwalk, -⟩ := next?_eq_some_iff.mp hnext
      intro walk' hwalk' q hq
      rcases List.mem_or_eq_of_mem_set hwalk' with h | rfl
      · exact hy walk' h q hq
      · exact hy walk (List.mem_of_getElem? hwalk) q (List.mem_of_mem_tail hq)
    · exact hy
  | start sourceFailure =>
    rw [step]
    split <;> exact hy
  | operation op path =>
    rw [step]
    split <;> exact hy
  | rearm =>
    rw [step]
    split <;> exact hy
  | _ => exact hy

end WatchSystem

namespace WatchRun

variable (r : WatchRun) {n : ℕ} {path : Path}

theorem system_walksIncluded (n : ℕ) : (r.system n).WalksIncluded r.watcher := by
  induction n with
  | zero => intro walk hwalk; cases hwalk
  | succ n ih =>
    cases hx : r.steps[n]? with
    | none => rw [system_stay hx]; exact ih
    | some x => rw [system_step hx]; exact WatchSystem.step_walksIncluded ih x

/-! ### Calls -/

/-- A report that is sent in the `n`-th step stems from an event that the loop handled before, in
the `i`-th: then the registrations asked for it, and the file was not excluded. -/
structure Stems (i n time : ℕ) (path : Path) (change : FileChange) : Prop where
  lt : i < n
  handled : r.CallsFor i path change
  wanted : (r.state i).wants path change = true
  included : r.watcher.policy.excludesFile (r.state i).files path = false
  delayed : time = r.due i

/-- What authorises a call that is made in the `n`-th step. -/
def Authorised (n time : ℕ) : WatchCall → Prop
  | .open path =>
    r.watcher.policy.excludesPath path = false ∧ ((r.state n).registry.mask? path).isSome = true
  | .change path =>
    r.watcher.policy.excludesPath path = false ∧ ∃ i, r.Stems i n time path .changed
  | .watched uri change =>
    ∃ path, uri = .ofPath path ∧ r.watcher.policy.excludesPath path = false ∧
      if change = .deleted then (r.state n).wants path .deleted = true
      else ∃ i, r.Stems i n time path change

variable {r}

theorem Opens.authorised (h : r.Opens n path) :
    r.watcher.policy.excludesPath path = false ∧
      ((r.state n).registry.mask? path).isSome = true := by
  cases h with
  | handled op h hopens =>
    simp only [WatchState.opens, Bool.and_eq_true, Bool.not_eq_true'] at hopens
    exact ⟨WatchSystem.excludesPath_of_excludesFile hopens.2, hopens.1.2⟩
  | visited m hx h =>
    rw [WatchSystem.visited?] at h
    split at h
    · next walk p hnext =>
      split at h
      · cases h
      · next hmask =>
        obtain rfl := Option.some.inj h
        obtain ⟨hwalk, -, hp⟩ := WatchSystem.next?_eq_some_iff.mp hnext
        have hincluded := r.system_walksIncluded n walk (List.mem_of_getElem? hwalk) p
          (List.mem_of_head? hp)
        simp only [Bool.or_eq_true, not_or, Option.isNone_iff_eq_none] at hmask
        exact ⟨hincluded, Option.isSome_iff_ne_none.mpr hmask.1⟩
    · cases h

theorem GoesOff.stems {i : ℕ} {change : FileChange} (h : r.GoesOff i n path change)
    (hc : change ≠ .deleted) : r.Stems i n (r.due i) path change := by
  obtain ⟨op, _, hcalls⟩ := h.called
  cases change with
  | created =>
    simp only [WatchState.callsFor, Bool.and_eq_true, Bool.not_eq_true'] at hcalls
    exact ⟨h.lt, h.called, hcalls.1.2, hcalls.2, rfl⟩
  | changed =>
    simp only [WatchState.callsFor, Bool.and_eq_true, Bool.not_eq_true'] at hcalls
    exact ⟨h.lt, h.called, hcalls.1.2, hcalls.2, rfl⟩
  | deleted => exact absurd rfl hc

theorem CallsFor.deleted_authorised (h : r.CallsFor n path .deleted) :
    r.watcher.policy.excludesPath path = false ∧ (r.state n).wants path .deleted = true := by
  obtain ⟨op, _, hcalls⟩ := h
  simp only [WatchState.callsFor, Bool.and_eq_true, Bool.not_eq_true'] at hcalls
  exact ⟨hcalls.2, hcalls.1.2⟩

/-- Every call of every run is authorised. -/
theorem run_authorised (r : WatchRun) (n time : ℕ) (call : WatchCall)
    (h : (time, call) ∈ r.callsAt n) : r.Authorised n time call := by
  cases mem_callsAt_iff.mp h with
  | opens hopens => exact hopens.authorised
  | deleted hdeleted =>
    obtain ⟨hincluded, hwanted⟩ := hdeleted.deleted_authorised
    exact ⟨_, rfl, hincluded, by rw [if_pos rfl]; exact hwanted⟩
  | @due i path change hc hgo =>
    -- what made the event call for a report is what authorises it
    have hstems := hgo.stems hc
    have hincluded := WatchSystem.excludesPath_of_excludesFile hstems.included
    rw [WatchClient.report]
    split
    · next hopen =>
      obtain ⟨rfl, _⟩ := hopen
      exact ⟨hincluded, i, hstems⟩
    · exact ⟨path, rfl, hincluded, by rw [if_neg hc]; exact ⟨i, hstems⟩⟩

/-- A file is created, and the quiet period passes. -/
def createdFile : WatchRun :=
  oneFile [.start none, .operation .created "/ws/a.go", .advance 300]

theorem createdFile_authorised :
    (300, .watched (.ofPath "/ws/a.go") .created) ∈ createdFile.callsAt 2 ∧
      createdFile.Authorised 2 300 (.watched (.ofPath "/ws/a.go") .created) := by
  have hcalls : createdFile.callsAt 2 = [(300, .watched (.ofPath "/ws/a.go") .created)] := rfl
  have hmem : (300, .watched (.ofPath "/ws/a.go") .created) ∈ createdFile.callsAt 2 := by
    rw [hcalls]
    exact List.mem_cons_self
  exact ⟨hmem, run_authorised createdFile 2 300 _ hmem⟩

end WatchRun

end WorkspaceLink
