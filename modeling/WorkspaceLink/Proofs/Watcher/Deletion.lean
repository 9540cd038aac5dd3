import WorkspaceLink.Proofs.Watcher.Run

/-! Reports that come after a deletion. The report of a change is dropped when the deletion is
reported; that of a creation is not, and may come late. -/

namespace WorkspaceLink.WatchRun

variable {r : WatchRun} {d i n : ℕ} {path q : Path} {change : FileChange}

/-- In its `n`-th step the loop handles a creation, a write or a rename of a path. -/
def Touches (r : WatchRun) (n : ℕ) (path : Path) : Prop :=
  ∃ op q, Path.same path q = true ∧ r.Handles n op q ∧ op ≠ .removed

/-- The deletion of a path was reported in the `d`-th step, and up to the `n`-th the path has not
been touched again. A rename that reports the deletion touches the path if a file has the name. -/
structure DeletedSince (r : WatchRun) (d n : ℕ) (path : Path) : Prop where
  lt : d < n
  sent : ∃ call ∈ r.callsAt d, call.2.reports path .deleted = true
  gone : ∀ q, Path.same path q = true → r.Handles d .renamed q → (r.state d).files.isFile q = false
  untouched : ∀ m < n, d < m → ¬r.Touches m path

/-- After the report of a deletion, neither a creation nor a change of the path is reported until
the path is touched again. -/
def SilentAfterDeletion (r : WatchRun) : Prop :=
  ∀ d n path, r.DeletedSince d n path → ∀ call ∈ r.callsAt n,
    call.2.reports path .created = false ∧ call.2.reports path .changed = false

theorem CallsFor.touches (h : r.CallsFor i q change) (hc : change ≠ .deleted)
    (hq : Path.same path q = true) : r.Touches i path := by
  obtain ⟨op, hhandles, hcalls⟩ := h
  refine ⟨op, q, hq, hhandles, ?_⟩
  rintro rfl
  cases change with
  | created => cases hcalls
  | changed => cases hcalls
  | deleted => exact hc rfl

theorem DeletedSince.callsFor (h : r.DeletedSince d n path) :
    ∃ q, Path.same path q = true ∧ r.CallsFor d q .deleted := by
  obtain ⟨⟨time, call⟩, hmem, hreports⟩ := h.sent
  cases mem_callsAt_iff.mp hmem with
  | opens _ => cases hreports
  | @deleted q hq =>
    rw [← (r.state d).client.report_deleted, WatchClient.reports_report] at hreports
    exact ⟨q, hreports.2, hq⟩
  | due hc _ => exact absurd (WatchClient.reports_report.mp hreports).1 hc

/-- What is reported after a deletion has been called for before it. -/
theorem GoesOff.lt_deletion (h : r.GoesOff i n q change) (hc : change ≠ .deleted)
    (hq : Path.same path q = true) (hd : r.DeletedSince d n path) : i < d := by
  by_contra hge
  rcases Nat.lt_or_eq_of_le (Nat.le_of_not_lt hge) with hlt | rfl
  · exact hd.untouched i h.lt hlt (h.called.touches hc hq)
  · -- the step that reports the deletion calls for nothing else, unless a file has the name
    obtain ⟨p, hp, op, hhandles, hcalls⟩ := hd.callsFor
    obtain ⟨op', hhandles', hcalls'⟩ := h.called
    have hx := hhandles.step
    rw [hhandles'.step] at hx
    cases hx
    cases op with
    | created => cases hcalls
    | written => cases hcalls
    | removed =>
      cases change with
      | created => cases hcalls'
      | changed => cases hcalls'
      | deleted => exact hc rfl
    | renamed =>
      have hfile := hd.gone q hq hhandles
      cases change with
      | created => simp [WatchState.callsFor, WatchState.brings, hfile] at hcalls'
      | changed => cases hcalls'
      | deleted => exact hc rfl

/-- The report of a change never comes after that of a deletion. -/
theorem DeletedSince.not_changed (hd : r.DeletedSince d n path) {call : ℕ × WatchCall}
    (hcall : call ∈ r.callsAt n) : call.2.reports path .changed = false := by
  rw [← Bool.not_eq_true]
  intro hreports
  obtain ⟨i, q, hq, hgo⟩ := (mem_callsAt_iff.mp hcall).goesOff (by simp) hreports
  have hid := hgo.lt_deletion (by simp) hq hd
  obtain ⟨p, hp, hcalls⟩ := hd.callsFor
  have hpq : Path.same p q = true := by
    rw [Path.same_iff] at hp hq ⊢
    exact hp.symm.trans hq
  -- the step that reports the deletion gives the report up
  exact hgo.kept d hd.lt hid (.deleted p hpq rfl hcalls)

/-- A run keeps silent after deletions exactly if no creation, of which the report still waits when
the file's deletion is reported, goes off before the file is touched again. -/
theorem silentAfterDeletion_iff (r : WatchRun) :
    r.SilentAfterDeletion ↔ ∀ d n path, r.DeletedSince d n path →
      ∀ i < d, ∀ q, Path.same path q = true → ¬r.GoesOff i n q .created := by
  constructor
  · intro hsilent d n path hd i _ q hq hgo
    have hlate := (hsilent d n path hd _ (hgo.mem_callsAt (by simp))).1
    have hreports : ((r.state n).client.report q .created).reports path .created = true :=
      WatchClient.reports_report.mpr ⟨rfl, hq⟩
    rw [hreports] at hlate
    cases hlate
  · intro hnone d n path hd call hcall
    refine ⟨?_, hd.not_changed hcall⟩
    rw [← Bool.not_eq_true]
    intro hreports
    obtain ⟨i, q, hq, hgo⟩ := (mem_callsAt_iff.mp hcall).goesOff (by simp) hreports
    exact hnone d n path hd i (hgo.lt_deletion (by simp) hq hd) q hq hgo

/-- A file is created and removed within the quiet period. -/
def createdAndRemoved : WatchRun :=
  oneFile [.start none, .operation .created "/ws/a.go", .operation .removed "/ws/a.go",
    .advance 300]

/-- The creation is reported although the deletion has been reported before. -/
theorem createdAndRemoved_late : ¬createdAndRemoved.SilentAfterDeletion := by
  intro hsilent
  let late : ℕ × WatchCall := (300, .watched (.ofPath "/ws/a.go") .created)
  have hdeleted : createdAndRemoved.callsAt 2 = [(0, .watched (.ofPath "/ws/a.go") .deleted)] := rfl
  have hlate : createdAndRemoved.callsAt 3 = [late] := rfl
  have hsince : createdAndRemoved.DeletedSince 2 3 "/ws/a.go" := by
    refine ⟨by omega, ⟨(0, .watched (.ofPath "/ws/a.go") .deleted), ?_, rfl⟩, ?_, fun m _ _ => by omega⟩
    · rw [hdeleted]
      exact List.mem_cons_self
    · intro q _ h
      have hx : createdAndRemoved.steps[2]? = some (.operation .removed "/ws/a.go") := rfl
      have hx' := h.step
      rw [hx] at hx'
      cases hx'
  have hmem : late ∈ createdAndRemoved.callsAt 3 := by
    rw [hlate]
    exact List.mem_cons_self
  have hreports : late.2.reports "/ws/a.go" .created = true := rfl
  rw [(hsilent 2 3 _ hsince late hmem).1] at hreports
  cases hreports

end WorkspaceLink.WatchRun
