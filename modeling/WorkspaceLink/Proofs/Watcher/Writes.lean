import WorkspaceLink.Proofs.Watcher.Run

/-! Writes over whole runs: none is lost, and none is reported twice. -/

namespace WorkspaceLink.WatchRun

variable {r : WatchRun} {i n : ℕ} {path : Path} {change : FileChange}

/-- What a run owes to those who write files. `CallsFor i path .changed` says that the loop handles
a write in the `i`-th step, of a file that is not excluded, while the registrations ask for changes
of it. `GoesOff` says when the report is due: in the first step in which time reaches the end of the
quiet period, provided that until then the loop goes on, no other write of the path calls for a
report, and neither a removal nor a rename of it calls for the report of a deletion. -/
structure WritesReported (r : WatchRun) : Prop where
  /-- When a report is due, one call is made for the path, with the time at which it is due. It is
  made in place if the client has the file open then. -/
  sent : ∀ i n path q, r.GoesOff i n path .changed → Path.same q path = true →
    (r.callsAt n).filter (·.2.reports q .changed) =
      [(r.due i, if (r.state n).client.isOpen path then .change path
        else .watched (.ofPath path) .changed)]
  /-- No other call reports a change of a path. -/
  caused : ∀ n q call, call ∈ r.callsAt n → call.2.reports q .changed = true →
    ∃ i path, Path.same q path = true ∧ r.GoesOff i n path .changed
  /-- A write is reported in one step only. -/
  once : ∀ i n m path q, r.GoesOff i n path .changed → r.GoesOff i m q .changed → n = m ∧ path = q
  /-- A write waits until time reaches the moment when its report is due, or it is given up. -/
  kept : ∀ i n path, r.CallsFor i path .changed → i < n → r.Reaches i n →
    ∃ m ≤ n, r.Waits i m path .changed ∧ (r.Reaches i m ∨ r.GivesUp m path .changed)

/-- A report waits up to the first step in which something happens to it. -/
theorem exists_waits (h : r.CallsFor i path change) (hin : i < n) (hn : r.Reaches i n) :
    ∃ m ≤ n, r.Waits i m path change ∧ (r.Reaches i m ∨ r.GivesUp m path change) := by
  classical
  -- of the steps in which the report is due or given up, the first one
  let P (m : ℕ) : Prop := i < m ∧ (r.Reaches i m ∨ r.GivesUp m path change)
  have hex : ∃ m, P m := ⟨n, hin, .inl hn⟩
  obtain ⟨hlt, hfirst⟩ := Nat.find_spec hex
  have hbefore (m : ℕ) (hm : m < Nat.find hex) (him : i < m) :
      ¬(r.Reaches i m ∨ r.GivesUp m path change) := fun h => Nat.find_min hex hm ⟨him, h⟩
  refine ⟨Nat.find hex, Nat.find_min' hex ⟨hin, .inl hn⟩, ⟨hlt, h, ?_, ?_⟩, hfirst⟩
  · exact fun m hm him hup => hbefore m hm him (.inr hup)
  · exact fun m hm him hr => hbefore m hm him (.inl hr)

/-- Every run reports its writes, whatever else happens in it. -/
theorem run_writesReported (r : WatchRun) : WritesReported r where
  sent i n path q h hq := by
    rw [h.filter_callsAt (by simp) hq, WatchClient.report]
    simp
  caused n q call hcall hreports := by
    obtain ⟨time, call⟩ := call
    exact (mem_callsAt_iff.mp hcall).goesOff (by simp) hreports
  once _ _ _ _ _ h h' := h.unique h'
  kept _ _ _ h hin hn := exists_waits h hin hn

end WorkspaceLink.WatchRun
