import Mathlib.Data.List.Pairwise
import WorkspaceLink.Proofs.Watcher.Failures

/-! The visits of a bulk open walk: when the walk comes to which file, what it asks the client for, and
what a visit and the pause after it leave to the visits of other files. -/

namespace WorkspaceLink

/-- Paths of which no two are those of the same file. -/
def Path.Distinct (paths : List Path) : Prop :=
  paths.Pairwise fun p q => Path.same q p = false

/-- Of distinct paths, only a path itself is that of the same file. -/
theorem Path.Distinct.any_filter {paths : List Path} (h : Path.Distinct paths) {p : Path}
    (hp : p ∈ paths) (f : Path → Bool) : (paths.filter f).any (Path.same p) = f p := by
  have hself : Path.same p p = true := Path.same_iff.mpr rfl
  cases hf : f p with
  | true => exact List.any_eq_true.mpr ⟨p, List.mem_filter.mpr ⟨hp, hf⟩, hself⟩
  | false =>
    rw [List.any_eq_false]
    intro q hq hsame
    obtain ⟨hq, hfq⟩ := List.mem_filter.mp hq
    have hne : q ≠ p := by
      rintro rfl
      rw [hf] at hfq
      cases hfq
    have hsymm : Std.Symm fun p q : Path => Path.same q p = false :=
      ⟨fun p q hpq => (Path.same_comm p q).trans hpq⟩
    have hapart : Path.same p q = false := List.Pairwise.forall h hq hp hne
    rw [hsame] at hapart
    cases hapart

/-! ### Openings -/

/-- The file that a call asks the client to open. -/
def WatchCall.opening? : WatchCall → Option Path
  | .open path => some path
  | _ => none

namespace WatchClient

variable {c d : WatchClient} {path : Path}

/-- The files that the client has been asked to open, each with the time of the call. -/
def openings (c : WatchClient) : List (ℕ × Path) :=
  c.calls.filterMap fun (time, call) => call.opening?.map (time, ·)

theorem opening?_report (c : WatchClient) (path : Path) (change : FileChange) :
    (c.report path change).opening? = none := by
  rw [report]
  split <;> rfl

theorem openings_send (c : WatchClient) (time : ℕ) (path : Path) :
    (c.send time (.open path)).openings = c.openings ++ [(time, path)] :=
  List.filterMap_append

theorem countP_openings (c : WatchClient) (path : Path) :
    c.openings.countP (·.2 = path) = c.calls.countP (·.2 = .open path) := by
  rw [openings, List.countP_filterMap]
  apply List.countP_congr
  rintro ⟨time, call⟩ -
  cases call <;> simp [WatchCall.opening?]

/-- Whether an opening fails depends on the openings of the same file before it. -/
theorem nextFailure?_open_congr (hfailure : d.failure? = c.failure?)
    (hopenings : d.openings.countP (·.2 = path) = c.openings.countP (·.2 = path)) :
    d.nextFailure? (.open path) = c.nextFailure? (.open path) := by
  rw [countP_openings, countP_openings] at hopenings
  rw [nextFailure?, nextFailure?, hfailure, hopenings]

end WatchClient

/-! ### Pauses -/

namespace Watcher

variable (w : Watcher)

/-- The pauses that a walk has made once it has visited some files. -/
def pausesAfter (visited : ℕ) : ℕ :=
  visited / max w.settings.openBatchSize 1

theorem pausesAfter_zero : w.pausesAfter 0 = 0 :=
  Nat.zero_div _

theorem pausesAfter_succ (visited : ℕ) : w.pausesAfter (visited + 1) = w.pausesAfter visited +
    if (visited + 1) % max w.settings.openBatchSize 1 = 0 then 1 else 0 := by
  rw [pausesAfter, Nat.succ_div]
  simp only [Nat.dvd_iff_mod_eq_zero]
  rfl

/-- The time at which a walk begun at `start` visits its next file, `visited` files being behind it. -/
def visitTime (start visited : ℕ) : ℕ :=
  start + w.pausesAfter visited * w.settings.openBatchPauseMs

/-- The visits of a walk that was begun at `start` and has `visited` files behind it. -/
def visits (start visited : ℕ) (paths : List Path) : List (ℕ × Path) :=
  (paths.zipIdx visited).map fun (path, i) => (w.visitTime start i, path)

theorem visits_cons (start visited : ℕ) (path : Path) (paths : List Path) :
    w.visits start visited (path :: paths) =
      (w.visitTime start visited, path) :: w.visits start (visited + 1) paths :=
  rfl

theorem map_snd_visits (start visited : ℕ) (paths : List Path) :
    (w.visits start visited paths).map (·.2) = paths := by
  rw [visits, List.map_map]
  exact List.zipIdx_map_fst visited paths

theorem filter_visits_congr (start visited : ℕ) {paths : List Path} {f g : Path → Bool}
    (h : ∀ path ∈ paths, f path = g path) :
    (w.visits start visited paths).filter (f ·.2) = (w.visits start visited paths).filter (g ·.2) := by
  apply List.filter_congr
  intro visit hvisit
  apply h
  rw [← w.map_snd_visits start visited paths]
  exact List.mem_map_of_mem hvisit

theorem length_filter_visits (start visited : ℕ) (paths : List Path) (f : Path → Bool) :
    ((w.visits start visited paths).filter (f ·.2)).length = paths.countP f := by
  rw [← List.countP_eq_length_filter]
  conv_rhs => rw [← w.map_snd_visits start visited paths, List.countP_map]
  rfl

end Watcher

/-! ### One visit -/

namespace WatchState

variable {w : Watcher} {s s' s'' : WatchState} {p q : Path}

/-- Two states in which the same of some files are watched and open. -/
def SameNeeds (paths : List Path) (s s' : WatchState) : Prop :=
  ∀ path ∈ paths, s'.isWatched path = s.isWatched path ∧ s'.client.isOpen path = s.client.isOpen path

section SameNeeds

variable {paths : List Path}

theorem SameNeeds.needsOpening (h : SameNeeds paths s s') (hp : p ∈ paths) :
    s'.needsOpening p = s.needsOpening p := by
  obtain ⟨hwatched, hopen⟩ := h p hp
  rw [WatchState.needsOpening, WatchState.needsOpening, hwatched, hopen]

theorem SameNeeds.filter_needsOpening (h : SameNeeds paths s s') :
    paths.filter s'.needsOpening = paths.filter s.needsOpening :=
  List.filter_congr fun _ hp => h.needsOpening hp

theorem SameNeeds.countP_needsOpening (h : SameNeeds paths s s') :
    paths.countP s'.needsOpening = paths.countP s.needsOpening :=
  List.countP_congr fun p hp => by rw [h.needsOpening hp]

theorem SameNeeds.countP_isWatched (h : SameNeeds paths s s') :
    paths.countP s'.isWatched = paths.countP s.isWatched :=
  List.countP_congr fun p hp => by rw [(h p hp).1]

end SameNeeds

/-- Two states in which the visit of a file is the same. -/
structure VisitedAlike (path : Path) (s s' : WatchState) : Prop where
  registry : s'.registry = s.registry
  isOpen : s'.client.isOpen path = s.client.isOpen path
  failsToOpen : s'.failsToOpen path = s.failsToOpen path

theorem VisitedAlike.refl (path : Path) (s : WatchState) : VisitedAlike path s s :=
  ⟨rfl, rfl, rfl⟩

theorem VisitedAlike.trans (h : VisitedAlike p s s') (h' : VisitedAlike p s' s'') :
    VisitedAlike p s s'' :=
  ⟨h'.registry.trans h.registry, h'.isOpen.trans h.isOpen, h'.failsToOpen.trans h.failsToOpen⟩

theorem VisitedAlike.isWatched (h : VisitedAlike p s s') : s'.isWatched p = s.isWatched p := by
  rw [WatchState.isWatched, WatchState.isWatched, h.registry]

theorem VisitedAlike.needsOpening (h : VisitedAlike p s s') :
    s'.needsOpening p = s.needsOpening p := by
  rw [WatchState.needsOpening, WatchState.needsOpening, h.isWatched, h.isOpen]

theorem VisitedAlike.opensAtVisit (h : VisitedAlike p s s') :
    s'.opensAtVisit p = s.opensAtVisit p := by
  rw [WatchState.opensAtVisit, WatchState.opensAtVisit, h.needsOpening, h.failsToOpen]

theorem VisitedAlike.failsAtVisit (h : VisitedAlike p s s') :
    s'.failsAtVisit p = s.failsAtVisit p := by
  rw [WatchState.failsAtVisit, WatchState.failsAtVisit, h.needsOpening, h.failsToOpen]

/-! ### The request of a visit -/

theorem openings_request (s : WatchState) (path : Path) :
    (s.request path).client.openings =
      s.client.openings ++ if s.needsOpening path then [(s.now, path)] else [] := by
  rw [request]
  split
  · exact s.client.openings_send s.now path
  · exact (List.append_nil _).symm

theorem isOpen_request (s : WatchState) (p q : Path) :
    (s.request q).client.isOpen p =
      (s.client.isOpen p || Path.same p q && s.opensAtVisit q) := by
  rw [request, opensAtVisit]
  cases s.needsOpening q with
  | true =>
    rw [failsToOpen, Option.not_isSome, Bool.true_and]
    exact WatchClient.isOpen_send_open
  | false => simp

/-- A request for a file makes no difference to others. -/
theorem visitedAlike_request (s : WatchState) (hpq : Path.same p q = false) :
    VisitedAlike p s (s.request q) := by
  -- openings are counted by the text of the path
  have hne : q ≠ p := by
    rintro rfl
    rw [Path.same_iff.mpr rfl] at hpq
    cases hpq
  rw [request]
  split
  · have hfailure : (s.client.send s.now (.open q)).failure? = s.client.failure? := rfl
    have hcount : (s.client.send s.now (.open q)).openings.countP (·.2 = p) =
        s.client.openings.countP (·.2 = p) := by
      simp [WatchClient.openings_send, hne]
    exact ⟨rfl, WatchClient.isOpen_send hpq,
      congrArg Option.isSome (WatchClient.nextFailure?_open_congr hfailure hcount)⟩
  · exact .refl p s

/-! ### The pause after a visit -/

theorem pauseAfter_frame (w : Watcher) (s : WatchState) (visited : ℕ) :
    ∃ debouncer client, s.pauseAfter w visited = { s with debouncer, client } := by
  rw [pauseAfter]
  split
  · exact ⟨_, _, advance_eq _ _⟩
  · exact ⟨_, _, rfl⟩

theorem openings_pauseAfter (w : Watcher) (s : WatchState) (visited : ℕ) :
    (s.pauseAfter w visited).client.openings = s.client.openings := by
  -- what goes off in a pause is reports
  have hreports (ms : ℕ) :
      (s.dueCalls ms).filterMap (fun x => x.2.opening?.map (x.1, ·)) = [] := by
    rw [List.filterMap_eq_nil_iff]
    intro call hcall
    obtain ⟨t, _, rfl⟩ := List.mem_map.mp hcall
    rw [WatchClient.opening?_report]
    rfl
  rw [pauseAfter]
  split
  · rw [advance_eq, WatchClient.openings, List.filterMap_append, hreports]
    exact List.append_nil _
  · rfl

theorem visitedAlike_pauseAfter (w : Watcher) (s : WatchState) (visited : ℕ) (path : Path) :
    VisitedAlike path s (s.pauseAfter w visited) := by
  have hclient : (s.pauseAfter w visited).client.opened = s.client.opened ∧
      (s.pauseAfter w visited).client.failure? = s.client.failure? := by
    rw [pauseAfter]
    split
    · rw [advance_eq]
      exact ⟨rfl, rfl⟩
    · exact ⟨rfl, rfl⟩
  obtain ⟨hopened, hanswers⟩ := hclient
  constructor
  case registry =>
    obtain ⟨_, _, hframe⟩ := s.pauseAfter_frame w visited
    rw [hframe]
  case isOpen => rw [WatchClient.isOpen, hopened, WatchClient.isOpen]
  case failsToOpen =>
    apply congrArg Option.isSome
    apply WatchClient.nextFailure?_open_congr hanswers
    rw [openings_pauseAfter]

theorem now_pauseAfter (w : Watcher) (s : WatchState) (start visited : ℕ)
    (hnow : s.now = w.visitTime start visited) :
    (s.pauseAfter w (visited + 1)).now = w.visitTime start (visited + 1) := by
  rw [Watcher.visitTime, w.pausesAfter_succ, pauseAfter]
  rw [Watcher.visitTime] at hnow
  split
  · calc (s.advance w.settings.openBatchPauseMs).now
        = s.now + w.settings.openBatchPauseMs := by
          rw [advance_eq]
          rfl
      _ = start + (w.pausesAfter visited + 1) * w.settings.openBatchPauseMs := by
          rw [hnow, Nat.succ_mul, Nat.add_assoc]
  · exact hnow

end WatchState

end WorkspaceLink
