import WorkspaceLink.Proofs.Debouncer.Generations
import WorkspaceLink.Proofs.Debouncer.Run

/-! A debouncer whose operations are not interrupted is a shared one whose steps come in a certain
order: each caller goes on until it is done, and tasks that are due take their turns one after the
other. An abort that comes too late is one that does not arrive. -/

namespace WorkspaceLink.SharedDebouncer

open Debouncer (generation? erase wake)

variable {κ α : Type}

/-- The tasks that sleep, as sleeping timers. -/
def asleep (s : SharedDebouncer κ α) : List (Sleeper κ α) :=
  (s.tasks.filter (·.phase = .asleep)).map (·.toSleeper)

/-- No caller and no task is in the middle of something; the rest is as given. -/
structure Rests (s : SharedDebouncer κ α) (now next : ℕ) (table : List (PendingEntry κ))
    (sleeping : List (Sleeper κ α)) : Prop where
  now : s.now = now
  next : s.next = next
  calls : s.calls = []
  table : s.table = table
  asleep : s.asleep = sleeping

variable {s s' s'' : SharedDebouncer κ α} {now next g : ℕ} {table : List (PendingEntry κ)}
  {sleeping ts : List (Sleeper κ α)} {f : TaskPhase → TaskPhase}

theorem mem_asleep {u : Sleeper κ α} :
    u ∈ s.asleep ↔ ∃ t ∈ s.tasks, t.phase = .asleep ∧ t.toSleeper = u := by
  simp [asleep, and_assoc]

theorem asleep_setPhase (hf : ∀ p, f p ≠ .asleep) :
    (s.setPhase g f).asleep = s.asleep.filter (·.generation ≠ g) := by
  rw [asleep, asleep, setPhase]
  induction s.tasks with
  | nil => rfl
  | cons t tasks ih =>
    rw [List.map_cons, List.filter_cons, List.filter_cons]
    by_cases hg : t.generation = g
    · by_cases hp : t.phase = .asleep <;> simp [hg, hp, hf, ih]
    · by_cases hp : t.phase = .asleep <;> simp [hg, hp, ih]

theorem setPhase_setPhase (p q : TaskPhase) :
    (s.setPhase g fun _ => p).setPhase g (fun _ => q) = s.setPhase g fun _ => q := by
  simp only [setPhase, List.map_map]
  congr 1
  apply List.map_congr_left
  intro t _
  by_cases hg : t.generation = g <;> simp [hg]

/-- A task may leave its sleep for good. -/
theorem Rests.setPhase (h : s.Rests now next table sleeping) (hf : ∀ p, f p ≠ .asleep) :
    (s.setPhase g f).Rests now next table (sleeping.filter (·.generation ≠ g)) :=
  { h with asleep := by rw [asleep_setPhase hf, h.asleep] }

variable [BEq κ]

theorem Run.append {xs ys : List (TaskEvent κ α)} (h : Run s xs s') (h' : Run s' ys s'') :
    Run s (xs ++ ys) s'' := by
  induction h with
  | nil => exact h'
  | cons hx _ ih => exact .cons hx (ih h')

/-- No task gets lost. -/
theorem Run.mem_tasks {xs : List (TaskEvent κ α)} (h : Run s xs s') {t : TimerTask κ α}
    (ht : t ∈ s.tasks) : ∃ t' ∈ s'.tasks, t'.toSleeper = t.toSleeper := by
  induction h generalizing t with
  | nil => exact ⟨t, ht, rfl⟩
  | @cons s s₁ s' x xs hx _ ih =>
    have hstep : ∃ t' ∈ s₁.tasks, t'.toSleeper = t.toSleeper := by
      have hphase (g : ℕ) (f : TaskPhase → TaskPhase) :
          ∃ t' ∈ (s.setPhase g f).tasks, t'.toSleeper = t.toSleeper :=
        ⟨_, mem_setPhase.mpr ⟨t, ht, rfl⟩, by split <;> rfl⟩
      cases hx with
      | insert hc => exact ⟨t, List.mem_append_left _ ht, rfl⟩
      | abort late hg => exact hphase _ _
      | wake ht hp hdue => exact hphase _ _
      | @start u hu hp hown => exact hphase u.generation fun _ => .acting
      | giveUp ht hp hown => exact hphase _ _
      | finish ht hp => exact hphase _ _
      | _ => exact ⟨t, ht, rfl⟩
    obtain ⟨t', ht', heq⟩ := hstep
    obtain ⟨t'', ht'', heq'⟩ := ih ht'
    exact ⟨t'', ht'', heq'.trans heq⟩

/-- Steps in which just the actions of some timers start, in order. -/
structure Performs (s : SharedDebouncer κ α) (xs : List (TaskEvent κ α)) (fired : List (Timer κ α))
    (s' : SharedDebouncer κ α) : Prop where
  run : Run s xs s'
  started : ∃ us : List (Sleeper κ α), us.map (·.toTimer) = fired ∧
    xs.filterMap TaskEvent.started? = us.map (·.generation) ∧
      ∀ u ∈ us, ∃ t ∈ s'.tasks, t.toSleeper = u

theorem Performs.append {xs ys : List (TaskEvent κ α)} {fired fired' : List (Timer κ α)}
    (h : Performs s xs fired s') (h' : Performs s' ys fired' s'') :
    Performs s (xs ++ ys) (fired ++ fired') s'' := by
  obtain ⟨us, hus, hstarted, hmem⟩ := h.started
  obtain ⟨us', hus', hstarted', hmem'⟩ := h'.started
  refine ⟨h.run.append h'.run, us ++ us', ?_, ?_, ?_⟩
  · rw [List.map_append, hus, hus']
  · rw [List.filterMap_append, List.map_append, hstarted, hstarted']
  · intro u hu
    rcases List.mem_append.mp hu with hu | hu
    · obtain ⟨t, ht, rfl⟩ := hmem u hu
      exact h'.run.mem_tasks ht
    · exact hmem' u hu

/-- Steps in which no action starts. -/
theorem Run.performs {xs : List (TaskEvent κ α)} (h : Run s xs s')
    (hxs : xs.filterMap TaskEvent.started? = []) : Performs s xs [] s' :=
  ⟨h, [], rfl, hxs, nofun⟩

/-! ### Aborts that arrive, and tasks that take their turns -/

theorem Rests.exists_aborts (h : s.Rests now next table sleeping) {gs : List ℕ} (hgs : gs.Nodup)
    (hasked : ∀ g ∈ gs, g ∈ s.aborts) :
    ∃ xs s', Performs s xs [] s' ∧
      s'.Rests now next table (sleeping.filter (·.generation ∉ gs)) := by
  induction gs generalizing s sleeping with
  | nil => exact ⟨[], s, Run.nil.performs rfl, by simpa using h⟩
  | cons g gs ih =>
    obtain ⟨hg, hgs⟩ := List.nodup_cons.mp hgs
    have habort : (s.abort g false).Rests now next table (sleeping.filter (·.generation ≠ g)) := by
      have hphase := h.setPhase (g := g) (f := .abort false) fun p => by
        cases p <;> simp [TaskPhase.abort]
      exact { hphase with }
    have hrest : ∀ g' ∈ gs, g' ∈ (s.abort g false).aborts := by
      intro g' hg'
      have hne : g' ≠ g := fun heq => hg (heq ▸ hg')
      exact (List.mem_erase_of_ne hne).mpr (hasked g' (List.mem_cons_of_mem _ hg'))
    obtain ⟨xs, s', hxs, hs'⟩ := ih habort hgs hrest
    have hfirst := Run.cons (.abort false (hasked g List.mem_cons_self)) .nil
    refine ⟨_, s', (hfirst.performs rfl).append hxs, ?_⟩
    simpa [List.filter_filter, Bool.and_comm] using hs'

/-- A task that is due wakes and looks at the table. -/
theorem Rests.exists_turn (h : s.Rests now next table sleeping) {u : Sleeper κ α}
    (hu : u ∈ sleeping) (hdue : u.due ≤ now) :
    ∃ xs s', Performs s xs (wake table [u]).2 s' ∧
      s'.Rests now next (wake table [u]).1 (sleeping.filter (·.generation ≠ u.generation)) := by
  obtain ⟨t, ht, hp, rfl⟩ := mem_asleep.mp (h.asleep ▸ hu)
  let woken : SharedDebouncer κ α := s.setPhase t.generation fun _ => .awake
  let awake : TimerTask κ α := { t with phase := .awake }
  have hwake : Step s (.wake t.generation) woken := .wake ht hp (h.now ▸ hdue)
  have hawake : awake ∈ woken.tasks := mem_setPhase.mpr ⟨t, ht, (if_pos rfl).symm⟩
  by_cases hown : generation? table t.key = some t.generation
  · have hstart := Step.start hawake rfl (h.table ▸ hown)
    have hrun : Run s _ (woken.start awake) := .cons hwake (.cons hstart .nil)
    obtain ⟨t', ht', heq⟩ := hrun.mem_tasks ht
    have hphase := h.setPhase (g := t.generation) (f := fun _ => .acting) (by simp)
    rw [← setPhase_setPhase .awake] at hphase
    simp only [wake, if_pos hown]
    refine ⟨_, _, ⟨hrun, [t.toSleeper], rfl, rfl, ?_⟩, ?_⟩
    · intro u hu
      rw [List.mem_singleton.mp hu]
      exact ⟨t', ht', heq⟩
    · exact { hphase with table := congrArg (erase · t.key) h.table }
  · have hgiveUp := Step.giveUp hawake rfl (h.table ▸ hown)
    have hrun := Run.cons hwake (.cons hgiveUp .nil)
    have hphase := h.setPhase (g := t.generation) (f := fun _ => .finished) (by simp)
    rw [← setPhase_setPhase .awake] at hphase
    simp only [wake, if_neg hown]
    exact ⟨_, _, hrun.performs rfl, hphase⟩

theorem wake_cons (table : List (PendingEntry κ)) (u : Sleeper κ α)
    (us : List (Sleeper κ α)) :
    wake table (u :: us) =
      ((wake (wake table [u]).1 us).1, (wake table [u]).2 ++ (wake (wake table [u]).1 us).2) := by
  by_cases h : generation? table u.key = some u.generation <;> simp [wake, h]

theorem Rests.exists_turns (h : s.Rests now next table sleeping)
    (hdue : ∀ t ∈ ts, t ∈ sleeping ∧ t.due ≤ now)
    (hdistinct : ts.Pairwise fun t u => t.generation ≠ u.generation) :
    ∃ xs s', Performs s xs (wake table ts).2 s' ∧
      s'.Rests now next (wake table ts).1
        (sleeping.filter (·.generation ∉ ts.map (·.generation))) := by
  induction ts generalizing s sleeping table with
  | nil => exact ⟨[], s, Run.nil.performs rfl, by simpa [wake] using h⟩
  | cons u ts ih =>
    obtain ⟨hu, hts⟩ := List.pairwise_cons.mp hdistinct
    obtain ⟨hmem, hle⟩ := hdue u List.mem_cons_self
    obtain ⟨xs, s₁, hxs, hs₁⟩ := h.exists_turn hmem hle
    -- those that are due later have not been touched
    have hleft : ∀ t ∈ ts, t ∈ sleeping.filter (·.generation ≠ u.generation) ∧ t.due ≤ now := by
      intro t ht
      obtain ⟨hmem, hle⟩ := hdue t (List.mem_cons_of_mem _ ht)
      exact ⟨List.mem_filter.mpr ⟨hmem, by simpa using (hu t ht).symm⟩, hle⟩
    obtain ⟨ys, s', hys, hs'⟩ := ih hs₁ hleft hts
    rw [wake_cons]
    refine ⟨xs ++ ys, s', hxs.append hys, ?_⟩
    simpa [List.filter_filter, Bool.and_comm] using hs'

/-- Of the aborts that have been asked for, those arrive that do not come too late. -/
theorem Rests.exists_timely (h : s.Rests now next table sleeping) (late : ℕ → Bool) {gs : List ℕ}
    (hgs : gs.Nodup) (hasked : ∀ g ∈ gs, g ∈ s.aborts) :
    ∃ xs s', Performs s xs [] s' ∧
      s'.Rests now next table (Debouncer.abort late gs sleeping) := by
  have hsome : ∀ g ∈ gs.filter fun g => !late g, g ∈ s.aborts :=
    fun g hg => hasked g (List.mem_filter.mp hg).1
  obtain ⟨xs, s', hxs, hs'⟩ := h.exists_aborts (hgs.filter _) hsome
  have habort : Debouncer.abort late gs sleeping =
      sleeping.filter (·.generation ∉ gs.filter fun g => !late g) := by
    apply List.filter_congr
    intro t _
    cases hlate : late t.generation <;> simp [hlate]
  exact ⟨xs, s', hxs, habort ▸ hs'⟩

/-! ### Operations -/

/-- A shared debouncer in which nothing is going on has the table and the timers of a debouncer. -/
abbrev Shows (d : Debouncer κ α) (s : SharedDebouncer κ α) : Prop :=
  s.Rests d.now d.next d.table d.sleeping

variable {d : Debouncer κ α}

theorem Shows.exists_cancelAll [EquivBEq κ] (h : Shows d s) :
    ∃ xs s', Performs s xs [] s' ∧ Shows d.cancelAll s' := by
  have hcancel : s.cancelAll.Rests d.now d.next [] d.sleeping := { h with table := rfl }
  have hasked : ∀ g ∈ d.table.map (·.generation), g ∈ s.cancelAll.aborts :=
    fun g hg => List.mem_append_right _ (h.table ▸ hg)
  obtain ⟨xs, s', hxs, hs'⟩ := hcancel.exists_timely d.late d.sound.nodup_generations hasked
  have hrun : Run s _ s.cancelAll := .cons .cancelAll .nil
  exact ⟨_, s', (hrun.performs rfl).append hxs, hs'⟩

theorem nodup_generation? (key : κ) : (generation? table key).toList.Nodup := by
  cases generation? table key <;> simp

variable [EquivBEq κ]

theorem Shows.exists_cancel (h : Shows d s) (key : κ) :
    ∃ xs s', Performs s xs [] s' ∧ Shows (d.cancel key) s' := by
  have hcancel : (s.cancel key).Rests d.now d.next (erase d.table key) d.sleeping :=
    { h with table := congrArg (erase · key) h.table }
  have hasked : ∀ g ∈ (generation? d.table key).toList, g ∈ (s.cancel key).aborts :=
    fun g hg => List.mem_append_right _ (h.table ▸ hg)
  obtain ⟨xs, s', hxs, hs'⟩ := hcancel.exists_timely d.late (nodup_generation? key) hasked
  have hrun : Run s _ (s.cancel key) := .cons (.cancel key) .nil
  exact ⟨_, s', (hrun.performs rfl).append hxs, hs'⟩

theorem Shows.exists_schedule (h : Shows d s) (key : κ) (delay : ℕ) (action : α) :
    ∃ xs s', Performs s xs [] s' ∧ Shows (d.schedule key delay action) s' := by
  let c : PendingCall κ α := ⟨key, delay, action, s.next⟩
  let new : Sleeper κ α := ⟨⟨key, d.now + delay, action⟩, d.next⟩
  have hc : c ∈ (s.take key delay action).calls := List.mem_append_right _ List.mem_cons_self
  have hinsert : ((s.take key delay action).insert c).Rests d.now (d.next + 1)
      (erase d.table key ++ [⟨key, d.next⟩]) (d.sleeping ++ [new]) := by
    refine ⟨h.now, congrArg (· + 1) h.next, ?_, ?_, ?_⟩
    · simp [SharedDebouncer.insert, SharedDebouncer.cancel, take, h.calls, c]
    · simp [SharedDebouncer.insert, SharedDebouncer.cancel, take, h.table, h.next, c]
    · rw [← h.asleep, asleep, asleep]
      simp [SharedDebouncer.insert, SharedDebouncer.cancel, take, h.now, h.next, c, new]
  have hasked : ∀ g ∈ (generation? d.table key).toList,
      g ∈ ((s.take key delay action).insert c).aborts :=
    fun g hg => List.mem_append_right _ (h.table ▸ hg)
  obtain ⟨xs, s', hxs, hs'⟩ := hinsert.exists_timely d.late (nodup_generation? key) hasked
  have hrun : Run s _ ((s.take key delay action).insert c) :=
    .cons (.take key delay action) (.cons (.insert hc) .nil)
  -- the new task has a generation that is not in the table
  have hspared : new.generation ∉ (generation? d.table key).toList := by
    intro hmem
    obtain ⟨e, he, _, hg⟩ := Debouncer.mem_of_generation? (Option.mem_toList.mp hmem)
    obtain ⟨t, ht, _, hg'⟩ := d.sound.matched e he
    exact Nat.ne_of_lt (d.sound.fresh t ht) (hg'.trans hg)
  have hkept : Debouncer.abort d.late (generation? d.table key).toList (d.sleeping ++ [new]) =
      Debouncer.abort d.late (generation? d.table key).toList d.sleeping ++ [new] := by
    rw [Debouncer.abort, List.filter_append, List.filter_singleton]
    simp [hspared, Debouncer.abort]
  exact ⟨_, s', (hrun.performs rfl).append hxs, { hs' with asleep := hs'.asleep.trans hkept }⟩

theorem Shows.exists_advance (h : Shows d s) (ms : ℕ) :
    ∃ xs s', Performs s xs (d.expired ms) s' ∧ Shows (d.advance ms) s' := by
  have hpass : Rests { s with now := s.now + ms } (d.now + ms) d.next d.table d.sleeping :=
    { h with now := congrArg (· + ms) h.now }
  have hdue : ∀ t ∈ d.woken ms, t ∈ d.sleeping ∧ t.due ≤ d.now + ms := by
    intro t ht
    simpa using List.mem_filter.mp (Debouncer.mem_byDue.mp ht)
  have hdistinct : (d.woken ms).Pairwise fun t u => t.generation ≠ u.generation :=
    (Debouncer.byDue_perm _ _).symm.pairwise (d.sound.distinct.filter _) fun h => h.symm
  obtain ⟨xs, s', hxs, hs'⟩ := hpass.exists_turns hdue hdistinct
  -- those that have not had their turn are due later
  have hleft : d.sleeping.filter (·.generation ∉ (d.woken ms).map (·.generation)) =
      d.sleeping.filter (d.now + ms < ·.due) := by
    apply List.filter_congr
    intro t ht
    rw [decide_eq_decide, ← Nat.not_le, not_iff_not, List.mem_map]
    constructor
    · intro hmem
      obtain ⟨u, hu, hg⟩ := hmem
      obtain ⟨hu, hle⟩ := hdue u hu
      obtain rfl := d.sound.eq_of_generation_eq hu ht hg
      exact hle
    · intro hle
      have hmem : t ∈ d.sleeping.filter (·.due ≤ d.now + ms) :=
        List.mem_filter.mpr ⟨ht, decide_eq_true hle⟩
      exact ⟨t, Debouncer.mem_byDue.mpr hmem, rfl⟩
  have hrun : Run s _ { s with now := s.now + ms } := .cons (.pass ms) .nil
  exact ⟨_, s', (hrun.performs rfl).append hxs, { hs' with asleep := hs'.asleep.trans hleft }⟩

/-- What a debouncer does in a step is done by steps of the shared one. -/
theorem Shows.exists_step (h : Shows d s) (x : DebounceStep κ α) :
    ∃ xs s', Performs s xs (d.fired x) s' ∧ Shows (d.step x) s' := by
  cases x with
  | schedule key delay action => exact h.exists_schedule key delay action
  | cancel key => exact h.exists_cancel key
  | cancelAll => exact h.exists_cancelAll
  | advance ms => exact h.exists_advance ms

/-- Every run of a debouncer is one of a shared debouncer, in which the same actions start in the
same order. -/
theorem exists_run (late : ℕ → Bool) (steps : List (DebounceStep κ α)) :
    ∃ xs s, Performs {} xs (Debouncer.firings late steps) s ∧
      Shows (steps.foldl Debouncer.step { late }) s := by
  induction steps using List.reverseRecOn with
  | nil => exact ⟨[], {}, Run.nil.performs rfl, ⟨rfl, rfl, rfl, rfl, rfl⟩⟩
  | append_singleton steps x ih =>
    obtain ⟨xs, s, hxs, hs⟩ := ih
    obtain ⟨ys, s', hys, hs'⟩ := hs.exists_step x
    rw [Debouncer.firings_concat, List.foldl_append]
    exact ⟨xs ++ ys, s', hxs.append hys, hs'⟩

end WorkspaceLink.SharedDebouncer
