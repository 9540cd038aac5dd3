import Mathlib.Data.List.Nodup
import WorkspaceLink.Watch.SharedDebouncer

/-! A shared debouncer under every order of steps: entries have living tasks, no generation belongs to
two tasks, and a task that has lost its entry never acts. -/

namespace WorkspaceLink

/-- Whether a task may still find its entry. -/
def TaskPhase.isWaiting : TaskPhase → Bool
  | asleep => true
  | awake => true
  | _ => false

namespace TaskEvent

variable {κ α : Type}

def isTake : TaskEvent κ α → Bool
  | take _ _ _ => true
  | _ => false

def started? : TaskEvent κ α → Option ℕ
  | start g => some g
  | _ => none

/-- Whether a step takes the place of the task that a key has, or cancels it. -/
def breaksOff [BEq κ] (key : κ) : TaskEvent κ α → Bool
  | insert k _ => key == k
  | cancel k => key == k
  | cancelAll => true
  | _ => false

end TaskEvent

namespace SharedDebouncer

open Debouncer (generation? erase mem_erase mem_of_generation? generation?_of_mem generation?_congr
  generation?_erase)

variable {κ α : Type}

/-- The generations of the tasks, and of the callers that have yet to spawn one. -/
def generations (s : SharedDebouncer κ α) : List ℕ :=
  s.tasks.map (·.generation) ++ s.calls.map (·.generation)

variable [BEq κ]

/-- A task belongs to an entry: it has its key and its generation, and it waits. -/
structure Owns (t : TimerTask κ α) (e : PendingEntry κ) : Prop where
  key : (t.key == e.key) = true
  generation : t.generation = e.generation
  waiting : t.phase.isWaiting = true

/-- What holds between any two steps. -/
structure Sound (s : SharedDebouncer κ α) : Prop where
  fresh : ∀ g ∈ s.generations, g < s.next
  distinct : s.generations.Nodup
  single : s.table.Pairwise fun e f => (e.key == f.key) = false
  owned : ∀ e ∈ s.table, ∃ t ∈ s.tasks, Owns t e
  asked : ∀ g ∈ s.aborts, g ∈ s.tasks.map (·.generation)
  spared : ∀ e ∈ s.table, e.generation ∉ s.aborts
  undisturbed : ∀ t ∈ s.tasks, t.phase = .acting → t.generation ∉ s.aborts

variable {s s' : SharedDebouncer κ α} {t u : TimerTask κ α} {e : PendingEntry κ} {g : ℕ}
  {f : TaskPhase → TaskPhase}

/-! ### Tasks -/

omit [BEq κ] in
theorem mem_setPhase {t' : TimerTask κ α} :
    t' ∈ (s.setPhase g f).tasks ↔ ∃ t ∈ s.tasks,
      t' = if t.generation = g then { t with phase := f t.phase } else t := by
  simp only [setPhase, List.mem_map, eq_comm]

omit [BEq κ] in
theorem map_generation_setPhase :
    (s.setPhase g f).tasks.map (·.generation) = s.tasks.map (·.generation) := by
  simp only [setPhase, List.map_map]
  apply List.map_congr_left
  intro t _
  dsimp only [Function.comp]
  split <;> rfl

omit [BEq κ] in
theorem generations_setPhase : (s.setPhase g f).generations = s.generations :=
  congrArg (· ++ s.calls.map (·.generation)) map_generation_setPhase

omit [BEq κ] in
theorem generations_take (key : κ) (delay : ℕ) (action : α) :
    (s.take key delay action).generations = s.generations ++ [s.next] := by
  simp only [generations, take, List.map_append, List.map_cons, List.map_nil, List.append_assoc]

namespace Sound

theorem eq_of_generation_eq (h : s.Sound) (ht : t ∈ s.tasks) (hu : u ∈ s.tasks)
    (hg : t.generation = u.generation) : t = u :=
  List.inj_on_of_nodup_map (List.nodup_append.mp h.distinct).1 ht hu hg

/-- An entry belongs to the task that has its generation. -/
theorem owns (h : s.Sound) (he : e ∈ s.table) (ht : t ∈ s.tasks)
    (hg : t.generation = e.generation) : Owns t e := by
  obtain ⟨u, hu, hown⟩ := h.owned e he
  obtain rfl := h.eq_of_generation_eq ht hu (hg.trans hown.generation.symm)
  exact hown

variable [EquivBEq κ]

theorem generation?_of_owns (h : s.Sound) (he : e ∈ s.table) (hown : Owns t e) :
    generation? s.table t.key = some t.generation := by
  rw [generation?_congr s.table hown.key, generation?_of_mem h.single he, hown.generation]

/-- The phase of a task may change if an entry that belongs to it still does afterwards. -/
theorem setPhase (h : s.Sound)
    (howned : ∀ t ∈ s.tasks, t.generation = g → t.phase.isWaiting = true →
      generation? s.table t.key = some g → (f t.phase).isWaiting = true)
    (hacting : ∀ t ∈ s.tasks, t.generation = g → f t.phase = .acting → g ∉ s.aborts) :
    (s.setPhase g f).Sound where
  fresh := by
    rw [generations_setPhase]
    exact h.fresh
  distinct := by
    rw [generations_setPhase]
    exact h.distinct
  single := h.single
  owned e he := by
    obtain ⟨t, ht, hown⟩ := h.owned e he
    refine ⟨_, mem_setPhase.mpr ⟨t, ht, rfl⟩, ?_⟩
    split
    · next hg =>
      have hlive := h.generation?_of_owns he hown
      rw [hg] at hlive
      exact ⟨hown.key, hown.generation, howned t ht hg hown.waiting hlive⟩
    · exact hown
  asked := by
    rw [map_generation_setPhase]
    exact h.asked
  spared := h.spared
  undisturbed t' ht' hp := by
    obtain ⟨t, ht, rfl⟩ := mem_setPhase.mp ht'
    split at hp
    · next hg =>
      rw [if_pos hg]
      change t.generation ∉ s.aborts
      rw [hg]
      exact hacting t ht hg hp
    · next hg =>
      rw [if_neg hg]
      exact h.undisturbed t ht hp

/-! ### The table -/

omit [EquivBEq κ] in
/-- Entries may be taken from the table if the aborts of their tasks are asked for, and of no
others. -/
theorem withdraw (h : s.Sound) {left : List (PendingEntry κ)} {gone : List ℕ}
    (hleft : left.Sublist s.table) (hgone : ∀ g ∈ gone, ∃ e ∈ s.table, e.generation = g)
    (hspared : ∀ e ∈ left, e.generation ∉ gone) :
    Sound { s with table := left, aborts := s.aborts ++ gone } where
  fresh := h.fresh
  distinct := h.distinct
  single := h.single.sublist hleft
  owned e he := h.owned e (hleft.subset he)
  asked g hg := by
    rcases List.mem_append.mp hg with hold | hnew
    · exact h.asked g hold
    · obtain ⟨e, he, rfl⟩ := hgone g hnew
      obtain ⟨t, ht, hown⟩ := h.owned e he
      exact List.mem_map.mpr ⟨t, ht, hown.generation⟩
  spared e he hmem := by
    rcases List.mem_append.mp hmem with hold | hnew
    · exact h.spared e (hleft.subset he) hold
    · exact hspared e he hnew
  undisturbed t ht hp hmem := by
    rcases List.mem_append.mp hmem with hold | hnew
    · exact h.undisturbed t ht hp hold
    · -- a task that acts has no entry
      obtain ⟨e, he, hg⟩ := hgone _ hnew
      have hwaiting := (h.owns he ht hg.symm).waiting
      rw [hp] at hwaiting
      cases hwaiting

theorem key_eq (h : s.Sound) {e' : PendingEntry κ} (he : e ∈ s.table) (he' : e' ∈ s.table)
    (hg : e.generation = e'.generation) : (e.key == e'.key) = true := by
  obtain ⟨t, ht, hown⟩ := h.owned e he
  have hown' := h.owns he' ht (hown.generation.trans hg)
  exact BEq.trans (BEq.symm hown.key) hown'.key

theorem cancel (h : s.Sound) (key : κ) : (s.cancel key).Sound := by
  refine h.withdraw List.filter_sublist ?_ ?_
  · intro g hg
    obtain ⟨e, he, _, hg⟩ := mem_of_generation? (Option.mem_toList.mp hg)
    exact ⟨e, he, hg⟩
  · intro e he hmem
    obtain ⟨he, hne⟩ := mem_erase.mp he
    obtain ⟨e', he', hkey, hg⟩ := mem_of_generation? (Option.mem_toList.mp hmem)
    have hsame := BEq.trans (h.key_eq he he' hg.symm) hkey
    rw [hsame] at hne
    cases hne

omit [EquivBEq κ] in
theorem cancelAll (h : s.Sound) : s.cancelAll.Sound := by
  refine h.withdraw (List.nil_sublist _) ?_ nofun
  intro g hg
  obtain ⟨e, he, rfl⟩ := List.mem_map.mp hg
  exact ⟨e, he, rfl⟩

omit [EquivBEq κ] in
theorem take (h : s.Sound) (key : κ) (delay : ℕ) (action : α) :
    (s.take key delay action).Sound where
  fresh g hg := by
    rw [generations_take, List.mem_append, List.mem_singleton] at hg
    rcases hg with hold | rfl
    · exact Nat.lt_succ_of_lt (h.fresh g hold)
    · exact Nat.lt_succ_self s.next
  distinct := by
    rw [generations_take]
    refine List.nodup_append.mpr ⟨h.distinct, List.nodup_singleton _, ?_⟩
    intro g hg g' hg'
    rw [List.mem_singleton.mp hg']
    exact Nat.ne_of_lt (h.fresh g hg)
  single := h.single
  owned := h.owned
  asked := h.asked
  spared := h.spared
  undisturbed := h.undisturbed

theorem insert (h : s.Sound) {c : PendingCall κ α} (hc : c ∈ s.calls) : (s.insert c).Sound := by
  have hcancel := h.cancel c.key
  obtain ⟨htasks, hcalls, hapart⟩ := List.nodup_append.mp hcancel.distinct
  have hcg : c.generation ∈ s.calls.map (·.generation) := List.mem_map.mpr ⟨c, hc, rfl⟩
  have hnew : c.generation ∉ s.tasks.map (·.generation) := fun hmem => hapart _ hmem _ hcg rfl
  have hsub : ((s.calls.filter (·.generation ≠ c.generation)).map (·.generation)).Sublist
      (s.calls.map (·.generation)) := List.filter_sublist.map _
  have hgenerations : (s.insert c).generations = s.tasks.map (·.generation) ++
      (c.generation :: (s.calls.filter (·.generation ≠ c.generation)).map (·.generation)) := by
    simp only [generations, SharedDebouncer.insert, SharedDebouncer.cancel, List.map_append,
      List.map_cons, List.map_nil, List.append_assoc, List.singleton_append]
  constructor
  case fresh =>
    intro g hg
    rw [hgenerations, List.mem_append, List.mem_cons] at hg
    rcases hg with hg | rfl | hg
    · exact h.fresh g (List.mem_append_left _ hg)
    · exact h.fresh _ (List.mem_append_right _ hcg)
    · exact h.fresh g (List.mem_append_right _ (hsub.subset hg))
  case distinct =>
    rw [hgenerations]
    refine List.nodup_append.mpr ⟨htasks, List.nodup_cons.mpr ⟨?_, hcalls.sublist hsub⟩, ?_⟩
    · intro hmem
      obtain ⟨c', hc', hg⟩ := List.mem_map.mp hmem
      exact absurd hg (by simpa using (List.mem_filter.mp hc').2)
    · intro g hg g' hg'
      rcases List.mem_cons.mp hg' with rfl | hg'
      · exact fun heq => hnew (heq ▸ hg)
      · exact hapart g hg g' (hsub.subset hg')
  case single =>
    refine List.pairwise_append.mpr ⟨hcancel.single, List.pairwise_singleton _ _, ?_⟩
    intro e he e' he'
    rw [List.mem_singleton.mp he']
    exact (mem_erase.mp he).2
  case owned =>
    intro e he
    rcases List.mem_append.mp he with hold | hnew
    · obtain ⟨t, ht, hown⟩ := hcancel.owned e hold
      exact ⟨t, List.mem_append_left _ ht, hown⟩
    · rw [List.mem_singleton.mp hnew]
      exact ⟨_, List.mem_append_right _ List.mem_cons_self, BEq.rfl, rfl, rfl⟩
  case asked =>
    intro g hg
    rw [SharedDebouncer.insert, List.map_append]
    exact List.mem_append_left _ (hcancel.asked g hg)
  case spared =>
    intro e he
    rcases List.mem_append.mp he with hold | hmem
    · exact hcancel.spared e hold
    · rw [List.mem_singleton.mp hmem]
      exact fun hasked => hnew (hcancel.asked _ hasked)
  case undisturbed =>
    intro t ht hp
    rcases List.mem_append.mp ht with hold | hnew
    · exact hcancel.undisturbed t hold hp
    · rw [List.mem_singleton.mp hnew] at hp
      cases hp

theorem start (h : s.Sound) (ht : t ∈ s.tasks) (hown : generation? s.table t.key = some t.generation) :
    (s.start t).Sound := by
  obtain ⟨e, he, hkey, hg⟩ := mem_of_generation? hown
  -- the entry is taken first; then nothing belongs to the task, and its phase may change
  have htaken : Sound { s with table := erase s.table t.key } := by
    rw [← List.append_nil s.aborts]
    exact h.withdraw List.filter_sublist nofun fun _ _ => List.not_mem_nil
  have hnone (u : TimerTask κ α) (hu : u ∈ s.tasks) (hug : u.generation = t.generation) :
      generation? (erase s.table t.key) u.key ≠ some t.generation := by
    obtain rfl := h.eq_of_generation_eq hu ht hug
    rw [generation?_erase, BEq.rfl]
    nofun
  exact htaken.setPhase (f := fun _ => .acting)
    (fun u hu hug _ hlive => absurd hlive (hnone u hu hug)) fun _ _ _ _ => hg ▸ h.spared e he

theorem abort (h : s.Sound) (hg : g ∈ s.aborts) (late : Bool) : (s.abort g late).Sound := by
  have hphase : (s.setPhase g (.abort late)).Sound := by
    refine h.setPhase ?_ ?_
    · intro t _ hgen _ hlive
      obtain ⟨e, he, _, heg⟩ := mem_of_generation? hlive
      exact absurd (heg ▸ hg) (h.spared e he)
    · intro t ht hgen hp
      -- only a task that acts may act after an abort, and no abort is asked for it
      have hacting : t.phase = .acting := by
        cases hphase : t.phase <;> cases late <;> simp_all [TaskPhase.abort]
      exact hgen ▸ h.undisturbed t ht hacting
  have hsub : s.aborts.erase g ⊆ s.aborts := List.erase_subset
  exact {
    hphase with
    asked := fun g' hg' => hphase.asked g' (hsub hg')
    spared := fun e he hmem => hphase.spared e he (hsub hmem)
    undisturbed := fun t ht hp hmem => hphase.undisturbed t ht hp (hsub hmem) }

/-- Whatever comes next, what holds between steps holds afterwards. -/
theorem step (h : s.Sound) {x : TaskEvent κ α} (hx : s.Step x s') : s'.Sound := by
  cases hx with
  | take key delay action => exact h.take key delay action
  | insert hc => exact h.insert hc
  | cancel key => exact h.cancel key
  | cancelAll => exact h.cancelAll
  | abort late hg => exact h.abort hg late
  | wake ht hp hdue => exact h.setPhase (fun _ _ _ _ _ => rfl) nofun
  | start ht hp hown => exact h.start ht hown
  | giveUp ht hp hown =>
    refine h.setPhase (fun u hu hg _ hlive => ?_) nofun
    obtain rfl := h.eq_of_generation_eq hu ht hg
    exact absurd hlive hown
  | finish ht hp =>
    refine h.setPhase (fun u hu hg hwaiting _ => ?_) nofun
    obtain rfl := h.eq_of_generation_eq hu ht hg
    rw [hp] at hwaiting
    cases hwaiting
  | pass ms => exact { h with }

theorem run (h : s.Sound) {xs : List (TaskEvent κ α)} (hxs : Run s xs s') : s'.Sound := by
  induction hxs with
  | nil => exact h
  | cons hx _ ih => exact ih (h.step hx)

omit [EquivBEq κ] in
theorem empty : Sound ({} : SharedDebouncer κ α) :=
  ⟨nofun, List.nodup_nil, .nil, nofun, nofun, nofun, nofun⟩

end Sound

/-! ### Tasks without an entry -/

/-- No task with a generation can find its entry any more, and none will be spawned with it. -/
structure Gone (s : SharedDebouncer κ α) (g : ℕ) : Prop where
  old : g < s.next
  spawned : g ∉ s.calls.map (·.generation)
  unlisted : ∀ e ∈ s.table, e.generation ≠ g

omit [BEq κ] in
theorem Gone.of_table {left : List (PendingEntry κ)} {tasks : List (TimerTask κ α)}
    {aborts : List ℕ} (h : s.Gone g) (hleft : left ⊆ s.table) :
    Gone { s with table := left, tasks, aborts } g :=
  ⟨h.old, h.spawned, fun e he => h.unlisted e (hleft he)⟩

/-- A task that has lost its entry does not act in the next step, and never finds an entry again. -/
theorem Gone.step (h : s.Gone g) {x : TaskEvent κ α} (hx : s.Step x s') :
    s'.Gone g ∧ x.started? ≠ some g := by
  cases hx with
  | take key delay action =>
    refine ⟨⟨Nat.lt_succ_of_lt h.old, ?_, h.unlisted⟩, nofun⟩
    rw [SharedDebouncer.take, List.map_append, List.mem_append, not_or]
    exact ⟨h.spawned, fun hmem => Nat.ne_of_lt h.old (List.mem_singleton.mp hmem)⟩
  | @insert c hc =>
    have hcancel : (s.cancel c.key).Gone g := h.of_table List.filter_sublist.subset
    refine ⟨⟨h.old, fun hmem => ?_, fun e he => ?_⟩, nofun⟩
    · exact h.spawned ((List.filter_sublist.map _).subset hmem)
    · rcases List.mem_append.mp he with hold | hnew
      · exact hcancel.unlisted e hold
      · -- the new entry has the generation of a caller
        rw [List.mem_singleton.mp hnew]
        exact fun heq => h.spawned (List.mem_map.mpr ⟨_, hc, heq⟩)
  | cancel key => exact ⟨h.of_table List.filter_sublist.subset, nofun⟩
  | cancelAll => exact ⟨h.of_table (List.nil_subset _), nofun⟩
  | abort late hg => exact ⟨h.of_table (List.Subset.refl _), nofun⟩
  | wake ht hp hdue => exact ⟨h.of_table (List.Subset.refl _), nofun⟩
  | start ht hp hown =>
    refine ⟨h.of_table List.filter_sublist.subset, fun heq => ?_⟩
    obtain ⟨e, he, _, hg⟩ := mem_of_generation? hown
    exact h.unlisted e he (hg.trans (Option.some.inj heq))
  | giveUp ht hp hown => exact ⟨h.of_table (List.Subset.refl _), nofun⟩
  | finish ht hp => exact ⟨h.of_table (List.Subset.refl _), nofun⟩
  | pass ms => exact ⟨⟨h.old, h.spawned, h.unlisted⟩, nofun⟩

theorem Gone.run (h : s.Gone g) {xs : List (TaskEvent κ α)} (hxs : Run s xs s') :
    g ∉ xs.filterMap TaskEvent.started? := by
  induction hxs with
  | nil => exact List.not_mem_nil
  | cons hx _ ih =>
    obtain ⟨hnext, hne⟩ := h.step hx
    intro hmem
    obtain ⟨x', hx', hg⟩ := List.mem_filterMap.mp hmem
    rcases List.mem_cons.mp hx' with rfl | hx'
    · exact hne hg
    · exact ih hnext (List.mem_filterMap.mpr ⟨x', hx', hg⟩)

variable [EquivBEq κ]

/-- A task whose key has another entry, or none, has lost its own. -/
theorem Sound.gone (h : s.Sound) (ht : t ∈ s.tasks)
    (hlost : generation? s.table t.key ≠ some t.generation) : s.Gone t.generation := by
  have hmem : t.generation ∈ s.tasks.map (·.generation) := List.mem_map.mpr ⟨t, ht, rfl⟩
  refine ⟨h.fresh _ (List.mem_append_left _ hmem), ?_, ?_⟩
  · exact fun hcall => (List.nodup_append.mp h.distinct).2.2 _ hmem _ hcall rfl
  · exact fun e he hg => hlost (h.generation?_of_owns he (h.owns he ht hg.symm))

theorem Sound.gone_of_start (h : s.Sound) (ht : t ∈ s.tasks)
    (hown : generation? s.table t.key = some t.generation) : (s.start t).Gone t.generation := by
  have hacting : { t with phase := .acting } ∈ (s.setPhase t.generation fun _ => .acting).tasks :=
    mem_setPhase.mpr ⟨t, ht, (if_pos rfl).symm⟩
  have hlost : generation? (s.start t).table t.key ≠ some t.generation := by
    change generation? (erase s.table t.key) t.key ≠ _
    rw [generation?_erase, BEq.rfl]
    nofun
  exact Sound.gone (t := { t with phase := .acting }) (h.start ht hown) hacting hlost

/-- A task that is superseded or cancelled has lost its entry. -/
theorem Sound.gone_of_breaksOff (h : s.Sound) {x : TaskEvent κ α} (hx : s.Step x s') (ht : t ∈ s.tasks)
    (hbreak : x.breaksOff t.key = true) : s'.Gone t.generation := by
  have hsound := h.step hx
  cases hx with
  | @insert c hc =>
    have hkey : (t.key == c.key) = true := hbreak
    refine hsound.gone (List.mem_append_left _ ht) fun hlive => ?_
    have hentry : ⟨c.key, c.generation⟩ ∈ (s.insert c).table :=
      List.mem_append_right _ List.mem_cons_self
    rw [generation?_congr _ hkey, generation?_of_mem hsound.single hentry] at hlive
    -- the caller's generation is not that of a task
    have hmem : t.generation ∈ s.tasks.map (·.generation) := List.mem_map.mpr ⟨t, ht, rfl⟩
    have hcall : c.generation ∈ s.calls.map (·.generation) := List.mem_map.mpr ⟨c, hc, rfl⟩
    exact (List.nodup_append.mp h.distinct).2.2 _ hmem _ hcall (Option.some.inj hlive).symm
  | cancel key =>
    refine hsound.gone ht fun hlive => ?_
    have hkey : (t.key == key) = true := hbreak
    change generation? (erase s.table key) t.key = _ at hlive
    rw [generation?_erase, hkey] at hlive
    cases hlive
  | cancelAll => exact hsound.gone ht nofun
  | _ => cases hbreak

/-! ### Actions -/

omit [EquivBEq κ] in
/-- A task that acts after a step acted before, or has taken its own entry in the step. -/
theorem Sound.acting_step (h : s.Sound) {x : TaskEvent κ α} (hx : s.Step x s')
    {t' : TimerTask κ α} (ht' : t' ∈ s'.tasks) (hp' : t'.phase = .acting) :
    t' ∈ s.tasks ∨ x = .start t'.generation ∧
      generation? s.table t'.key = some t'.generation ∧ s'.table = erase s.table t'.key := by
  -- tasks that are given another phase than that of acting do not count
  have hsame {g : ℕ} {f : TaskPhase → TaskPhase} (hmem : t' ∈ (s.setPhase g f).tasks)
      (hf : ∀ p, f p = .acting → p = .acting) : t' ∈ s.tasks := by
    obtain ⟨t, ht, rfl⟩ := mem_setPhase.mp hmem
    by_cases hg : t.generation = g
    · rw [if_pos hg] at hp' ⊢
      have heq : { t with phase := f t.phase } = t := by
        change f t.phase = .acting at hp'
        rw [hp', ← hf _ hp']
      rwa [heq]
    · rwa [if_neg hg]
  cases hx with
  | insert hc =>
    rcases List.mem_append.mp ht' with hold | hnew
    · exact .inl hold
    · rw [List.mem_singleton.mp hnew] at hp'
      cases hp'
  | abort late hg =>
    refine .inl (hsame ht' fun p hf => ?_)
    cases p <;> cases late <;> simp_all [TaskPhase.abort]
  | wake ht hp hdue => exact .inl (hsame ht' nofun)
  | giveUp ht hp hown => exact .inl (hsame ht' nofun)
  | finish ht hp => exact .inl (hsame ht' nofun)
  | @start t ht hp hown =>
    change t' ∈ (s.setPhase t.generation fun _ => .acting).tasks at ht'
    obtain ⟨u, hu, rfl⟩ := mem_setPhase.mp ht'
    split
    · next hg =>
      obtain rfl := h.eq_of_generation_eq hu ht hg
      exact .inr ⟨rfl, hown, rfl⟩
    · exact .inl hu
  | _ => exact .inl ht'

end SharedDebouncer

end WorkspaceLink
