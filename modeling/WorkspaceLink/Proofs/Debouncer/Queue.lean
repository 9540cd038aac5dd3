import Mathlib.Data.List.Sort
import WorkspaceLink.Watch.Debouncer

/-! A debouncer is a queue of timers. Seen from outside, only the timers count that the table knows;
generations and timers that sleep on in vain do not show. -/

namespace WorkspaceLink

namespace Debouncer

/-! ### Items in the order in which they are due -/

section Sorting

variable {τ σ : Type} (due : τ → ℕ)

theorem byDue_eq_insertionSort (ts : List τ) :
    byDue due ts = ts.insertionSort fun t u => due t ≤ due u := by
  have hinsert (t : τ) (us : List τ) :
      insertByDue due t us = us.orderedInsert (fun t u => due t ≤ due u) t := by
    induction us with
    | nil => rfl
    | cons u us ih => rw [insertByDue, List.orderedInsert_cons, ih]
  induction ts with
  | nil => rfl
  | cons t ts ih => rw [byDue, List.insertionSort_cons, hinsert, ih]

theorem byDue_perm (ts : List τ) : (byDue due ts).Perm ts := by
  rw [byDue_eq_insertionSort]
  exact List.perm_insertionSort _ ts

theorem byDue_pairwise (ts : List τ) : (byDue due ts).Pairwise fun t u => due t ≤ due u := by
  have : Std.Total fun t u : τ => due t ≤ due u := ⟨fun t u => Nat.le_total (due t) (due u)⟩
  have : IsTrans τ fun t u => due t ≤ due u := ⟨fun _ _ _ => Nat.le_trans⟩
  rw [byDue_eq_insertionSort]
  exact List.pairwise_insertionSort _ ts

theorem filter_insertByDue (p : τ → Bool) (t : τ) (us : List τ)
    (hs : us.Pairwise fun t u => due t ≤ due u) :
    (insertByDue due t us).filter p = ([t].filter p).foldr (insertByDue due) (us.filter p) := by
  induction us with
  | nil => cases h : p t <;> simp [insertByDue, h]
  | cons u us ih =>
    obtain ⟨hu, hus⟩ := List.pairwise_cons.mp hs
    have hih := ih hus
    by_cases hle : due t ≤ due u
    · -- `t` stands in front of all that is left of the sorted list
      have hfront (vs : List τ) (hv : ∀ v ∈ vs, due t ≤ due v) :
          insertByDue due t vs = t :: vs := by
        cases vs with
        | nil => rfl
        | cons v vs => rw [insertByDue, if_pos (hv v List.mem_cons_self)]
      have hall : ∀ v ∈ (u :: us).filter p, due t ≤ due v := by
        intro v hv
        rcases List.mem_cons.mp (List.mem_filter.mp hv).1 with rfl | hm
        · exact hle
        · exact hle.trans (hu v hm)
      rw [insertByDue, if_pos hle, List.filter_cons]
      cases h : p t <;> simp [h, hfront _ hall]
    · rw [insertByDue, if_neg hle, List.filter_cons, List.filter_cons, hih]
      cases hpt : p t <;> cases hpu : p u <;> simp [hpt, insertByDue, hle]

/-- Sorting is stable: it commutes with leaving items out. -/
theorem filter_byDue (p : τ → Bool) (ts : List τ) :
    (byDue due ts).filter p = byDue due (ts.filter p) := by
  induction ts with
  | nil => rfl
  | cons t ts ih =>
    rw [byDue, filter_insertByDue due p t _ (byDue_pairwise due ts), ih, List.filter_cons]
    cases h : p t <;> simp [h, byDue]

theorem map_byDue (f : σ → τ) (ts : List σ) :
    (byDue (fun t => due (f t)) ts).map f = byDue due (ts.map f) := by
  have hinsert (t : σ) (us : List σ) :
      (insertByDue (fun t => due (f t)) t us).map f = insertByDue due (f t) (us.map f) := by
    induction us with
    | nil => rfl
    | cons u us ih =>
      by_cases hle : due (f t) ≤ due (f u)
      · simp [insertByDue, hle]
      · simp [insertByDue, hle, ih]
  induction ts with
  | nil => rfl
  | cons t ts ih => rw [byDue, hinsert, ih, List.map_cons, byDue]

end Sorting

end Debouncer

/-! ### Queues -/

/-- Pending timers, at most one a key, in the order in which they were set, and the time. -/
structure TimerQueue (κ α : Type) where
  now : ℕ := 0
  timers : List (Timer κ α) := []

namespace TimerQueue

variable {κ α : Type} (d : TimerQueue κ α)

/-- The timers that are due by the time that comes after `ms`, in order. -/
def expired (ms : ℕ) : List (Timer κ α) :=
  Debouncer.byDue (·.due) (d.timers.filter (·.due ≤ d.now + ms))

def advance (ms : ℕ) : TimerQueue κ α :=
  ⟨d.now + ms, d.timers.filter (d.now + ms < ·.due)⟩

def cancelAll : TimerQueue κ α :=
  ⟨d.now, []⟩

variable {d} in
theorem mem_expired_iff {ms : ℕ} {t : Timer κ α} :
    t ∈ d.expired ms ↔ t ∈ d.timers ∧ t.due ≤ d.now + ms := by
  rw [expired, (Debouncer.byDue_perm _ _).mem_iff, List.mem_filter, decide_eq_true_eq]

/-- Timers may be left out before they go off as well as after it. -/
theorem filter_expired (p : Timer κ α → Bool) (ms : ℕ) :
    (d.expired ms).filter p = ({ d with timers := d.timers.filter p } : TimerQueue κ α).expired ms := by
  rw [expired, Debouncer.filter_byDue, List.filter_comm]
  rfl

variable [BEq κ]

variable {d} in
theorem pairwise_expired [EquivBEq κ] (ms : ℕ)
    (hd : d.timers.Pairwise fun t u => (t.key == u.key) = false) :
    (d.expired ms).Pairwise fun t u => t.due ≤ u.due ∧ (t.key == u.key) = false := by
  have hsymm : Std.Symm fun t u : Timer κ α => (t.key == u.key) = false :=
    ⟨fun t u h => by rw [BEq.comm]; exact h⟩
  refine (Debouncer.byDue_pairwise _ _).and ?_
  exact (Debouncer.byDue_perm _ _).symm.pairwise (hd.filter _) (hsymm.symm _ _)

def cancel (key : κ) : TimerQueue κ α :=
  ⟨d.now, d.timers.filter fun t => !(t.key == key)⟩

def schedule (key : κ) (delay : ℕ) (action : α) : TimerQueue κ α :=
  ⟨d.now, d.timers.filter (fun t => !(t.key == key)) ++ [⟨key, d.now + delay, action⟩]⟩

end TimerQueue

namespace Debouncer

variable {κ α : Type} [BEq κ]

/-- Whether the table knows a timer. -/
def knows (table : List (PendingEntry κ)) (t : Sleeper κ α) : Bool :=
  generation? table t.key == some t.generation

/-- What shows of a debouncer. -/
def queue (d : Debouncer κ α) : TimerQueue κ α :=
  ⟨d.now, (d.sleeping.filter (knows d.table)).map (·.toTimer)⟩

variable {table : List (PendingEntry κ)} {t u : Sleeper κ α} {ts : List (Sleeper κ α)}

theorem knows_iff : knows table t = true ↔ generation? table t.key = some t.generation :=
  beq_iff_eq

theorem generation?_add (table : List (PendingEntry κ)) (e : PendingEntry κ) (key : κ) :
    generation? (table ++ [e]) key =
      (generation? table key).or (if e.key == key then some e.generation else none) := by
  rw [generation?, generation?, List.find?_append, Option.map_or, List.find?_singleton]
  cases e.key == key <;> rfl

variable [EquivBEq κ]

/-- Taking one timer from the table makes no difference to the others. -/
theorem knows_erase (hu : knows table u = true) (hne : u.generation ≠ t.generation) :
    knows (erase table u.key) t = knows table t := by
  rw [knows, knows, generation?_erase]
  cases hkey : t.key == u.key with
  | false => rfl
  | true =>
    rw [generation?_congr table hkey, knows_iff.mp hu]
    simpa using hne

theorem knows_wake (h : ∀ u ∈ ts, u.generation ≠ t.generation) :
    knows (wake table ts).1 t = knows table t := by
  induction ts generalizing table with
  | nil => rfl
  | cons u ts ih =>
    have hrest : ∀ u ∈ ts, u.generation ≠ t.generation := fun v hv =>
      h v (List.mem_cons_of_mem _ hv)
    rw [wake]
    split
    · next hlive =>
      have herase := knows_erase (knows_iff.mpr hlive) (h u List.mem_cons_self)
      exact (ih hrest).trans herase
    · exact ih hrest

/-- Of the timers that wake, those go off that the table knows. -/
theorem wake_fired (h : ts.Pairwise fun t u => t.generation ≠ u.generation) :
    (wake table ts).2 = (ts.filter (knows table)).map (·.toTimer) := by
  induction ts generalizing table with
  | nil => rfl
  | cons u ts ih =>
    obtain ⟨hu, hts⟩ := List.pairwise_cons.mp h
    rw [wake]
    split
    · next hlive =>
      have hknows := knows_iff.mpr hlive
      -- the others have other generations, so they are known or not as before
      have hsame : ts.filter (knows (erase table u.key)) = ts.filter (knows table) :=
        List.filter_congr fun t ht => knows_erase hknows (hu t ht)
      rw [List.filter_cons_of_pos hknows, List.map_cons, ← hsame, ← ih hts]
    · next hstale => rw [List.filter_cons_of_neg (by rwa [knows_iff]), ih hts]

theorem Sound.nodup_generations {next : ℕ} {sleeping : List (Sleeper κ α)}
    (h : Sound next table sleeping) : (table.map (·.generation)).Nodup := by
  refine List.pairwise_map.mpr (h.single.imp_of_mem fun he hf hne hg => ?_)
  rw [h.key_eq he hf hg] at hne
  cases hne

variable (d : Debouncer κ α)

/-- Aborted or not, a timer that has been taken from the table does not show. -/
theorem queue_cancel (key : κ) : (d.cancel key).queue = d.queue.cancel key := by
  have hknows (t : Sleeper κ α) :
      (knows (erase d.table key) t && (!(generation? d.table key).toList.contains t.generation ||
        d.late t.generation)) = (!(t.key == key) && knows d.table t) := by
    rw [knows, knows, generation?_erase]
    cases hkey : t.key == key with
    | true => rfl
    | false =>
      cases ht : generation? d.table t.key == some t.generation with
      | false => simp [ht]
      | true =>
        -- the entry of `key` has another generation, so `t` has not been aborted
        have hspared : t.generation ∉ (generation? d.table key).toList := by
          intro hmem
          obtain ⟨e, he, hek, heg⟩ := mem_of_generation? (Option.mem_toList.mp hmem)
          obtain ⟨f, hf, hfk, hfg⟩ := mem_of_generation? (beq_iff_eq.mp ht)
          have hfe := d.sound.key_eq hf he (by omega)
          have hsame := BEq.trans (BEq.symm hfk) (BEq.trans hfe hek)
          rw [hsame] at hkey
          cases hkey
        simp [ht, hspared]
  have htimers : ((abort d.late (generation? d.table key).toList d.sleeping).filter
      (knows (erase d.table key))).map (·.toTimer) =
        ((d.sleeping.filter (knows d.table)).map (·.toTimer)).filter fun t => !(t.key == key) := by
    rw [abort, List.filter_filter, List.filter_map, List.filter_filter]
    exact congrArg _ (List.filter_congr fun t _ => hknows t)
  exact congrArg (TimerQueue.mk d.now) htimers

omit [EquivBEq κ] in
theorem queue_cancelAll : d.cancelAll.queue = d.queue.cancelAll := by
  have hnone (ts : List (Sleeper κ α)) : ts.filter (knows []) = [] :=
    List.filter_eq_nil_iff.mpr fun t _ => by simp [knows, generation?]
  exact congrArg (TimerQueue.mk d.now) (congrArg (List.map (·.toTimer)) (hnone _))

omit [EquivBEq κ] in
theorem timers_cancelAll : d.cancelAll.queue.timers = [] := by
  rw [queue_cancelAll]
  rfl

theorem queue_schedule (key : κ) (delay : ℕ) (action : α) :
    (d.schedule key delay action).queue = d.queue.schedule key delay action := by
  let new : Sleeper κ α := ⟨⟨key, d.now + delay, action⟩, d.next⟩
  let entry : PendingEntry κ := ⟨key, d.next⟩
  -- the new entry has a generation that no timer had before: it changes nothing for them
  have hold : ∀ t ∈ (d.cancel key).sleeping,
      knows ((d.cancel key).table ++ [entry]) t = knows (d.cancel key).table t := by
    intro t ht
    have hfresh : t.generation < d.next := (d.cancel key).sound.fresh t ht
    rw [knows, knows, generation?_add]
    cases generation? (d.cancel key).table t.key with
    | some g => rfl
    | none =>
      cases hkey : entry.key == t.key with
      | false => rfl
      | true =>
        have hne : d.next ≠ t.generation := Nat.ne_of_gt hfresh
        simpa [entry] using hne
  have hnew : knows ((d.cancel key).table ++ [entry]) new = true := by
    have hnone : generation? (d.cancel key).table key = none := by
      rw [cancel, generation?_erase, BEq.rfl]
      rfl
    rw [knows_iff, generation?_add, hnone]
    simp [new, entry]
  have htimers : (((d.cancel key).sleeping ++ [new]).filter
      (knows ((d.cancel key).table ++ [entry]))).map (·.toTimer) =
        (d.cancel key).queue.timers ++ [new.toTimer] := by
    rw [List.filter_append, List.filter_congr hold, List.filter_singleton, hnew, List.map_append]
    rfl
  have hqueue := queue_cancel d key
  refine (congrArg (TimerQueue.mk d.now) htimers).trans ?_
  rw [hqueue]
  rfl

theorem expired_eq (ms : ℕ) : d.expired ms = d.queue.expired ms := by
  have hdistinct : (d.woken ms).Pairwise fun t u => t.generation ≠ u.generation :=
    (byDue_perm _ _).symm.pairwise (d.sound.distinct.filter _) fun h => h.symm
  -- sorting is stable, so timers may be left out before it as well as after it
  rw [expired, wake_fired hdistinct, woken, filter_byDue, List.filter_comm,
    map_byDue (fun t : Timer κ α => t.due) (fun t : Sleeper κ α => t.toTimer)]
  rw [TimerQueue.expired, queue, List.filter_map]
  rfl

theorem queue_advance (ms : ℕ) : (d.advance ms).queue = d.queue.advance ms := by
  have hknows : ∀ t ∈ d.sleeping.filter (d.now + ms < ·.due),
      knows (wake d.table (d.woken ms)).1 t = knows d.table t := by
    intro t ht
    obtain ⟨ht, hlate⟩ := List.mem_filter.mp ht
    -- none of those that wake is `t`, and generations are distinct
    apply knows_wake
    intro u hu hg
    obtain ⟨hu, hdue⟩ := List.mem_filter.mp (mem_byDue.mp hu)
    obtain rfl := d.sound.eq_of_generation_eq hu ht hg
    simp only [decide_eq_true_eq] at hlate hdue
    omega
  have htimers : ((d.sleeping.filter (d.now + ms < ·.due)).filter
      (knows (wake d.table (d.woken ms)).1)).map (·.toTimer) =
        ((d.sleeping.filter (knows d.table)).map (·.toTimer)).filter (d.now + ms < ·.due) := by
    rw [List.filter_congr hknows, List.filter_comm, List.filter_map]
    rfl
  exact congrArg (TimerQueue.mk (d.now + ms)) htimers

theorem pending_eq : d.pending = d.queue.timers.length := by
  have hentries : (d.table.map (·.generation)).Nodup := d.sound.nodup_generations
  have htimers : ((d.sleeping.filter (knows d.table)).map (·.generation)).Nodup :=
    List.pairwise_map.mpr (d.sound.distinct.filter _)
  -- the entries and the timers that they know have the same generations, each of them once
  have hsame : (d.table.map (·.generation)).Perm
      ((d.sleeping.filter (knows d.table)).map (·.generation)) := by
    refine (List.perm_ext_iff_of_nodup hentries htimers).mpr fun g => ?_
    simp only [List.mem_map, List.mem_filter, knows_iff]
    constructor
    · intro h
      obtain ⟨e, he, rfl⟩ := h
      obtain ⟨t, ht, hkey, hg⟩ := d.sound.matched e he
      refine ⟨t, ⟨ht, ?_⟩, hg⟩
      rw [generation?_congr d.table hkey, generation?_of_mem d.sound.single he, hg]
    · intro h
      obtain ⟨t, ⟨_, hlive⟩, rfl⟩ := h
      obtain ⟨e, he, _, hg⟩ := mem_of_generation? hlive
      exact ⟨e, he, hg⟩
  simpa [pending, queue] using hsame.length_eq

theorem isPending_eq (key : κ) : d.isPending key = d.queue.timers.any (·.key == key) := by
  rw [Bool.eq_iff_iff, isPending, Option.isSome_iff_exists, List.any_eq_true]
  simp only [queue, List.mem_map, List.mem_filter, knows_iff]
  constructor
  · intro h
    obtain ⟨g, hg⟩ := h
    obtain ⟨e, he, hkey, rfl⟩ := mem_of_generation? hg
    obtain ⟨t, ht, hte, htg⟩ := d.sound.matched e he
    have htkey : (t.key == key) = true := BEq.trans hte hkey
    refine ⟨t.toTimer, ⟨t, ⟨ht, ?_⟩, rfl⟩, htkey⟩
    rw [generation?_congr d.table htkey, hg, htg]
  · intro h
    obtain ⟨_, ⟨t, ⟨_, hlive⟩, rfl⟩, hkey⟩ := h
    exact ⟨t.generation, by rw [← generation?_congr d.table hkey, hlive]⟩

end Debouncer

end WorkspaceLink
