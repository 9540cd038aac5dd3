/-!
Debouncing by timers. Scheduling an action for a key replaces the timer pending for that key, so
that a burst leaves one action, which is due a delay after the last of the burst.

Every timer has a generation of its own. A timer that wakes although it has been replaced, because
it was aborted too late, finds another generation in the table, or none, and does nothing.
-/

namespace WorkspaceLink

/-- An action waiting for its time. -/
structure Timer (κ α : Type) where
  key : κ
  due : Nat
  action : α

/-- A timer that sleeps until it is due. -/
structure Sleeper (κ α : Type) extends Timer κ α where
  generation : Nat

/-- The generation of the timer that is pending for a key. -/
structure PendingEntry (κ : Type) where
  key : κ
  generation : Nat

namespace Debouncer

variable {κ α : Type}

/-- Puts an item before those that are due no earlier. -/
def insertByDue {τ : Type} (due : τ → Nat) (t : τ) : List τ → List τ
  | [] => [t]
  | u :: us => if due t ≤ due u then t :: u :: us else u :: insertByDue due t us

/-- Items in the order in which they are due and, at the same time, as they stand. -/
def byDue {τ : Type} (due : τ → Nat) : List τ → List τ
  | [] => []
  | t :: ts => insertByDue due t (byDue due ts)

variable [BEq κ]

/-- The generation that a table holds for a key. -/
def generation? (table : List (PendingEntry κ)) (key : κ) : Option Nat :=
  (table.find? fun e => e.key == key).map (·.generation)

def erase (table : List (PendingEntry κ)) (key : κ) : List (PendingEntry κ) :=
  table.filter fun e => !(e.key == key)

/-- Timers wake in turn. One whose generation the table holds for its key is taken from the table
and goes off; the others do nothing. Gives the table afterwards and the timers that go off. -/
def wake (table : List (PendingEntry κ)) :
    List (Sleeper κ α) → List (PendingEntry κ) × List (Timer κ α)
  | [] => (table, [])
  | t :: ts =>
    if generation? table t.key = some t.generation then
      let (table, fired) := wake (erase table t.key) ts
      (table, t.toTimer :: fired)
    else wake table ts

/-- Timers after those of some generations have been aborted, except those aborted too late. -/
def abort (late : Nat → Bool) (generations : List Nat) (sleeping : List (Sleeper κ α)) :
    List (Sleeper κ α) :=
  sleeping.filter fun t => !generations.contains t.generation || late t.generation

/-- How the table of a debouncer and its sleeping timers belong together. -/
structure Sound (next : Nat) (table : List (PendingEntry κ)) (sleeping : List (Sleeper κ α)) :
    Prop where
  fresh : ∀ t ∈ sleeping, t.generation < next
  distinct : sleeping.Pairwise fun t u => t.generation ≠ u.generation
  single : table.Pairwise fun e f => (e.key == f.key) = false
  matched : ∀ e ∈ table, ∃ t ∈ sleeping, (t.key == e.key) = true ∧ t.generation = e.generation

theorem Sound.empty : Sound 0 ([] : List (PendingEntry κ)) ([] : List (Sleeper κ α)) :=
  ⟨nofun, .nil, .nil, nofun⟩

end Debouncer

open Debouncer in
/-- A table with an entry for each key that has a pending timer, the timers that sleep, and the
time. Whether the abort of a timer comes too late, so that it sleeps on, is given by generation. -/
structure Debouncer (κ α : Type) [BEq κ] where
  now : Nat := 0
  next : Nat := 0
  table : List (PendingEntry κ) := []
  sleeping : List (Sleeper κ α) := []
  late : Nat → Bool := fun _ => false
  sound : Sound next table sleeping := by exact .empty

namespace Debouncer

variable {κ α : Type} [BEq κ]

/-! ### What belongs together stays together -/

theorem mem_of_generation? {table : List (PendingEntry κ)} {key : κ} {g : Nat}
    (h : generation? table key = some g) :
    ∃ e ∈ table, (e.key == key) = true ∧ e.generation = g := by
  obtain ⟨e, he, hg⟩ := Option.map_eq_some_iff.mp h
  have hkey := List.find?_some (p := fun e : PendingEntry κ => e.key == key) he
  exact ⟨e, List.mem_of_find?_eq_some he, hkey, hg⟩

theorem mem_erase {table : List (PendingEntry κ)} {key : κ} {e : PendingEntry κ} :
    e ∈ erase table key ↔ e ∈ table ∧ (e.key == key) = false := by
  simp [erase]

theorem generation?_of_mem {table : List (PendingEntry κ)} {e : PendingEntry κ} [ReflBEq κ]
    (hs : table.Pairwise fun e f => (e.key == f.key) = false) (he : e ∈ table) :
    generation? table e.key = some e.generation := by
  induction table with
  | nil => cases he
  | cons f table ih =>
    obtain ⟨hf, hs⟩ := List.pairwise_cons.mp hs
    rcases List.mem_cons.mp he with rfl | hmem
    · simp [generation?]
    · have hrest := ih hs hmem
      simpa [generation?, hf e hmem] using hrest

variable [EquivBEq κ]

theorem generation?_congr (table : List (PendingEntry κ)) {k l : κ} (h : (k == l) = true) :
    generation? table k = generation? table l := by
  have hsame : (fun e : PendingEntry κ => e.key == k) = fun e => e.key == l := by
    funext e
    exact BEq.congr_right h
  rw [generation?, generation?, hsame]

theorem generation?_erase (table : List (PendingEntry κ)) (k l : κ) :
    generation? (erase table k) l = if l == k then none else generation? table l := by
  rw [generation?, generation?, erase, List.find?_filter]
  cases h : l == k with
  | true =>
    have hnone : (fun e : PendingEntry κ => !(e.key == k) && e.key == l) = fun _ => false := by
      funext e
      rw [BEq.congr_right h, Bool.not_and_self]
    simp [hnone]
  | false =>
    have hsame : (fun e : PendingEntry κ => !(e.key == k) && e.key == l) = fun e => e.key == l := by
      funext e
      cases he : e.key == l with
      | true => rw [BEq.congr_left he, h]; rfl
      | false => exact Bool.and_false _
    simp [hsame]

namespace Sound

variable {next : Nat} {table : List (PendingEntry κ)} {sleeping : List (Sleeper κ α)}

omit [EquivBEq κ] in
/-- No two sleeping timers have the same generation. -/
theorem eq_of_generation_eq (h : Sound next table sleeping) {t u : Sleeper κ α}
    (ht : t ∈ sleeping) (hu : u ∈ sleeping) (hg : t.generation = u.generation) : t = u := by
  obtain ⟨i, hi, rfl⟩ := List.mem_iff_getElem.mp ht
  obtain ⟨j, hj, rfl⟩ := List.mem_iff_getElem.mp hu
  have hne := List.pairwise_iff_getElem.mp h.distinct
  rcases Nat.lt_trichotomy i j with hij | rfl | hij
  · exact absurd hg (hne i j hi hj hij)
  · rfl
  · exact absurd hg.symm (hne j i hj hi hij)

/-- Entries of one generation have one key: it is that of the timer. -/
theorem key_eq (h : Sound next table sleeping) {e f : PendingEntry κ} (he : e ∈ table)
    (hf : f ∈ table) (hg : e.generation = f.generation) : (e.key == f.key) = true := by
  obtain ⟨t, ht, hte, htg⟩ := h.matched e he
  obtain ⟨u, hu, huf, hug⟩ := h.matched f hf
  obtain rfl := h.eq_of_generation_eq ht hu (by omega)
  exact PartialEquivBEq.trans (PartialEquivBEq.symm hte) huf

omit [EquivBEq κ] in
/-- Entries may be taken from the table if their timers are aborted, and no others. -/
theorem abort (h : Sound next table sleeping) (late : Nat → Bool) {generations : List Nat}
    {left : List (PendingEntry κ)} (hleft : left.Sublist table)
    (hspared : ∀ e ∈ left, e.generation ∉ generations) :
    Sound next left (Debouncer.abort late generations sleeping) where
  fresh t ht := h.fresh t (List.mem_filter.mp ht).1
  distinct := h.distinct.filter _
  single := h.single.sublist hleft
  matched e he := by
    obtain ⟨t, ht, hkey, hg⟩ := h.matched e (hleft.subset he)
    refine ⟨t, List.mem_filter.mpr ⟨ht, ?_⟩, hkey, hg⟩
    simp [hg, hspared e he]

theorem cancel (h : Sound next table sleeping) (late : Nat → Bool) (key : κ) :
    Sound next (erase table key)
      (Debouncer.abort late (generation? table key).toList sleeping) := by
  refine h.abort late List.filter_sublist fun e he hmem => ?_
  obtain ⟨he, hne⟩ := mem_erase.mp he
  obtain ⟨f, hf, hkey, hg⟩ := mem_of_generation? (Option.mem_toList.mp hmem)
  have hef := PartialEquivBEq.trans (h.key_eq he hf hg.symm) hkey
  rw [hef] at hne
  cases hne

omit [EquivBEq κ] in
theorem add [ReflBEq κ] (h : Sound next table sleeping) {key : κ} (due : Nat) (action : α)
    (hkey : ∀ e ∈ table, (e.key == key) = false) :
    Sound (next + 1) (table ++ [⟨key, next⟩]) (sleeping ++ [⟨⟨key, due, action⟩, next⟩]) where
  fresh t ht := by
    rcases List.mem_append.mp ht with hold | hnew
    · exact Nat.lt_succ_of_lt (h.fresh t hold)
    · rw [List.mem_singleton.mp hnew]
      exact Nat.lt_succ_self next
  distinct := by
    refine List.pairwise_append.mpr ⟨h.distinct, List.pairwise_singleton _ _, ?_⟩
    intro t ht u hu
    rw [List.mem_singleton.mp hu]
    exact Nat.ne_of_lt (h.fresh t ht)
  single := by
    refine List.pairwise_append.mpr ⟨h.single, List.pairwise_singleton _ _, ?_⟩
    intro e he f hf
    rw [List.mem_singleton.mp hf]
    exact hkey e he
  matched e he := by
    rcases List.mem_append.mp he with hold | hnew
    · obtain ⟨t, ht, hmatch⟩ := h.matched e hold
      exact ⟨t, List.mem_append_left _ ht, hmatch⟩
    · rw [List.mem_singleton.mp hnew]
      exact ⟨_, List.mem_append_right _ List.mem_cons_self, BEq.rfl, rfl⟩

end Sound

theorem mem_wake {e : PendingEntry κ} {ts : List (Sleeper κ α)} {table : List (PendingEntry κ)}
    (h : e ∈ (wake table ts).1) :
    e ∈ table ∧ ∀ t ∈ ts, generation? table t.key = some t.generation →
      (e.key == t.key) = false := by
  induction ts generalizing table with
  | nil => exact ⟨h, nofun⟩
  | cons t ts ih =>
    rw [wake] at h
    split at h
    · next hlive =>
      obtain ⟨he, hrest⟩ := ih h
      obtain ⟨he, hne⟩ := mem_erase.mp he
      refine ⟨he, fun u hu hu' => ?_⟩
      rcases List.mem_cons.mp hu with rfl | hu
      · exact hne
      · cases hkey : u.key == t.key with
        | true => rw [BEq.congr_right hkey]; exact hne
        | false =>
          -- the entry of `u` is not the one that has been taken
          apply hrest u hu
          rw [generation?_erase, hkey]
          exact hu'
    · next hstale =>
      obtain ⟨he, hrest⟩ := ih h
      refine ⟨he, fun u hu hu' => ?_⟩
      rcases List.mem_cons.mp hu with rfl | hu
      · exact absurd hu' hstale
      · exact hrest u hu hu'

omit [EquivBEq κ] in
theorem wake_sublist (table : List (PendingEntry κ)) (ts : List (Sleeper κ α)) :
    (wake table ts).1.Sublist table := by
  induction ts generalizing table with
  | nil => exact List.Sublist.refl _
  | cons t ts ih =>
    rw [wake]
    split
    · exact (ih _).trans List.filter_sublist
    · exact ih _

/-- After the timers that are due have woken, those of the entries left in the table still sleep. -/
theorem Sound.wake {next : Nat} {table : List (PendingEntry κ)} {sleeping : List (Sleeper κ α)}
    (h : Sound next table sleeping) (time : Nat) {woken : List (Sleeper κ α)}
    (hwoken : ∀ t ∈ sleeping, t.due ≤ time → t ∈ woken) :
    Sound next (Debouncer.wake table woken).1 (sleeping.filter (time < ·.due)) where
  fresh t ht := h.fresh t (List.mem_filter.mp ht).1
  distinct := h.distinct.filter _
  single := h.single.sublist (wake_sublist table woken)
  matched e he := by
    obtain ⟨he, hleft⟩ := mem_wake he
    obtain ⟨t, ht, hkey, hg⟩ := h.matched e he
    refine ⟨t, List.mem_filter.mpr ⟨ht, ?_⟩, hkey, hg⟩
    rw [decide_eq_true_eq]
    -- a timer that is due and that the table knows takes its entry along
    refine Nat.lt_of_not_le fun hdue => ?_
    have hlive : generation? table t.key = some t.generation := by
      rw [generation?_congr table hkey, generation?_of_mem h.single he, hg]
    have hne := hleft t (hwoken t ht hdue) hlive
    rw [BEq.comm, hkey] at hne
    cases hne

theorem mem_byDue {τ : Type} {due : τ → Nat} {t : τ} {ts : List τ} :
    t ∈ byDue due ts ↔ t ∈ ts := by
  have hinsert (u : τ) (us : List τ) : t ∈ insertByDue due u us ↔ t = u ∨ t ∈ us := by
    induction us with
    | nil => simp [insertByDue]
    | cons v us ih =>
      rw [insertByDue]
      split
      · simp
      · rw [List.mem_cons, ih, List.mem_cons]
        exact or_left_comm
  induction ts with
  | nil => rfl
  | cons u ts ih => exact (hinsert u _).trans ((or_congr_right ih).trans List.mem_cons.symm)

/-! ### Operations -/

def cancel (d : Debouncer κ α) (key : κ) : Debouncer κ α :=
  { d with
    table := erase d.table key
    sleeping := abort d.late (generation? d.table key).toList d.sleeping
    sound := d.sound.cancel d.late key }

def cancelAll (d : Debouncer κ α) : Debouncer κ α :=
  { d with
    table := []
    sleeping := abort d.late (d.table.map (·.generation)) d.sleeping
    sound := d.sound.abort d.late (List.nil_sublist _) nofun }

/-- Sets the timer of a key, in place of the one that it may have. -/
def schedule (d : Debouncer κ α) (key : κ) (delay : Nat) (action : α) : Debouncer κ α :=
  let hkey : ∀ e ∈ (d.cancel key).table, (e.key == key) = false := fun _ he => (mem_erase.mp he).2
  let d := d.cancel key
  { d with
    next := d.next + 1
    table := d.table ++ [⟨key, d.next⟩]
    sleeping := d.sleeping ++ [⟨⟨key, d.now + delay, action⟩, d.next⟩]
    sound := d.sound.add (d.now + delay) action hkey }

/-- The timers that wake while time moves on by `ms`, in order. -/
def woken (d : Debouncer κ α) (ms : Nat) : List (Sleeper κ α) :=
  byDue (·.due) (d.sleeping.filter (·.due ≤ d.now + ms))

/-- The timers that go off while time moves on by `ms`, in order. -/
def expired (d : Debouncer κ α) (ms : Nat) : List (Timer κ α) :=
  (wake d.table (d.woken ms)).2

/-- The debouncer after time has moved on by `ms`. -/
def advance (d : Debouncer κ α) (ms : Nat) : Debouncer κ α :=
  { d with
    now := d.now + ms
    table := (wake d.table (d.woken ms)).1
    sleeping := d.sleeping.filter (d.now + ms < ·.due)
    sound := d.sound.wake (d.now + ms) fun _ ht hdue =>
      mem_byDue.mpr (List.mem_filter.mpr ⟨ht, decide_eq_true hdue⟩) }

def isPending (d : Debouncer κ α) (key : κ) : Bool :=
  (generation? d.table key).isSome

def pending (d : Debouncer κ α) : Nat :=
  d.table.length

end Debouncer

end WorkspaceLink
