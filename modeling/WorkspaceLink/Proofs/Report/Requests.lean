import Mathlib.Data.List.Dedup
import Mathlib.Data.List.Flatten
import WorkspaceLink.Report.Client

/-!
Requests made one after another. What such requests come to depends on how often each was made
before, and in any order the same requests get the same answers, if not each from the same place.
-/

namespace WorkspaceLink

section Counted

variable {α β γ : Type} [DecidableEq β] {key : α → β} {as : List α} {ks ks' : List β}

/-- The elements of a list, each with the number of elements before it that have its key. Those
before the list have the keys `ks`. -/
def counted (key : α → β) (ks : List β) : List α → List (α × Nat)
  | [] => []
  | a :: as => (a, ks.count (key a)) :: counted key (ks ++ [key a]) as

/-- Of the keys before a list, only those count that are its own. -/
theorem counted_congr (h : ∀ a ∈ as, ks.count (key a) = ks'.count (key a)) :
    counted key ks as = counted key ks' as := by
  induction as generalizing ks ks' with
  | nil => rfl
  | cons a as ih =>
    rw [List.forall_mem_cons] at h
    rw [counted, counted, h.1]
    congr 1
    apply ih
    intro a' ha'
    rw [List.count_append, List.count_append, h.2 a' ha']

theorem counted_of_not_mem (h : ∀ a ∈ as, key a ∉ ks) : counted key ks as = counted key [] as :=
  counted_congr fun a ha => List.count_eq_zero.mpr (h a ha)

/-- Elements with keys of their own are each the first. -/
theorem counted_of_nodup (hnodup : (as.map key).Nodup) (h : ∀ a ∈ as, key a ∉ ks) :
    counted key ks as = as.map fun a => (a, 0) := by
  induction as generalizing ks with
  | nil => rfl
  | cons a as ih =>
    rw [List.map_cons, List.nodup_cons] at hnodup
    rw [List.forall_mem_cons] at h
    rw [counted, List.count_eq_zero.mpr h.1, List.map_cons, ih hnodup.2]
    intro a' ha'
    rw [List.mem_append, List.mem_singleton, not_or]
    refine ⟨h.2 a' ha', fun heq => hnodup.1 ?_⟩
    rw [← heq]
    exact List.mem_map_of_mem ha'

theorem counted_map (f : γ → α) (cs : List γ) :
    counted key ks (cs.map f) = (counted (key ∘ f) ks cs).map fun (c, n) => (f c, n) := by
  induction cs generalizing ks with
  | nil => rfl
  | cons c cs ih =>
    rw [List.map_cons, counted, ih, counted, List.map_cons]
    rfl

/-- The keys of a list, numbered, are the same in any order of the list. -/
theorem counted_perm (h : ks.Perm ks') (before : List β) :
    (counted id before ks).Perm (counted id before ks') := by
  induction h generalizing before with
  | nil => exact .nil
  | cons k _ ih => exact (ih _).cons _
  | swap k k' ks =>
    by_cases hk : k = k'
    · rw [hk]
    -- two keys that differ do not count for each other
    have hcount : (before ++ [k]).count k' = before.count k' := by
      rw [List.count_append, List.count_singleton, if_neg (by simpa using hk), Nat.add_zero]
    have hcount' : (before ++ [k']).count k = before.count k := by
      rw [List.count_append, List.count_singleton, if_neg (by simpa using Ne.symm hk), Nat.add_zero]
    have hrest : counted id (before ++ [k'] ++ [k]) ks = counted id (before ++ [k] ++ [k']) ks := by
      apply counted_congr
      intro a _
      simp only [List.count_append]
      omega
    simp only [counted, id_eq, hcount, hcount', hrest]
    exact .swap _ _ _
  | trans _ _ ih ih' => exact (ih before).trans (ih' before)

/-- An element is found again, by its number, among those with its key. -/
theorem map_counted_getElem? (pairs : List (α × γ)) :
    ((counted key [] (pairs.map Prod.fst)).map fun (a, n) =>
      (a, (pairs.filter fun pair => key pair.1 = key a)[n]?.map Prod.snd)) =
        pairs.map fun (a, c) => (a, some c) := by
  -- The list is cut in two, and an element has the number of those with its key in the first part.
  suffices hrest : ∀ before rest, before ++ rest = pairs →
      ((counted key (before.map (key ·.1)) (rest.map Prod.fst)).map fun (a, n) =>
        (a, (pairs.filter fun pair => key pair.1 = key a)[n]?.map Prod.snd)) =
          rest.map fun (a, c) => (a, some c) from hrest [] pairs rfl
  intro before rest hpairs
  induction rest generalizing before with
  | nil => rfl
  | cons pair rest ih =>
    obtain ⟨a, c⟩ := pair
    have hcount : (before.map (key ·.1)).count (key a) =
        (before.filter fun pair => key pair.1 = key a).length := by
      rw [List.count, List.countP_map, List.countP_eq_length_filter]
      rfl
    have hfound : (pairs.filter fun pair => key pair.1 = key a)[
        (before.map (key ·.1)).count (key a)]? = some (a, c) := by
      rw [← hpairs, List.filter_append, hcount, List.getElem?_append_right (Nat.le_refl _),
        Nat.sub_self, List.filter_cons_of_pos (by simp)]
      rfl
    have hnext := ih (before ++ [(a, c)]) (by simpa using hpairs)
    rw [List.map_append] at hnext
    rw [List.map_cons, counted, List.map_cons, List.map_cons]
    exact congrArg₂ List.cons (congrArg (fun o => (a, o.map Prod.snd)) hfound) hnext

end Counted

namespace Asked

variable {α β : Type} {f : α → Asked β}

/-- If each element makes one request, its result is of the answer with the number of the
request. -/
theorem after_each (query : α → Query) (value : α → Nat → β)
    (h : ∀ a asked, (f a).after asked = (value a (asked.count (query a)), asked ++ [query a]))
    (as : List α) (asked : List Query) : (each f as).after asked =
      ((counted query asked as).map fun (a, n) => value a n, asked ++ as.map query) := by
  induction as generalizing asked with
  | nil =>
    rw [List.map_nil, List.append_nil]
    rfl
  | cons a as ih =>
    simp only [each, after_bind, after_pure, h, ih, counted, List.map_cons, List.append_assoc,
      List.singleton_append]

end Asked

end WorkspaceLink
