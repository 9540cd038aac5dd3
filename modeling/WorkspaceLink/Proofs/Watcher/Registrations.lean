import Mathlib.Data.List.Induction
import WorkspaceLink.Watch.Registry

/-! A registry is told by its history: what counts are the registrations whose name has not been
dropped since they were made, in the order in which they were made. -/

namespace WorkspaceLink

/-- The name under which a change adds or drops registrations. -/
def RegistryChange.id : RegistryChange → Text
  | .add id _ => id
  | .remove id => id

namespace Registry

variable {history later others : List RegistryChange} {id : Text}
  {registrations : List WatchRegistration} {e : RegistryEntry} {r : Registry} {path : Path}
  {mask : WatchMask}

/-- The registry that changes lead to, from one without registrations. -/
def after (history : List RegistryChange) : Registry :=
  history.foldl apply {}

/-- The registrations of a history that no later change of it drops. -/
def live : List RegistryChange → List RegistryEntry
  | [] => []
  | .add id registrations :: later =>
    (if .remove id ∈ later then [] else registrations.map (⟨id, ·⟩)) ++ live later
  | .remove _ :: later => live later

theorem mem_live_cons {c : RegistryChange} : e ∈ live (c :: history) ↔
    (∃ registrations, c = .add e.id registrations ∧ e.registration ∈ registrations ∧
      .remove e.id ∉ history) ∨ e ∈ live history := by
  cases c with
  | remove id => simp [live]
  | add id registrations =>
    rw [live, List.mem_append]
    apply or_congr_left
    obtain ⟨name, registration⟩ := e
    constructor
    · intro h
      split at h
      · cases h
      · next hdrop =>
        obtain ⟨r, hr, heq⟩ := List.mem_map.mp h
        cases heq
        exact ⟨registrations, rfl, hr, hdrop⟩
    · rintro ⟨_, heq, hmem, hdrop⟩
      cases heq
      rw [if_neg hdrop]
      exact List.mem_map_of_mem hmem

/-- A registration is live exactly if it has been added and its name not dropped since. -/
theorem mem_live_iff : e ∈ live history ↔ ∃ before registrations later,
    history = before ++ .add e.id registrations :: later ∧ e.registration ∈ registrations ∧
      .remove e.id ∉ later := by
  induction history with
  | nil => simp [live]
  | cons c history ih =>
    rw [mem_live_cons, ih]
    constructor
    · rintro (⟨registrations, rfl, hmem, hlater⟩ | ⟨before, registrations, later, rfl, h⟩)
      · exact ⟨[], registrations, history, rfl, hmem, hlater⟩
      · exact ⟨c :: before, registrations, later, rfl, h⟩
    · rintro ⟨before, registrations, later, heq, hmem, hlater⟩
      rcases List.cons_eq_append_iff.mp heq with ⟨-, heq⟩ | ⟨before, -, rfl⟩
      · obtain ⟨rfl, rfl⟩ := List.cons.inj heq
        exact .inl ⟨registrations, rfl, hmem, hlater⟩
      · exact .inr ⟨before, registrations, later, rfl, hmem, hlater⟩

/-- A name that is used again stands for what it was last used for. -/
example (r s : WatchRegistration) :
    live [.add "a" [r], .add "b" [s], .remove "a", .add "a" [s]] = [⟨"b", s⟩, ⟨"a", s⟩] := by
  rfl

/-- Of what was live, what follows leaves the registrations that it does not drop. -/
theorem live_append (history later : List RegistryChange) : live (history ++ later) =
    (live history).filter (fun e => .remove e.id ∉ later) ++ live later := by
  induction history with
  | nil => rfl
  | cons c history ih =>
    cases c with
    | remove id => exact ih
    | add id registrations =>
      rw [List.cons_append, live, live, ih, List.filter_append, List.append_assoc]
      congr 1
      -- registrations of one name stay or go together
      by_cases hlater : .remove id ∈ later
      · by_cases hhistory : .remove id ∈ history <;> simp [hhistory, hlater]
      · have hstay : (registrations.map (RegistryEntry.mk id)).filter
            (fun e => .remove e.id ∉ later) = registrations.map (RegistryEntry.mk id) := by
          refine List.filter_eq_self.mpr fun e he => ?_
          obtain ⟨r, -, rfl⟩ := List.mem_map.mp he
          exact decide_eq_true hlater
        by_cases hhistory : .remove id ∈ history
        · simp [hhistory]
        · rw [if_neg hhistory, hstay, if_neg (by simp [hhistory, hlater])]

theorem after_concat (history : List RegistryChange) (c : RegistryChange) :
    after (history ++ [c]) = (after history).apply c := by
  rw [after, List.foldl_append]
  rfl

theorem entries_after (history : List RegistryChange) : (after history).entries = live history := by
  induction history using List.reverseRecOn with
  | nil => rfl
  | append_singleton history c ih =>
    rw [after_concat, live_append]
    cases c with
    | add id registrations =>
      have hall : (live history).filter (fun _ => true) = live history :=
        List.filter_eq_self.mpr fun _ _ => rfl
      simp [apply, add, live, ih, hall]
    | remove id => simp [apply, remove, live, ih]

theorem eq_after_iff : r = after history ↔ r.entries = live history := by
  rw [← entries_after]
  constructor
  · rintro rfl
    rfl
  · intro h
    cases r
    exact congrArg Registry.mk h

theorem id_of_mem_live (h : e ∈ live others) : ∃ c ∈ others, c.id = e.id := by
  obtain ⟨before, registrations, later, rfl, -⟩ := mem_live_iff.mp h
  exact ⟨_, List.mem_append_right _ List.mem_cons_self, rfl⟩

/-- Registrations that are dropped again leave what was under other names as it was. -/
theorem live_withdrawn (hid : ∀ e ∈ live history, e.id ≠ id) (hothers : ∀ c ∈ others, c.id ≠ id)
    (later : List RegistryChange) :
    live (history ++ .add id registrations :: others ++ .remove id :: later) =
      live (history ++ others ++ later) := by
  have hkept (before : List RegistryChange) (hbefore : ∀ e ∈ live before, e.id ≠ id) :
      live (before ++ .remove id :: later) = live (before ++ later) := by
    rw [live_append, live_append before later]
    refine congrArg₂ _ (List.filter_congr fun e he => ?_) rfl
    simp [hbefore e he]
  have hdropped : live (history ++ .add id registrations :: others ++ .remove id :: later) =
      live (history ++ others ++ .remove id :: later) := by
    simp only [List.append_assoc, List.cons_append]
    rw [live_append, live_append history (others ++ _), live, if_pos (by simp), List.nil_append]
    refine congrArg₂ _ (List.filter_congr fun e he => ?_) rfl
    simp
  rw [hdropped]
  apply hkept
  intro e he
  rw [live_append, List.mem_append] at he
  rcases he with he | he
  · exact hid e (List.mem_filter.mp he).1
  · obtain ⟨c, hc, heq⟩ := id_of_mem_live he
    rw [← heq]
    exact hothers c hc

theorem mask?_eq (r : Registry) (path : Path) : r.mask? path =
    if r.entries = [] then some .all
    else (r.entries.find? (·.registration.glob.matches path)).map (·.registration.mask) := by
  rw [mask?]
  cases r.entries <;> rfl

/-- What a registry answers after a history is told by what is live. A registration that is dropped
again leaves no trace, and a new one never changes what is reported for a path that is watched
already. -/
structure ToldByLive (history : List RegistryChange) : Prop where
  mask : ∀ path, (after history).mask? path =
    if live history = [] then some .all
    else ((live history).find? (·.registration.glob.matches path)).map (·.registration.mask)
  size : (after history).size = (live history).length
  added : ∀ id registrations,
    (after history).answer (.add id registrations) = registrations.length
  removed : ∀ id, (after history).answer (.remove id) = (live history).countP (·.id = id)
  traceless : ∀ id registrations others later, (∀ e ∈ live history, e.id ≠ id) →
    (∀ c ∈ others, c.id ≠ id) →
      after (history ++ .add id registrations :: others ++ .remove id :: later) =
        after (history ++ others ++ later)
  lasting : live history ≠ [] → ∀ id registrations path mask,
    (after history).mask? path = some mask →
      (after (history ++ [.add id registrations])).mask? path = some mask

theorem answer_add (r : Registry) (id : Text) (registrations : List WatchRegistration) :
    r.answer (.add id registrations) = registrations.length := by
  simp [answer, apply, add, size]

theorem answer_remove (r : Registry) (id : Text) :
    r.answer (.remove id) = r.entries.countP (·.id = id) := by
  have hsplit := List.length_eq_countP_add_countP (fun e : RegistryEntry => e.id = id)
    (l := r.entries)
  have hrest : (r.remove id).size = r.entries.countP fun e => ¬decide (e.id = id) := by
    simp [remove, size, List.countP_eq_length_filter]
  rw [answer, apply, hrest, size]
  omega

theorem mask?_add (hlive : r.entries ≠ []) (hmask : r.mask? path = some mask) :
    (r.add id registrations).mask? path = some mask := by
  rw [mask?_eq, if_neg hlive] at hmask
  obtain ⟨e, he, rfl⟩ := Option.map_eq_some_iff.mp hmask
  rw [mask?_eq, if_neg (by simp [add, hlive]), add, List.find?_append, he]
  rfl

theorem after_toldByLive (history : List RegistryChange) : ToldByLive history where
  mask path := by rw [mask?_eq, entries_after]
  size := congrArg List.length (entries_after history)
  added := answer_add _
  removed id := by rw [answer_remove, entries_after]
  traceless id registrations others later hid hothers := by
    rw [eq_after_iff, entries_after]
    exact live_withdrawn hid hothers later
  lasting hlive id registrations path mask hmask := by
    rw [after_concat]
    rw [← entries_after] at hlive
    exact mask?_add hlive hmask

end Registry

end WorkspaceLink
