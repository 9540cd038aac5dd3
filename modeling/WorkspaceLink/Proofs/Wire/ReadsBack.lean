import Mathlib.Data.List.Nodup
import WorkspaceLink.Wire.Document

/-!
Reading back what was written. A value can be written if it was read; what is written then is read
as the same value, unless it is nested too deeply. Records are put together member by member, so
it is enough to know what each member does.
-/

namespace WorkspaceLink.Json

theorem record_eq (members : List (String × Json)) :
    record members = .object (members.map fun m => (some m.1.toList, m.2)) none :=
  rfl

mutual

/-- How many brackets and braces are open at the deepest place of a value. -/
def depth : Json → Nat
  | array items _ => depthItems items + 1
  | object members _ => depthMembers members + 1
  | _ => 0

def depthItems : List Json → Nat
  | [] => 0
  | v :: vs => max (depth v) (depthItems vs)

def depthMembers : List (Option Text × Json) → Nat
  | [] => 0
  | (_, v) :: vs => max (depth v) (depthMembers vs)

end

theorem depthItems_le_iff {items : List Json} {levels : Nat} :
    depthItems items ≤ levels ↔ ∀ v ∈ items, v.depth ≤ levels := by
  induction items with
  | nil => simp [depthItems]
  | cons v vs ih => rw [depthItems, Nat.max_le, ih, List.forall_mem_cons]

theorem depthMembers_le_iff {members : List (String × Json)} {levels : Nat} :
    depthMembers (members.map fun m => (some m.1.toList, m.2)) ≤ levels ↔
      ∀ m ∈ members, m.2.depth ≤ levels := by
  induction members with
  | nil => simp [depthMembers]
  | cons m members ih => rw [List.map_cons, depthMembers, Nat.max_le, ih, List.forall_mem_cons]

theorem depth_list_le_iff {items : List Json} {levels : Nat} :
    (list items).depth ≤ levels ↔ 0 < levels ∧ ∀ v ∈ items, v.depth ≤ levels - 1 := by
  rw [← depthItems_le_iff, list, depth]
  omega

theorem depth_record_le_iff {members : List (String × Json)} {levels : Nat} :
    (record members).depth ≤ levels ↔ 0 < levels ∧ ∀ m ∈ members, m.2.depth ≤ levels - 1 := by
  rw [← depthMembers_le_iff, record_eq, depth]
  omega

mutual

/-- Whether a value can be read to its end: its arrays and objects are closed, its keys are
texts and its strings and numbers make sense. -/
def whole : Json → Bool
  | array items fault => wholeItems items && fault.isNone
  | object members fault => wholeMembers members && fault.isNone
  | garbled => false
  | broken _ _ => false
  | _ => true

def wholeItems : List Json → Bool
  | [] => true
  | v :: vs => whole v && wholeItems vs

def wholeMembers : List (Option Text × Json) → Bool
  | [] => true
  | (key, v) :: vs => key.isSome && whole v && wholeMembers vs

end

theorem whole_list {items : List Json} :
    (list items).whole = items.all whole := by
  have hitems : wholeItems items = items.all whole := by
    induction items with
    | nil => rfl
    | cons v vs ih => rw [wholeItems, ih, List.all_cons]
  simp [list, whole, hitems]

theorem whole_record {members : List (String × Json)} :
    (record members).whole = members.all fun m => m.2.whole := by
  have hmembers : wholeMembers (members.map fun m => (some m.1.toList, m.2)) =
      members.all fun m => m.2.whole := by
    induction members with
    | nil => rfl
    | cons m members ih => simp [wholeMembers, ih]
  simp [record_eq, whole, hmembers]

mutual

/-- A value that is whole can be read, if it is not nested too deeply. -/
theorem readFault?_eq_none {levels : Nat} : (j : Json) → j.whole = true → j.depth ≤ levels →
    readFault? levels j = none
  | array items fault, hwhole, hdepth => by
    rw [whole, Bool.and_eq_true, Option.isNone_iff_eq_none] at hwhole
    rw [depth] at hdepth
    have hitems : readItems? (levels - 1) items = none :=
      readItems?_eq_none items hwhole.1 (by omega)
    rw [readFault?, if_neg (by omega), hitems, hwhole.2]
    rfl
  | object members fault, hwhole, hdepth => by
    rw [whole, Bool.and_eq_true, Option.isNone_iff_eq_none] at hwhole
    rw [depth] at hdepth
    have hmembers : readMembers? (levels - 1) members = none :=
      readMembers?_eq_none members hwhole.1 (by omega)
    rw [readFault?, if_neg (by omega), hmembers, hwhole.2]
    rfl
  | null, _, _ | bool _, _, _ | number _, _, _ | fraction, _, _ | string _, _, _ => rfl

theorem readItems?_eq_none {levels : Nat} : (items : List Json) → wholeItems items = true →
    depthItems items ≤ levels → readItems? levels items = none
  | [], _, _ => rfl
  | v :: vs, hwhole, hdepth => by
    rw [wholeItems, Bool.and_eq_true] at hwhole
    rw [depthItems, Nat.max_le] at hdepth
    rw [readItems?, readFault?_eq_none v hwhole.1 hdepth.1,
      readItems?_eq_none vs hwhole.2 hdepth.2]
    rfl

theorem readMembers?_eq_none {levels : Nat} : (members : List (Option Text × Json)) →
    wholeMembers members = true → depthMembers members ≤ levels → readMembers? levels members = none
  | [], _, _ => rfl
  | (some _, v) :: vs, hwhole, hdepth => by
    simp only [wholeMembers, Bool.and_eq_true] at hwhole
    rw [depthMembers, Nat.max_le] at hdepth
    rw [readMembers?, readFault?_eq_none v hwhole.1.2 hdepth.1,
      readMembers?_eq_none vs hwhole.2 hdepth.2]
    rfl

end

/-- What a computation of two steps gives is given by the second from what the first gives. -/
theorem bind_eq_ok_iff {α β : Type} {x : Except Fault α} {f : α → Except Fault β} {b : β} :
    x >>= f = .ok b ↔ ∃ a, x = .ok a ∧ f a = .ok b := by
  cases x with
  | error e => exact ⟨nofun, fun ⟨_, h, _⟩ => nomatch h⟩
  | ok a => exact ⟨fun h => ⟨a, rfl, h⟩, fun ⟨_, h, hb⟩ => (Except.ok.inj h) ▸ hb⟩

theorem bind_pure_eq_ok_iff {α β : Type} {x : Except Fault α} {f : α → β} {b : β} :
    (do let a ← x; return f a) = .ok b ↔ ∃ a, x = .ok a ∧ f a = b := by
  simp [bind_eq_ok_iff, pure, Except.pure]

theorem bind_pure_ok {α β : Type} {x : Except Fault α} {f : α → β} {a : α} (h : x = .ok a) :
    (do let a ← x; return f a) = .ok (f a) :=
  bind_pure_eq_ok_iff.mpr ⟨a, h, rfl⟩

theorem map_eq_ok_iff {α β : Type} {x : Except Fault α} {f : α → β} {b : β} :
    x.map f = .ok b ↔ ∃ a, x = .ok a ∧ f a = b := by
  cases x with
  | error e => exact ⟨nofun, fun ⟨_, h, _⟩ => nomatch h⟩
  | ok a => simp [Except.map]

namespace Reader

variable {α β σ : Type} {levels : Nat} {j : Json}

theorem required_eq_ok_iff {field : Option α} {a : α} :
    required field = .ok a ↔ field = some a := by
  cases field <;> simp [required]

/-- A value is read back if what is written for it is read as the value again, as long as it is not
nested too deeply. -/
def ReadsBack (read : Reader α) (write : α → Json) (a : α) : Prop :=
  ∀ levels, (write a).depth ≤ levels → read levels (write a) = .ok a

/-- Whatever is read, and from whatever, has a property. -/
def Yields (read : Reader α) (p : α → Prop) : Prop :=
  ∀ levels j a, read levels j = .ok a → p a

theorem Yields.given {read : Reader α} {p : α → Prop} (h : Yields read p) {a : α}
    (ha : read levels j = .ok a) : ∀ b ∈ some a, p b := by
  rintro b ⟨⟩
  exact h levels j a ha

/-- A format of the values of which something holds: what was read, from anything, comes back when
it is written and read. What is read are the values of the format, and each of them is read from
what is written for it. -/
structure StableFormat (read : Reader α) (write : α → Json) (fits : α → Prop) : Prop where
  stable : Yields read (ReadsBack read write)
  yields : Yields read fits
  readsBack : ∀ a, fits a → ReadsBack read write a

theorem StableFormat.of {read : Reader α} {write : α → Json} {fits : α → Prop}
    (hyields : Yields read fits) (h : ∀ a, fits a → ReadsBack read write a) :
    StableFormat read write fits where
  stable levels j a ha := h a (hyields levels j a ha)
  yields := hyields
  readsBack := h

/-! ### Numbers, texts and truth values -/

theorem intBetween_eq_ok_iff {low high n : Int} :
    intBetween low high levels j = .ok n ↔ j = .number n ∧ low ≤ n ∧ n < high := by
  cases j with
  | number m =>
    rw [intBetween]
    split
    next h =>
      constructor
      · rintro ⟨⟩
        exact ⟨rfl, h⟩
      · rintro ⟨⟨⟩, -⟩
        rfl
    next h =>
      refine ⟨nofun, ?_⟩
      rintro ⟨⟨⟩, hn⟩
      exact absurd hn h
  | _ => exact ⟨nofun, nofun⟩

theorem natBelow_nat {bound n : Nat} (h : n < bound) (levels : Nat) :
    natBelow bound levels (.nat n) = .ok n := by
  refine map_eq_ok_iff.mpr ⟨n, intBetween_eq_ok_iff.mpr ⟨rfl, ?_, ?_⟩, rfl⟩ <;> omega

theorem natBelow_lt {bound n : Nat} (h : natBelow bound levels j = .ok n) : n < bound := by
  obtain ⟨k, hk, rfl⟩ := map_eq_ok_iff.mp h
  obtain ⟨-, hlow, hhigh⟩ := intBetween_eq_ok_iff.mp hk
  omega

theorem natBelow_yields (bound : Nat) : Yields (natBelow bound) (· < bound) :=
  fun _ _ _ => natBelow_lt

section Numbered

variable {bound : Nat} {g : β → Nat} {b : β}

/-- A value that stands for its number is read back. -/
theorem natBelow_map_readsBack {f : Nat → β} (hg : g b < bound) (hf : f (g b) = b) :
    ReadsBack (fun levels j => (natBelow bound levels j).map f) (fun b => .nat (g b)) b := by
  intro levels _
  change (natBelow bound levels (.nat (g b))).map f = .ok b
  rw [natBelow_nat hg, Except.map, hf]

theorem natBelow_filterMap_readsBack {f : Nat → Option β} (hg : g b < bound)
    (hf : f (g b) = some b) :
    ReadsBack (filterMap (natBelow bound) f) (fun b => .nat (g b)) b := by
  intro levels _
  rw [filterMap, natBelow_nat hg]
  simp [bind, Except.bind, hf]

end Numbered

theorem text_readsBack (s : Text) : ReadsBack text .string s :=
  fun _ _ => rfl

/-! ### Values that may be absent, and lists -/

theorem optional_of_ne_null {read : Reader α} (h : j ≠ .null) :
    optional read levels j = (read levels j).map some := by
  cases j <;> first | rfl | exact absurd rfl h

theorem Yields.of_optional {read : Reader α} {p : α → Prop} (hp : Yields read p)
    {value : Option α} (h : optional read levels j = .ok value) : ∀ a ∈ value, p a := by
  rintro a rfl
  by_cases hnull : j = .null
  · subst hnull
    cases h
  · rw [optional_of_ne_null hnull] at h
    obtain ⟨b, hb, hba⟩ := map_eq_ok_iff.mp h
    cases hba
    exact hp levels j a hb

theorem ReadsBack.optional {read : Reader α} {write : α → Json} {a : α}
    (h : ReadsBack read write a) (hnull : write a ≠ .null) (hdepth : (write a).depth ≤ levels) :
    optional read levels (write a) = .ok (some a) := by
  rw [optional_of_ne_null hnull, h levels hdepth]
  rfl

theorem mapM_eq_ok_iff {f : Json → Except Fault α} {items : List Json} {as : List α} :
    items.mapM f = .ok as ↔ items.map f = as.map .ok := by
  induction items generalizing as with
  | nil => cases as <;> simp [pure, Except.pure]
  | cons v vs ih =>
    simp only [List.mapM_cons, bind_eq_ok_iff, pure, Except.pure, List.map_cons]
    constructor
    · rintro ⟨a, ha, bs, hbs, h⟩
      cases h
      rw [ha, ih.mp hbs, List.map_cons]
    · intro h
      cases as with
      | nil => cases h
      | cons a bs =>
        obtain ⟨ha, hbs⟩ := List.cons_eq_cons.mp h
        exact ⟨a, ha, bs, ih.mpr hbs, rfl⟩

/-- A list is read item by item, with a level less. -/
theorem list_eq_ok_iff {read : Reader α} {as : List α} :
    list read levels j = .ok as ↔
      0 < levels ∧ ∃ items, j = .list items ∧ items.map (read (levels - 1)) = as.map .ok := by
  simp only [← mapM_eq_ok_iff]
  constructor
  · intro h
    cases j with
    | array items fault =>
      rw [list] at h
      split at h
      · cases h
      next hlevels =>
        obtain ⟨values, hvalues, hclose⟩ := bind_eq_ok_iff.mp h
        cases fault <;> cases hclose
        exact ⟨by omega, items, rfl, hvalues⟩
    | _ => cases h
  · rintro ⟨hlevels, items, rfl, h⟩
    rw [Json.list, list, if_neg (by omega), h]
    rfl

theorem exists_of_mem_list {read : Reader α} {as : List α} (h : list read levels j = .ok as) {a : α}
    (ha : a ∈ as) : 0 < levels ∧ ∃ v, read (levels - 1) v = .ok a := by
  obtain ⟨hlevels, items, -, hitems⟩ := list_eq_ok_iff.mp h
  have hmem : .ok a ∈ items.map (read (levels - 1)) := hitems ▸ List.mem_map_of_mem ha
  obtain ⟨v, -, hv⟩ := List.mem_map.mp hmem
  exact ⟨hlevels, v, hv⟩

theorem list_readsBack {read : Reader α} {write : α → Json} {as : List α}
    (h : ∀ a ∈ as, ReadsBack read write a) :
    ReadsBack (list read) (fun as => .list (as.map write)) as := by
  intro levels hdepth
  obtain ⟨hlevels, hdepths⟩ := depth_list_le_iff.mp hdepth
  refine list_eq_ok_iff.mpr ⟨hlevels, as.map write, rfl, ?_⟩
  rw [List.map_map]
  apply List.map_congr_left
  intro a ha
  exact h a ha _ (hdepths _ (List.mem_map_of_mem ha))

theorem list_congr {read read' : Reader α}
    (h : 0 < levels → read (levels - 1) = read' (levels - 1)) :
    list read levels j = list read' levels j := by
  cases levels with
  | zero => cases j <;> rfl
  | succ levels => simp only [list, h (Nat.succ_pos levels)]

/-- An empty list is read as a list of any type. -/
theorem list_nil {read : Reader α} {read' : Reader β} (h : list read levels j = .ok []) :
    list read' levels j = .ok [] := by
  obtain ⟨hlevels, items, rfl, hitems⟩ := list_eq_ok_iff.mp h
  obtain rfl : items = [] := List.map_eq_nil_iff.mp hitems
  exact list_eq_ok_iff.mpr ⟨hlevels, [], rfl, rfl⟩

theorem Yields.list {read : Reader α} {p : α → Prop} (h : Yields read p) :
    Yields (list read) fun as => ∀ a ∈ as, p a := by
  intro levels j as has a ha
  obtain ⟨-, v, hv⟩ := exists_of_mem_list has ha
  exact h _ v a hv

/-! ### Values of several types -/

/-- Of two types that which comes first is taken. -/
theorem firstOf_pair_ok {first second : Reader α} {a : α}
    (h : firstOf [first, second] levels j = .ok a) :
    first levels j = .ok a ∨ (∀ b, first levels j ≠ .ok b) ∧ second levels j = .ok a := by
  rw [firstOf] at h
  split at h
  · cases h
  rw [List.findSome?_cons] at h
  cases hfirst : first levels j with
  | ok b =>
    rw [hfirst] at h
    cases h
    exact .inl rfl
  | error e =>
    cases hsecond : second levels j with
    | ok b =>
      simp [hfirst, hsecond, Except.toOption] at h
      exact .inr ⟨nofun, congrArg Except.ok h⟩
    | error e => simp [hfirst, hsecond, Except.toOption] at h

theorem firstOf_first {first second : Reader α} {a : α} (hwhole : j.whole = true)
    (hdepth : j.depth ≤ levels) (h : first levels j = .ok a) :
    firstOf [first, second] levels j = .ok a := by
  rw [firstOf, readFault?_eq_none j hwhole hdepth, List.findSome?_cons, h]
  rfl

theorem firstOf_second {first second : Reader α} {a : α} (hwhole : j.whole = true)
    (hdepth : j.depth ≤ levels) (hfirst : ∀ b, first levels j ≠ .ok b)
    (h : second levels j = .ok a) : firstOf [first, second] levels j = .ok a := by
  rw [firstOf, readFault?_eq_none j hwhole hdepth, List.findSome?_cons]
  cases hf : first levels j with
  | ok b => exact absurd hf (hfirst b)
  | error e =>
    rw [Except.toOption, List.findSome?_cons, h]
    rfl

/-! ### Records -/

section OptionalMember

variable {name : String} {value : Option α} {write : α → Json}

theorem forall_mem_optionalMember {P : String × Json → Prop} :
    (∀ m ∈ optionalMember name value write, P m) ↔ ∀ a ∈ value, P (name, write a) := by
  cases value <;> simp [optionalMember]

theorem optionalMember_names_sublist :
    ((optionalMember name value write).map Prod.fst).Sublist [name] := by
  cases value <;> simp [optionalMember]

end OptionalMember

section Fields

variable {names : List String} {put : Nat → String → σ → Json → Except Fault σ} {start : σ}

theorem putMembers_preserves {P : σ → Prop} {put : String → σ → Json → Except Fault σ}
    {seen : List String} {members : List (Option Text × Json)}
    (hput : ∀ name s v s', (some name.toList, v) ∈ members → P s → put name s v = .ok s' → P s')
    {s s' : σ} (hs : P s) (h : putMembers names put seen members s = .ok s') : P s' := by
  induction members generalizing seen s with
  | nil => cases h; exact hs
  | cons m members ih =>
    have hrest := fun name s v s' hmem => hput name s v s' (List.mem_cons_of_mem m hmem)
    match m with
    | (none, _) => cases h
    | (some key, v) =>
      simp only [putMembers] at h
      split at h
      · split at h
        · cases h
        · obtain ⟨t, ht, h⟩ := bind_eq_ok_iff.mp h
          have hfirst : (some (String.ofList key).toList, v) ∈ (some key, v) :: members := by simp
          exact ih hrest (hput _ s v t hfirst hs ht) h
      · split at h
        · cases h
        · exact ih hrest hs h

theorem putItems_preserves {P : σ → Prop} {put : String → σ → Json → Except Fault σ}
    (hput : ∀ name s v s', P s → put name s v = .ok s' → P s') {items : List Json} {s s' : σ}
    (hs : P s) (h : putItems put names items s = .ok s') : P s' := by
  induction items generalizing names s with
  | nil => cases names <;> (cases h; exact hs)
  | cons v items ih =>
    cases names with
    | nil => cases h
    | cons name names =>
      obtain ⟨t, ht, hrest⟩ := bind_eq_ok_iff.mp h
      exact ih (hput name s v t hs ht) hrest

/-- What holds at the start and is kept by reading a field holds of the record that is read. -/
theorem fields_preserves {P : σ → Prop} (hstart : P start)
    (hput : 0 < levels → ∀ name s v s', P s → put (levels - 1) name s v = .ok s' → P s')
    {s : σ} (h : fields names put start levels j = .ok s) : P s := by
  cases j with
  | object members fault =>
    simp only [fields] at h
    split at h
    · cases h
    next hlevels =>
      obtain ⟨t, ht, hclose⟩ := bind_eq_ok_iff.mp h
      have hP : P t := putMembers_preserves
        (fun name s v s' _ => hput (by omega) name s v s') hstart ht
      cases fault <;> cases hclose
      exact hP
  | array items fault =>
    simp only [fields] at h
    split at h
    · cases h
    next hlevels =>
      obtain ⟨t, ht, hclose⟩ := bind_eq_ok_iff.mp h
      have hP : P t := putItems_preserves (hput (by omega)) hstart ht
      cases fault <;> cases hclose
      exact hP
  | _ => cases h

/-- For an object it is enough that the fields whose names it gives keep what holds at the
start. -/
theorem fields_record_preserves {P : σ → Prop} (hstart : P start) {members : List (String × Json)}
    (hput : ∀ m ∈ members, ∀ s s', P s → put (levels - 1) m.1 s m.2 = .ok s' → P s')
    {s : σ} (h : fields names put start levels (record members) = .ok s) : P s := by
  simp only [record_eq, fields] at h
  split at h
  · cases h
  · obtain ⟨t, ht, hclose⟩ := bind_eq_ok_iff.mp h
    cases hclose
    refine putMembers_preserves (fun name s v s' hmem hs => ?_) hstart ht
    obtain ⟨m, hm, heq⟩ := List.mem_map.mp hmem
    obtain ⟨hkey, rfl⟩ := Prod.mk.inj heq
    obtain rfl : m.1 = name := String.toList_injective (Option.some.inj hkey)
    exact hput m hm s s' hs

/-- Only the levels that are left decide how a record is read. -/
theorem fields_congr {put' : Nat → String → σ → Json → Except Fault σ}
    (h : 0 < levels → put (levels - 1) = put' (levels - 1)) :
    fields names put start levels j = fields names put' start levels j := by
  cases levels with
  | zero => cases j <;> rfl
  | succ levels =>
    simp only [fields, h (Nat.succ_pos levels)]

end Fields

/-- Puts members into a record one by one. -/
def fill (put : String → σ → Json → Except Fault σ) (members : List (String × Json)) (s : σ) :
    Except Fault σ :=
  members.foldlM (fun s m => put m.1 s m.2) s

section Fill

variable {put : String → σ → Json → Except Fault σ} {s t u : σ} {name : String} {v : Json}
  {members others : List (String × Json)}

theorem fill_nil : fill put [] s = .ok s :=
  rfl

theorem fill_cons (h : put name s v = .ok t) (hrest : fill put members t = .ok u) :
    fill put ((name, v) :: members) s = .ok u := by
  rw [fill, List.foldlM_cons, h]
  exact hrest

theorem fill_append (h : fill put members s = .ok t) (hrest : fill put others t = .ok u) :
    fill put (members ++ others) s = .ok u := by
  rw [fill] at h
  rw [fill, List.foldlM_append, h]
  exact hrest

/-- A member that may be absent is put into a record as the optional value that it is. -/
theorem fill_optionalMember {value : Option α} {write : α → Json} (set : Option α → σ)
    (hnone : set none = s) (hsome : ∀ a ∈ value, put name s (write a) = .ok (set (some a))) :
    fill put (optionalMember name value write) s = .ok (set value) := by
  cases value with
  | none => exact congrArg Except.ok hnone.symm
  | some a => exact fill_cons (hsome a rfl) fill_nil

/-- Members that are fields, none of them given before, are put into the record one by one. -/
theorem putMembers_eq_fill {names seen : List String} (hnodup : (members.map Prod.fst).Nodup)
    (hnames : ∀ name ∈ members.map Prod.fst, name ∈ names ∧ name ∉ seen) (s : σ) :
    putMembers names put seen (members.map fun m => (some m.1.toList, m.2)) s =
      fill put members s := by
  induction members generalizing seen s with
  | nil => rfl
  | cons m members ih =>
    rw [List.map_cons, List.nodup_cons] at hnodup
    rw [List.map_cons, List.forall_mem_cons] at hnames
    obtain ⟨⟨hname, hseen⟩, hrest⟩ := hnames
    have hunseen : ∀ name ∈ members.map Prod.fst, name ∈ names ∧ name ∉ m.1 :: seen := by
      intro name hmem
      have hne : name ≠ m.1 := fun h => hnodup.1 (h ▸ hmem)
      exact ⟨(hrest name hmem).1, List.not_mem_cons_of_ne_of_not_mem hne (hrest name hmem).2⟩
    rw [fill, List.foldlM_cons, List.map_cons, putMembers, String.ofList_toList,
      if_pos (by simpa), if_neg (by simpa)]
    exact bind_congr fun s => ih hnodup.2 hunseen s

/-- An object whose members are fields in their order is read as a record one by one. -/
theorem fields_record {names : List String} {put : Nat → String → σ → Json → Except Fault σ}
    (hnodup : names.Nodup) (hnames : (members.map Prod.fst).Sublist names) (hlevels : 0 < levels)
    (h : fill (put (levels - 1)) members s = .ok t) :
    fields names put s levels (record members) = .ok t := by
  have hmembers : putMembers names (put (levels - 1)) []
      (members.map fun m => (some m.1.toList, m.2)) s = fill (put (levels - 1)) members s :=
    putMembers_eq_fill (hnames.nodup hnodup)
      (fun name hname => ⟨hnames.subset hname, List.not_mem_nil⟩) s
  rw [record_eq, fields, if_neg (by omega), hmembers, h]
  rfl

end Fill

end Reader

end WorkspaceLink.Json
