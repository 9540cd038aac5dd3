import WorkspaceLink.Text.Utf8

/-! Texts cut at byte offsets. A cut is only made where a character begins or the text ends, and the
offsets of characters are such places. -/

namespace WorkspaceLink.Text

/-- The byte offsets of the characters of a text that begins at `offset`. -/
def charOffsets (offset : Nat) : Text → List Nat
  | [] => []
  | c :: s => offset :: charOffsets (offset + byteCount [c]) s

/-- The byte offset of a character, or of the end of the text if it has no such character. -/
def byteOffset (s : Text) (k : Nat) : Nat :=
  ((charOffsets 0 s)[k]?).getD s.byteCount

/-- A text in two, of which the first part has `n` bytes. There are no such parts if the cut is
inside a character or past the end. -/
def cutAtByte? : Text → Nat → Option (Text × Text)
  | s, 0 => some ([], s)
  | [], _ + 1 => none
  | c :: s, n + 1 =>
    if byteCount [c] ≤ n + 1 then
      (cutAtByte? s (n + 1 - byteCount [c])).map fun (front, back) => (c :: front, back)
    else none

/-- What a text has between two byte offsets. There is nothing to be had if they are in the wrong
order, or if one of them is inside a character or past the end. -/
def sliceBytes? (s : Text) (i j : Nat) : Option Text :=
  if i ≤ j then do
    let (front, _) ← cutAtByte? s j
    let (_, part) ← cutAtByte? front i
    some part
  else none

variable {c : Char} {s t front back : Text} {i j k n offset : Nat}

theorem byteCount_singleton_pos (c : Char) : 0 < byteCount [c] := by
  rw [byteCount, utf8, List.flatMap_singleton, String.length_utf8EncodeChar]
  exact c.utf8Size_pos

theorem byteCount_cons (c : Char) (s : Text) : byteCount (c :: s) = byteCount [c] + byteCount s :=
  byteCount_append [c] s

theorem getElem?_charOffsets (h : k < s.length) :
    (charOffsets offset s)[k]? = some (offset + byteCount (s.take k)) := by
  induction s generalizing offset k with
  | nil => exact absurd h (Nat.not_lt_zero k)
  | cons c s ih =>
    cases k with
    | zero => rfl
    | succ k =>
      rw [charOffsets, List.getElem?_cons_succ, ih (Nat.lt_of_succ_lt_succ h), List.take_succ_cons,
        byteCount_cons c (s.take k), Nat.add_assoc]

theorem length_charOffsets (offset : Nat) (s : Text) :
    (charOffsets offset s).length = s.length := by
  induction s generalizing offset with
  | nil => rfl
  | cons c s ih => rw [charOffsets, List.length_cons, ih, List.length_cons]

/-- The characters before a character make up the bytes before it. -/
theorem byteOffset_eq (s : Text) (k : Nat) : byteOffset s k = byteCount (s.take k) := by
  rw [byteOffset]
  by_cases h : k < s.length
  · rw [getElem?_charOffsets h, Nat.zero_add]
    rfl
  · have hle : s.length ≤ k := Nat.le_of_not_lt h
    rw [List.getElem?_eq_none (by rwa [length_charOffsets]), List.take_of_length_le hle]
    rfl

theorem cutAtByte?_append (front back : Text) :
    cutAtByte? (front ++ back) (byteCount front) = some (front, back) := by
  induction front with
  | nil => cases back <;> rfl
  | cons c front ih =>
    have hpos := byteCount_singleton_pos c
    obtain ⟨n, hn⟩ : ∃ n, byteCount (c :: front) = n + 1 :=
      Nat.exists_eq_add_one.mpr (by rw [byteCount_cons]; omega)
    have hrest : n + 1 - byteCount [c] = byteCount front := by
      rw [← hn, byteCount_cons, Nat.add_sub_cancel_left]
    have hle : byteCount [c] ≤ n + 1 := by
      rw [← hn, byteCount_cons c front]
      exact Nat.le_add_right _ _
    rw [hn, List.cons_append, cutAtByte?, if_pos hle, hrest, ih]
    rfl

theorem cutAtByte?_eq_some_iff : cutAtByte? s n = some (front, back) ↔
    s = front ++ back ∧ byteCount front = n := by
  constructor
  · intro h
    fun_induction cutAtByte? s n generalizing front with
    | case1 s =>
      obtain ⟨rfl, rfl⟩ := Prod.mk.inj (Option.some.inj h)
      exact ⟨rfl, rfl⟩
    | case2 => cases h
    | case3 c s n hle ih =>
      obtain ⟨⟨front', back'⟩, hcut, heq⟩ := Option.map_eq_some_iff.mp h
      obtain ⟨rfl, rfl⟩ := Prod.mk.inj heq
      obtain ⟨rfl, hcount⟩ := ih hcut
      refine ⟨rfl, ?_⟩
      rw [byteCount_cons, hcount]
      omega
    | case4 => cases h
  · rintro ⟨rfl, rfl⟩
    exact cutAtByte?_append front back

theorem sliceBytes?_eq_some_iff : sliceBytes? s i j = some t ↔
    ∃ front back, s = front ++ t ++ back ∧ byteCount front = i ∧ byteCount (front ++ t) = j := by
  rw [sliceBytes?]
  constructor
  · intro h
    split at h
    · obtain ⟨⟨a, back⟩, ha, h⟩ := Option.bind_eq_some_iff.mp h
      obtain ⟨⟨front, part⟩, hfront, hpart⟩ := Option.bind_eq_some_iff.mp h
      obtain rfl : part = t := Option.some.inj hpart
      obtain ⟨rfl, rfl⟩ := cutAtByte?_eq_some_iff.mp ha
      obtain ⟨rfl, rfl⟩ := cutAtByte?_eq_some_iff.mp hfront
      exact ⟨front, back, rfl, rfl, rfl⟩
    · cases h
  · rintro ⟨front, back, rfl, rfl, rfl⟩
    have hle : byteCount front ≤ byteCount (front ++ t) := by
      rw [byteCount_append]
      exact Nat.le_add_right _ _
    rw [if_pos hle, cutAtByte?_eq_some_iff.mpr ⟨rfl, rfl⟩]
    dsimp only [bind, Option.bind]
    rw [cutAtByte?_eq_some_iff.mpr ⟨rfl, rfl⟩]

theorem take_append_drop_take {α : Type} {l : List α} (h : i ≤ j) :
    l.take i ++ (l.take j).drop i = l.take j := by
  have htake : l.take i = (l.take j).take i := by rw [List.take_take, Nat.min_eq_left h]
  rw [htake, List.take_append_drop]

theorem byteOffset_mono (s : Text) (h : i ≤ j) : byteOffset s i ≤ byteOffset s j := by
  rw [byteOffset_eq, byteOffset_eq, ← take_append_drop_take h, byteCount_append]
  exact Nat.le_add_right _ _

/-- Between the offsets of two characters are the characters between them, and none if they are in
the wrong order and the second is moved to the first. -/
theorem sliceBytes?_byteOffset (s : Text) (i j : Nat) :
    sliceBytes? s (byteOffset s i) (max (byteOffset s j) (byteOffset s i)) =
      some ((s.take j).drop i) := by
  rw [sliceBytes?_eq_some_iff]
  rcases Nat.le_total i j with hle | hge
  · rw [Nat.max_eq_left (byteOffset_mono s hle), byteOffset_eq, byteOffset_eq]
    exact ⟨s.take i, s.drop j, by rw [take_append_drop_take hle, List.take_append_drop], rfl,
      by rw [take_append_drop_take hle]⟩
  · -- in the wrong order the cut is made at the first
    have hnone : (s.take j).drop i = [] :=
      List.drop_eq_nil_of_le (Nat.le_trans (List.length_take_le j s) hge)
    rw [Nat.max_eq_right (byteOffset_mono s hge), byteOffset_eq, hnone]
    exact ⟨s.take i, s.drop i, by rw [List.append_nil, List.take_append_drop], rfl,
      by rw [List.append_nil]⟩

theorem sliceBytes?_from (s : Text) (i : Nat) :
    sliceBytes? s (byteOffset s i) s.byteCount = some (s.drop i) := by
  rw [sliceBytes?_eq_some_iff, byteOffset_eq]
  exact ⟨s.take i, [], by rw [List.append_nil, List.take_append_drop], rfl,
    by rw [List.take_append_drop]⟩

theorem sliceBytes?_to (s : Text) (j : Nat) :
    sliceBytes? s 0 (byteOffset s j) = some (s.take j) := by
  rw [sliceBytes?_eq_some_iff, byteOffset_eq]
  exact ⟨[], s.drop j, by rw [List.nil_append, List.take_append_drop], rfl, rfl⟩

end WorkspaceLink.Text
