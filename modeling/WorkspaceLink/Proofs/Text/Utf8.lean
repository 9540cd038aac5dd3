import Mathlib.Order.Basic
import WorkspaceLink.Text.Utf8

/-! The machine that reads bytes as characters reads back what texts are written as, also where a
character before was left incomplete, and makes no more characters than there are bytes. -/

namespace WorkspaceLink.Text

variable {b low high : UInt8} {d : Utf8Debt} {m n k : ℕ}

/-! ### First bytes -/

theorem ofByte_one (h : b.toNat < 0x80) : Utf8Start.ofByte b = .whole (Char.ofNat b.toNat) :=
  if_pos (UInt8.lt_iff_toNat_lt.mpr h)

theorem ofByte_two (h : b.toNat = n + 0xC0) (hlow : 2 ≤ n) (hhigh : n < 0x20) :
    Utf8Start.ofByte b = .debt ⟨n, 1, 0x80, 0xBF⟩ := by
  have h1 : ¬b.toNat < (0x80 : UInt8).toNat := by rw [h]; simp
  have h2 : ¬b.toNat < (0xC2 : UInt8).toNat := by rw [h]; simp; omega
  have h3 : b.toNat < (0xE0 : UInt8).toNat := by rw [h]; simp; omega
  rw [← UInt8.lt_iff_toNat_lt] at h1 h2 h3
  rw [Utf8Start.ofByte, if_neg h1, if_neg h2, if_pos h3, h, Nat.add_sub_cancel]

theorem ofByte_three (h : b.toNat = n + 0xE0) (hn : n < 0x10) : Utf8Start.ofByte b =
    .debt ⟨n, 2, if n = 0 then 0xA0 else 0x80, if n = 0x0D then 0x9F else 0xBF⟩ := by
  have h1 : ¬b.toNat < (0x80 : UInt8).toNat := by rw [h]; simp
  have h2 : ¬b.toNat < (0xC2 : UInt8).toNat := by rw [h]; simp
  have h3 : ¬b.toNat < (0xE0 : UInt8).toNat := by rw [h]; simp
  have h4 : b.toNat < (0xF0 : UInt8).toNat := by rw [h]; simp; omega
  have hfirst : b = 0xE0 ↔ n = 0 := by rw [← UInt8.toNat_inj, h]; simp
  have hsurrogate : b = 0xED ↔ n = 0x0D := by rw [← UInt8.toNat_inj, h]; simp
  rw [← UInt8.lt_iff_toNat_lt] at h1 h2 h3 h4
  rw [Utf8Start.ofByte, if_neg h1, if_neg h2, if_neg h3, if_pos h4, h, Nat.add_sub_cancel]
  simp only [hfirst, hsurrogate]

theorem ofByte_four (h : b.toNat = n + 0xF0) (hn : n < 5) : Utf8Start.ofByte b =
    .debt ⟨n, 3, if n = 0 then 0x90 else 0x80, if n = 4 then 0x8F else 0xBF⟩ := by
  have h1 : ¬b.toNat < (0x80 : UInt8).toNat := by rw [h]; simp
  have h2 : ¬b.toNat < (0xC2 : UInt8).toNat := by rw [h]; simp
  have h3 : ¬b.toNat < (0xE0 : UInt8).toNat := by rw [h]; simp
  have h4 : ¬b.toNat < (0xF0 : UInt8).toNat := by rw [h]; simp
  have h5 : b.toNat < (0xF5 : UInt8).toNat := by rw [h]; simp; omega
  have hfirst : b = 0xF0 ↔ n = 0 := by rw [← UInt8.toNat_inj, h]; simp
  have hlast : b = 0xF4 ↔ n = 4 := by rw [← UInt8.toNat_inj, h]; simp
  rw [← UInt8.lt_iff_toNat_lt] at h1 h2 h3 h4 h5
  rw [Utf8Start.ofByte, if_neg h1, if_neg h2, if_neg h3, if_neg h4, if_pos h5, h,
    Nat.add_sub_cancel]
  simp only [hfirst, hlast]

/-! ### Further bytes -/

theorem utf8Chars_start (b : UInt8) (bs : List UInt8) : utf8Chars none (b :: bs) =
    match Utf8Start.ofByte b with
    | .whole c => some c :: utf8Chars none bs
    | .debt d => utf8Chars (some d) bs
    | .invalid => none :: utf8Chars none bs :=
  rfl

/-- A byte that the character begun cannot go on with ends it, and begins anew. -/
theorem utf8Chars_broken (h : ¬(d.low ≤ b ∧ b ≤ d.high)) (bs : List UInt8) :
    utf8Chars (some d) (b :: bs) = none :: utf8Chars none (b :: bs) := by
  rw [utf8Chars.eq_4, if_neg h, utf8Chars_start]
  cases Utf8Start.ofByte b <;> rfl

theorem utf8Chars_tail (h : d.low ≤ b ∧ b ≤ d.high) (bs : List UInt8) :
    utf8Chars (some d) (b :: bs) =
      if d.owed ≤ 1 then some (Char.ofNat (d.bits * 64 + (b.toNat - 0x80))) :: utf8Chars none bs
      else utf8Chars (some ⟨d.bits * 64 + (b.toNat - 0x80), d.owed - 1, 0x80, 0xBF⟩) bs := by
  rw [utf8Chars.eq_4]
  exact if_pos h

theorem toNat_ofNat (h : n < 0x100) : (UInt8.ofNat n).toNat = n :=
  UInt8.toNat_ofNat_of_lt' h

theorem utf8Chars_owed (hlow : d.low.toNat ≤ m + 0x80) (hhigh : m + 0x80 ≤ d.high.toNat)
    (bs : List UInt8) : utf8Chars (some d) (.ofNat (m + 0x80) :: bs) =
      if d.owed ≤ 1 then some (Char.ofNat (d.bits * 64 + m)) :: utf8Chars none bs
      else utf8Chars (some ⟨d.bits * 64 + m, d.owed - 1, 0x80, 0xBF⟩) bs := by
  have hsize := d.high.toNat_lt
  have hbyte : (UInt8.ofNat (m + 0x80)).toNat = m + 0x80 := toNat_ofNat (by omega)
  rw [utf8Chars_tail, hbyte, Nat.add_sub_cancel]
  rw [UInt8.le_iff_toNat_le, UInt8.le_iff_toNat_le, hbyte]
  exact ⟨hlow, hhigh⟩

theorem utf8Chars_next (hlow : low.toNat ≤ m + 0x80) (hhigh : m + 0x80 ≤ high.toNat)
    (bs : List UInt8) : utf8Chars (some ⟨n, k + 2, low, high⟩) (.ofNat (m + 0x80) :: bs) =
      utf8Chars (some ⟨n * 64 + m, k + 1, 0x80, 0xBF⟩) bs :=
  (utf8Chars_owed (d := ⟨n, k + 2, low, high⟩) hlow hhigh bs).trans (if_neg (by simp))

theorem utf8Chars_last (hlow : low.toNat ≤ m + 0x80) (hhigh : m + 0x80 ≤ high.toNat)
    (bs : List UInt8) : utf8Chars (some ⟨n, 1, low, high⟩) (.ofNat (m + 0x80) :: bs) =
      some (Char.ofNat (n * 64 + m)) :: utf8Chars none bs :=
  utf8Chars_owed (d := ⟨n, 1, low, high⟩) hlow hhigh bs

/-! ### Written characters -/

theorem utf8Chars_encode (c : Char) (bs : List UInt8) :
    utf8Chars none (String.utf8EncodeChar c ++ bs) = some c :: utf8Chars none bs := by
  have hvalid : c.val.toNat < 0xD800 ∨ 0xDFFF < c.val.toNat ∧ c.val.toNat < 0x110000 := c.valid
  have hchar : Char.ofNat c.val.toNat = c := Char.ofNat_toNat c
  rw [String.utf8EncodeChar.eq_1]
  generalize c.val.toNat = v at hvalid hchar
  split
  · have hbyte : (UInt8.ofNat v).toNat = v := toNat_ofNat (by omega)
    rw [List.singleton_append, utf8Chars_start, ofByte_one (by omega), hbyte, hchar]
  split
  · have hbyte : (UInt8.ofNat (v / 64 % 32 + 192)).toNat = v / 64 + 0xC0 := by
      rw [toNat_ofNat (by omega)]
      omega
    have hbits : v / 64 * 64 + v % 64 = v := by omega
    rw [List.cons_append, utf8Chars_start, ofByte_two hbyte (by omega) (by omega)]
    dsimp only [List.cons_append, List.nil_append]
    rw [utf8Chars_last (by simp) (by simp; omega), hbits, hchar]
  split
  · have hbyte : (UInt8.ofNat (v / 4096 % 16 + 224)).toNat = v / 4096 + 0xE0 := by
      rw [toNat_ofNat (by omega)]
      omega
    have hbits : (v / 4096 * 64 + v / 64 % 64) * 64 + v % 64 = v := by omega
    -- the second byte stays clear of overlong forms and of surrogates
    have hlow : (if v / 4096 = 0 then 0xA0 else 0x80 : UInt8).toNat ≤ v / 64 % 64 + 0x80 := by
      split
      · simp only [UInt8.reduceToNat]
        omega
      · exact Nat.le_add_left _ _
    have hhigh : v / 64 % 64 + 0x80 ≤ (if v / 4096 = 0x0D then 0x9F else 0xBF : UInt8).toNat := by
      split <;> simp only [UInt8.reduceToNat] <;> omega
    rw [List.cons_append, utf8Chars_start, ofByte_three hbyte (by omega)]
    dsimp only [List.cons_append, List.nil_append]
    rw [utf8Chars_next hlow hhigh, utf8Chars_last (by simp) (by simp; omega), hbits, hchar]
  · have hbyte : (UInt8.ofNat (v / 262144 % 8 + 240)).toNat = v / 262144 + 0xF0 := by
      rw [toNat_ofNat (by omega)]
      omega
    have hbits : ((v / 262144 * 64 + v / 4096 % 64) * 64 + v / 64 % 64) * 64 + v % 64 = v := by
      omega
    have hlow : (if v / 262144 = 0 then 0x90 else 0x80 : UInt8).toNat ≤ v / 4096 % 64 + 0x80 := by
      split
      · simp only [UInt8.reduceToNat]
        omega
      · exact Nat.le_add_left _ _
    have hhigh : v / 4096 % 64 + 0x80 ≤ (if v / 262144 = 4 then 0x8F else 0xBF : UInt8).toNat := by
      split <;> simp only [UInt8.reduceToNat] <;> omega
    rw [List.cons_append, utf8Chars_start, ofByte_four hbyte (by omega)]
    dsimp only [List.cons_append, List.nil_append]
    rw [utf8Chars_next hlow hhigh, utf8Chars_next (by simp) (by simp; omega),
      utf8Chars_last (by simp) (by simp; omega), hbits, hchar]

/-- A character is written as the byte of its number, or as a first byte and bytes that are neither
characters nor first bytes. -/
theorem exists_encode (c : Char) : ∃ b bs, String.utf8EncodeChar c = b :: bs ∧
    (b.toNat < 0x80 ∧ b.toNat = c.toNat ∧ bs = [] ∨ 0xC0 ≤ b.toNat ∧ ∀ t ∈ bs, 0x80 ≤ t.toNat) := by
  have htail (m : ℕ) : 0x80 ≤ (UInt8.ofNat (m % 64 + 128)).toNat := by
    rw [toNat_ofNat (by omega)]
    omega
  rw [String.utf8EncodeChar.eq_1]
  split
  · have hbyte : (UInt8.ofNat c.val.toNat).toNat = c.val.toNat := toNat_ofNat (by omega)
    exact ⟨_, _, rfl, .inl ⟨by omega, hbyte, rfl⟩⟩
  split
  · refine ⟨_, _, rfl, .inr ⟨?_, by simpa using htail _⟩⟩
    rw [toNat_ofNat (by omega)]
    omega
  split
  · refine ⟨_, _, rfl, .inr ⟨?_, by simpa using ⟨htail _, htail _⟩⟩⟩
    rw [toNat_ofNat (by omega)]
    omega
  · refine ⟨_, _, rfl, .inr ⟨?_, by simpa using ⟨htail _, htail _, htail _⟩⟩⟩
    rw [toNat_ofNat (by omega)]
    omega

/-- A byte below 0x80 is a character of its own wherever it stands in a text. -/
theorem eq_cons_of_utf8_eq_cons {s : Text} {bs : List UInt8} (h : utf8 s = b :: bs)
    (hb : b.toNat < 0x80) : ∃ t, s = Char.ofNat b.toNat :: t ∧ utf8 t = bs := by
  cases s with
  | nil => cases h
  | cons c s =>
    obtain ⟨first, rest, heq, hfirst⟩ := exists_encode c
    rw [utf8, List.flatMap_cons, heq] at h
    obtain ⟨rfl, rfl⟩ := List.cons.inj h
    rcases hfirst with ⟨-, hc, rfl⟩ | ⟨hc, -⟩
    · rw [hc, Char.ofNat_toNat]
      exact ⟨s, rfl, rfl⟩
    · omega

theorem decodeLossy_utf8_append (s : Text) (bs : List UInt8) :
    decodeLossy (utf8 s ++ bs) = s ++ decodeLossy bs := by
  induction s with
  | nil => rfl
  | cons c s ih =>
    rw [utf8, List.flatMap_cons, List.append_assoc, decodeLossy, utf8Chars_encode]
    exact congrArg (c :: ·) ih

theorem decodeLossy_utf8 (s : Text) : decodeLossy (utf8 s) = s := by
  have h := decodeLossy_utf8_append s []
  rwa [List.append_nil, show decodeLossy [] = [] from rfl, List.append_nil] at h

/-! ### How many characters bytes make -/

/-- Whether the bytes that a begun character may go on with are no first bytes. -/
def Utf8Debt.Sound (d : Utf8Debt) : Prop :=
  0x80 ≤ d.low ∧ d.high ≤ 0xBF

/-- The characters that are owed after some bytes. -/
def owed : Option Utf8Debt → ℕ
  | none => 0
  | some _ => 1

theorem sound_of_ofByte (h : Utf8Start.ofByte b = .debt d) : d.Sound := by
  have hlow : (0x80 : UInt8) ≤ 0xA0 ∧ (0x80 : UInt8) ≤ 0x90 ∧ (0x9F : UInt8) ≤ 0xBF ∧
      (0x8F : UInt8) ≤ 0xBF := by decide
  unfold Utf8Start.ofByte at h
  split at h <;> grind [Utf8Debt.Sound]

/-- What a byte adds to the characters made and owed before. -/
theorem exists_utf8Chars_cons {q : Option Utf8Debt} (hq : ∀ d ∈ q, d.Sound) (b : UInt8) :
    ∃ q' front, (∀ d ∈ q', Utf8Debt.Sound d) ∧ front.length + owed q' ≤ owed q + 1 ∧
      ∀ bs, utf8Chars q (b :: bs) = front ++ utf8Chars q' bs := by
  have hstart : ∃ q' front, (∀ d ∈ q', Utf8Debt.Sound d) ∧ front.length + owed q' ≤ 1 ∧
      ∀ bs, utf8Chars none (b :: bs) = front ++ utf8Chars q' bs := by
    simp only [utf8Chars_start]
    cases hb : Utf8Start.ofByte b with
    | whole c => exact ⟨none, [some c], by simp, Nat.le_refl 1, fun _ => rfl⟩
    | debt d => exact ⟨some d, [], by simpa using sound_of_ofByte hb, Nat.le_refl 1, fun _ => rfl⟩
    | invalid => exact ⟨none, [none], by simp, Nat.le_refl 1, fun _ => rfl⟩
  cases q with
  | none => exact hstart
  | some d =>
    by_cases htail : d.low ≤ b ∧ b ≤ d.high
    · simp only [utf8Chars_tail htail]
      by_cases howed : d.owed ≤ 1
      · exact ⟨none, [some _], by simp, by simp [owed], fun _ => if_pos howed⟩
      · refine ⟨some _, [], ?_, by simp [owed], fun _ => if_neg howed⟩
        simp [Utf8Debt.Sound]
    · obtain ⟨q', front, hsound, hlength, heq⟩ := hstart
      refine ⟨q', none :: front, hsound, Nat.add_right_comm _ _ _ ▸ Nat.succ_le_succ hlength, ?_⟩
      intro bs
      rw [utf8Chars_broken htail, heq, List.cons_append]

/-- A written character ends one that was begun before it. -/
theorem exists_utf8Chars_encode {q : Option Utf8Debt} (hq : ∀ d ∈ q, d.Sound) (c : Char) :
    ∃ front, front.length = owed q + 1 ∧
      ∀ bs, utf8Chars q (String.utf8EncodeChar c ++ bs) = front ++ utf8Chars none bs := by
  cases q with
  | none => exact ⟨[some c], rfl, utf8Chars_encode c⟩
  | some d =>
    refine ⟨[none, some c], rfl, fun bs => ?_⟩
    obtain ⟨b, rest, heq, hb⟩ := exists_encode c
    obtain ⟨hlow, hhigh⟩ := hq d rfl
    have hbroken : ¬(d.low ≤ b ∧ b ≤ d.high) := by
      rw [UInt8.le_iff_toNat_le] at hlow hhigh ⊢
      rw [UInt8.le_iff_toNat_le]
      simp only [UInt8.reduceToNat] at hlow hhigh
      omega
    rw [heq, List.cons_append, utf8Chars_broken hbroken, ← List.cons_append, ← heq,
      utf8Chars_encode]
    rfl

end WorkspaceLink.Text
