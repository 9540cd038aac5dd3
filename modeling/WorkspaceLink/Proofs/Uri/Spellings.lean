import WorkspaceLink.Proofs.Text.Cuts
import WorkspaceLink.Proofs.Uri.Escapes

/-! Paths in percent-encoded form. Decoding gives back a path however it has been spelled, and it
keeps the percent signs that begin no escape. Done by index, it comes to the end of the bytes and
reads none past it. -/

namespace WorkspaceLink

open Text

/-- Whether a character is the hexadecimal digit of a value, in either case. -/
def IsDigitOf (v : ℕ) (c : Char) : Prop :=
  c = v.digitChar ∨ c = v.digitChar.toUpper

/-- Bytes as escapes: for each of them a percent sign and its two digits. -/
inductive EscapedBytes : List UInt8 → Text → Prop
  | nil : EscapedBytes [] []
  | cons {b bs h l s} (hh : IsDigitOf (b.toNat / 16) h) (hl : IsDigitOf (b.toNat % 16) l)
      (hs : EscapedBytes bs s) : EscapedBytes (b :: bs) ('%' :: h :: l :: s)

/-- The spellings of a path: each character stands as it is, unless it is a percent sign, or as the
escapes of its bytes. -/
inductive Spelling : Path → Text → Prop
  | nil : Spelling [] []
  | plain {c path s} (hc : c ≠ '%') (hs : Spelling path s) : Spelling (c :: path) (c :: s)
  | escaped {c path e s} (he : EscapedBytes (String.utf8EncodeChar c) e) (hs : Spelling path s) :
      Spelling (c :: path) (e ++ s)

variable {bs : List UInt8} {c : Char} {s e rest : Text} {path : Path}
  {v : ℕ}

/-! ### Spelled bytes -/

/-- Whether a character is a single byte, which is read as a digit of a value. -/
def ReadsAs (v : ℕ) (c : Char) : Prop :=
  String.utf8EncodeChar c = [.ofNat c.toNat] ∧ hexDigit? (.ofNat c.toNat) = some (.ofNat v)

instance : DecidableRel ReadsAs :=
  fun _ _ => inferInstanceAs (Decidable (_ ∧ _))

theorem hexDigit?_of_isDigitOf (hv : v < 16) (h : IsDigitOf v c) :
    ∃ b, String.utf8EncodeChar c = [b] ∧ hexDigit? b = some (.ofNat v) := by
  have hall : ∀ v < 16, ReadsAs v v.digitChar ∧ ReadsAs v v.digitChar.toUpper := by
    decide +kernel
  obtain ⟨hlower, hupper⟩ := hall v hv
  rcases h with rfl | rfl
  · exact ⟨_, hlower⟩
  · exact ⟨_, hupper⟩

theorem utf8_append (s t : Text) : utf8 (s ++ t) = utf8 s ++ utf8 t :=
  List.flatMap_append

theorem unescapeBytes_escapedBytes (h : EscapedBytes bs e) (back : List UInt8) :
    unescapeBytes (utf8 e ++ back) = bs ++ unescapeBytes back := by
  induction h with
  | nil => rfl
  | @cons b bs h l s hh hl hs ih =>
    have hsize := b.toNat_lt
    obtain ⟨high, hhigh, hhi⟩ := hexDigit?_of_isDigitOf (by omega) hh
    obtain ⟨low, hlow, hlo⟩ := hexDigit?_of_isDigitOf (by omega) hl
    have hbyte : UInt8.ofNat (b.toNat / 16) * 16 + UInt8.ofNat (b.toNat % 16) = b := by
      rw [← UInt8.toNat_inj]
      simp
      omega
    rw [utf8_cons, utf8_cons, utf8_cons, encode_percent, hhigh, hlow]
    simp only [List.cons_append, List.nil_append]
    rw [unescapeBytes_digits hhi hlo, hbyte, ih]

theorem unescapeBytes_spelling (h : Spelling path s) : unescapeBytes (utf8 s) = utf8 path := by
  induction h with
  | nil => rfl
  | plain hc _ ih => rw [utf8_cons, unescapeBytes_encode hc, ih, utf8_cons]
  | escaped he _ ih => rw [utf8_append, unescapeBytes_escapedBytes he, ih, utf8_cons]

/-! ### Percent signs that stay -/

theorem hexDigit?_percent : hexDigit? 0x25 = none := by
  decide

/-- No escape goes past a percent sign. -/
theorem unescapeBytes_append_percent (front back : List UInt8) :
    unescapeBytes (front ++ 0x25 :: back) =
      unescapeBytes front ++ unescapeBytes (0x25 :: back) := by
  have hbefore (b : UInt8) :
      unescapeBytes (b :: 0x25 :: back) = b :: unescapeBytes (0x25 :: back) := by
    apply unescapeBytes_keep
    rintro _ _ _ hi lo ⟨⟩ hhi -
    cases hexDigit?_percent.symm.trans hhi
  induction front using unescapeBytes.induct with
  | case1 => rfl
  | case2 high low rest hi lo hlo hhi ih =>
    rw [List.cons_append, List.cons_append, List.cons_append, unescapeBytes_digits hhi hlo, ih,
      unescapeBytes_digits hhi hlo]
    rfl
  | case3 high low rest hdigits ih =>
    have hkeep (rest' : List UInt8) : unescapeBytes (0x25 :: high :: low :: rest') =
        0x25 :: unescapeBytes (high :: low :: rest') := by
      apply unescapeBytes_keep
      rintro _ _ _ hi lo ⟨⟩
      exact hdigits hi lo
    rw [List.cons_append, List.cons_append, List.cons_append, hkeep, ← List.cons_append,
      ← List.cons_append, ih, hkeep]
    rfl
  | case4 short hshort =>
    match short with
    | [] => exact hbefore 0x25
    | [low] =>
      have hkeep : unescapeBytes (0x25 :: low :: 0x25 :: back) =
          0x25 :: unescapeBytes (low :: 0x25 :: back) := by
        apply unescapeBytes_keep
        rintro _ _ _ hi lo ⟨⟩ - hlo
        cases hexDigit?_percent.symm.trans hlo
      exact hkeep.trans (congrArg (0x25 :: ·) (hbefore low))
    | high :: low :: rest => exact (hshort high low rest rfl).elim
  | case5 b bs hb ih =>
    rw [List.cons_append, unescapeBytes_of_ne hb, ih, unescapeBytes_of_ne hb]
    rfl

theorem utf8Chars_append_percent {q : Option Utf8Debt} (hq : ∀ d ∈ q, d.Sound)
    (front back : List UInt8) :
    utf8Chars q (front ++ 0x25 :: back) =
      utf8Chars q front ++ some '%' :: utf8Chars none back := by
  induction front generalizing q with
  | nil =>
    cases q with
    | none => rfl
    | some d =>
      -- a character begun before it is broken off, as at the end of the bytes
      obtain ⟨hlow, -⟩ := hq d rfl
      have hbroken : ¬(d.low ≤ 0x25 ∧ 0x25 ≤ d.high) :=
        fun htail => absurd (UInt8.le_trans hlow htail.1) (by decide)
      exact utf8Chars_broken hbroken back
  | cons b front ih =>
    obtain ⟨q', front', hq', -, heq⟩ := exists_utf8Chars_cons hq b
    rw [List.cons_append, heq, ih hq', heq, List.append_assoc]

theorem percentDecode_append_percent (hstart : startsEscape ('%' :: rest) = false) (s : Text) :
    percentDecode (s ++ '%' :: rest) = percentDecode s ++ '%' :: percentDecode rest := by
  have hrest := unescapeBytes_char hstart
  rw [utf8_cons, encode_percent, List.singleton_append, List.singleton_append] at hrest
  rw [percentDecode_eq, percentDecode_eq, percentDecode_eq, utf8_append, utf8_cons, encode_percent,
    List.singleton_append, unescapeBytes_append_percent, hrest, decodeLossy,
    utf8Chars_append_percent (by simp), List.map_append]
  rfl

/-! ### The bytes by index -/

/-- The bytes read up to a place and what they have been decoded to. -/
structure ByteScan where
  place : ℕ
  out : List UInt8

namespace ByteScan

/-- The scan a turn later. There is none if the turn reads a byte past the end. -/
def turn? (bytes : List UInt8) (scan : ByteScan) : Option ByteScan := do
  let b ← bytes[scan.place]?
  if b = 0x25 ∧ scan.place + 2 < bytes.length then
    let high ← bytes[scan.place + 1]?
    let low ← bytes[scan.place + 2]?
    match hexDigit? high, hexDigit? low with
    | some hi, some lo => some ⟨scan.place + 3, scan.out ++ [hi * 16 + lo]⟩
    | _, _ => some ⟨scan.place + 1, scan.out ++ [b]⟩
  else some ⟨scan.place + 1, scan.out ++ [b]⟩

/-- The scan when no byte is left. There is none if a turn reads a byte past the end, or if `turns`
turns are too few. -/
def run? (bytes : List UInt8) : ℕ → ByteScan → Option ByteScan
  | turns, scan =>
    if scan.place < bytes.length then
      match turns with
      | 0 => none
      | turns + 1 => (scan.turn? bytes).bind (run? bytes turns)
    else some scan

variable {bytes : List UInt8} {scan : ByteScan}

/-- A turn reads within the bytes, gets on, and keeps what all bytes are decoded to. -/
theorem turn?_spec (h : scan.place < bytes.length) : ∃ next, scan.turn? bytes = some next ∧
    scan.place < next.place ∧ next.place ≤ bytes.length ∧
    next.out ++ unescapeBytes (bytes.drop next.place) =
      scan.out ++ unescapeBytes (bytes.drop scan.place) := by
  obtain ⟨place, out⟩ := scan
  dsimp only at h ⊢
  have hread := List.getElem?_eq_getElem h
  have hdrop := List.drop_eq_getElem_cons h
  generalize bytes[place] = b at hread hdrop
  -- a turn that takes one byte
  have hone (hkeep : unescapeBytes (b :: bytes.drop (place + 1)) =
      b :: unescapeBytes (bytes.drop (place + 1))) :
      out ++ [b] ++ unescapeBytes (bytes.drop (place + 1)) =
        out ++ unescapeBytes (bytes.drop place) := by
    rw [hdrop, hkeep, List.append_assoc, List.singleton_append]
  by_cases hescape : b = 0x25 ∧ place + 2 < bytes.length
  · obtain ⟨rfl, hlt⟩ := hescape
    have hlt' : place + 1 < bytes.length := by omega
    have hhigh := List.getElem?_eq_getElem hlt'
    have hlow := List.getElem?_eq_getElem hlt
    have hdrop' := List.drop_eq_getElem_cons hlt'
    rw [List.drop_eq_getElem_cons hlt] at hdrop'
    generalize bytes[place + 1] = high at hhigh hdrop'
    generalize bytes[place + 2] = low at hlow hdrop'
    simp only [turn?, hread, hhigh, hlow, Option.bind_eq_bind, Option.bind_some, hlt, and_self,
      if_true]
    split
    · next hi lo hhi hlo =>
      refine ⟨_, rfl, by simp, hlt, ?_⟩
      dsimp only
      rw [hdrop, hdrop', unescapeBytes_digits hhi hlo, List.append_assoc, List.singleton_append]
    · next hdigits =>
      refine ⟨_, rfl, by simp, h, hone ?_⟩
      rw [hdrop']
      apply unescapeBytes_keep
      rintro _ _ _ hi lo ⟨⟩
      exact hdigits hi lo
  · simp only [turn?, hread, Option.bind_eq_bind, Option.bind_some, if_neg hescape]
    refine ⟨_, rfl, by simp, h, hone ?_⟩
    by_cases hb : b = 0x25
    · -- the byte is one of the last two
      apply unescapeBytes_keep
      intro high low rest _ _ heq
      have hlength := congrArg List.length heq
      have hshort : ¬place + 2 < bytes.length := fun hlt => hescape ⟨hb, hlt⟩
      simp only [List.length_drop, List.length_cons] at hlength
      omega
    · exact unescapeBytes_of_ne hb _

theorem eq_end (hplace : scan.place ≤ bytes.length) (hdone : ¬scan.place < bytes.length) :
    scan = ⟨bytes.length, scan.out ++ unescapeBytes (bytes.drop scan.place)⟩ := by
  obtain ⟨place, out⟩ := scan
  obtain rfl : place = bytes.length := Nat.le_antisymm hplace (Nat.le_of_not_lt hdone)
  rw [List.drop_length, unescapeBytes, List.append_nil]

theorem run?_eq {turns : ℕ} (hplace : scan.place ≤ bytes.length)
    (hturns : bytes.length ≤ scan.place + turns) : run? bytes turns scan =
      some ⟨bytes.length, scan.out ++ unescapeBytes (bytes.drop scan.place)⟩ := by
  induction turns generalizing scan with
  | zero =>
    have hdone : ¬scan.place < bytes.length := by omega
    rw [run?, if_neg hdone, ← eq_end hplace hdone]
  | succ turns ih =>
    rw [run?]
    split
    · next hmore =>
      obtain ⟨next, hnext, hlt, hle, heq⟩ := turn?_spec hmore
      rw [hnext, Option.bind_some, ih hle (by omega), heq]
    · next hdone => rw [← eq_end hplace hdone]

end ByteScan

namespace DocumentUri

/-- The scheme of files ends before any percent sign. -/
theorem fileScheme_prefix_iff (s rest : Text) :
    fileScheme <+: s ++ '%' :: rest ↔ fileScheme <+: s := by
  refine ⟨fun h => ?_, fun h => h.trans (List.prefix_append s _)⟩
  rcases Nat.lt_or_ge s.length fileScheme.length with hshort | hlong
  · -- it would have the percent sign in it
    have hpercent : s ++ ['%'] <+: s ++ '%' :: rest :=
      (List.prefix_append_right_inj s).mpr (List.prefix_append ['%'] rest)
    have hmem := (List.prefix_of_prefix_length_le hpercent h (by simpa)).subset
      (List.mem_append_right s (List.mem_singleton_self '%'))
    exact absurd hmem (by decide)
  · exact List.prefix_of_prefix_length_le h (List.prefix_append s _) hlong

theorem getD_afterFront?_append_percent (s rest : Text) :
    (afterFront? fileScheme (s ++ '%' :: rest)).getD (s ++ '%' :: rest) =
      (afterFront? fileScheme s).getD s ++ '%' :: rest := by
  cases hs : afterFront? fileScheme s with
  | none =>
    have hnone := afterFront?_eq_none_iff.mp hs
    rw [← fileScheme_prefix_iff s rest, ← afterFront?_eq_none_iff] at hnone
    rw [hnone]
    rfl
  | some front =>
    obtain rfl := afterFront?_eq_some_iff.mp hs
    rw [List.append_assoc, afterFront?_append]
    rfl

/-- Decoding gives back a path however it has been spelled. Percent signs that no two digits follow
stay, wherever they stand. Done by index, decoding comes to the end of the bytes in at most as many
turns as there are bytes, and reads none past it. -/
theorem toPath_spelled :
    (∀ path s, Spelling path s → (⟨fileScheme ++ s⟩ : DocumentUri).toPath = path) ∧
    (∀ s rest, startsEscape ('%' :: rest) = false → (⟨s ++ '%' :: rest⟩ : DocumentUri).toPath =
      (⟨s⟩ : DocumentUri).toPath ++ '%' :: percentDecode rest) ∧
    ∀ bytes, ByteScan.run? bytes bytes.length ⟨0, []⟩ =
      some ⟨bytes.length, unescapeBytes bytes⟩ := by
  refine ⟨fun path s hs => ?_, fun s rest hstart => ?_, fun bytes => ?_⟩
  · rw [← ofPath, toPath_ofPath, percentDecode_eq, unescapeBytes_spelling hs, decodeLossy_utf8]
  · rw [toPath, getD_afterFront?_append_percent, percentDecode_append_percent hstart, toPath]
  · exact ByteScan.run?_eq (Nat.zero_le _) (Nat.le_add_left _ _)

/-- An accented letter as the escapes of its two bytes in mixed case, a percent sign as its own,
and a percent sign at the very end. -/
theorem accentedName_toPath :
    Spelling "/é%" "/%c3%A9%25" ∧ startsEscape ['%'] = false ∧
    (⟨fileScheme ++ "/%c3%A9%25".toList⟩ : DocumentUri).toPath = "/é%" ∧
    (⟨"file:///50".toList ++ ['%']⟩ : DocumentUri).toPath =
      (⟨"file:///50"⟩ : DocumentUri).toPath ++ ['%'] := by
  have hbytes : String.utf8EncodeChar 'é' = [0xC3, 0xA9] := by decide
  have hletter : EscapedBytes (String.utf8EncodeChar 'é') "%c3%A9" := by
    rw [hbytes]
    exact .cons (.inl rfl) (.inl rfl) (.cons (.inr rfl) (.inl rfl) .nil)
  have hsign : EscapedBytes (String.utf8EncodeChar '%') "%25" := by
    rw [encode_percent]
    exact .cons (.inl rfl) (.inl rfl) .nil
  have hspelling : Spelling "/é%" "/%c3%A9%25" :=
    .plain (by decide) (.escaped hletter (.escaped hsign .nil))
  exact ⟨hspelling, rfl, toPath_spelled.1 _ _ hspelling, toPath_spelled.2.1 _ [] rfl⟩

end DocumentUri

end WorkspaceLink
