import WorkspaceLink.Text.Basic

/-!
The UTF-8 form of texts. Bytes are read by a machine whose state is what the character begun still
owes; `decode?` refuses bytes that are no text, `decodeLossy` puts U+FFFD in place of each maximal
part that cannot be completed.
-/

namespace WorkspaceLink.Text

def utf8 (s : Text) : List UInt8 :=
  s.flatMap String.utf8EncodeChar

def byteCount (s : Text) : Nat :=
  (utf8 s).length

theorem byteCount_append (s t : Text) : byteCount (s ++ t) = byteCount s + byteCount t := by
  rw [byteCount, utf8, List.flatMap_append, List.length_append]
  rfl

/-- A character begun and not completed: its bits so far, the number of bytes it still needs, and
the range in which the next of them must lie. -/
structure Utf8Debt where
  bits : Nat
  owed : Nat
  low : UInt8
  high : UInt8

/-- What a byte outside any character begins: a whole character, a debt, or nothing. -/
inductive Utf8Start where
  | whole (c : Char)
  | debt (d : Utf8Debt)
  | invalid

/-- The start that a byte makes. The first continuation byte is confined so that overlong forms,
surrogates and values past U+10FFFF cannot be completed. -/
def Utf8Start.ofByte (b : UInt8) : Utf8Start :=
  if b < 0x80 then .whole (Char.ofNat b.toNat)
  else if b < 0xC2 then .invalid
  else if b < 0xE0 then .debt ⟨b.toNat - 0xC0, 1, 0x80, 0xBF⟩
  else if b < 0xF0 then
    .debt ⟨b.toNat - 0xE0, 2, if b = 0xE0 then 0xA0 else 0x80, if b = 0xED then 0x9F else 0xBF⟩
  else if b < 0xF5 then
    .debt ⟨b.toNat - 0xF0, 3, if b = 0xF0 then 0x90 else 0x80, if b = 0xF4 then 0x8F else 0xBF⟩
  else .invalid

/-- The characters that bytes spell, with `none` for each maximal part that spells nothing. -/
def utf8Chars : Option Utf8Debt → List UInt8 → List (Option Char)
  | none, [] => []
  | some _, [] => [none]
  | none, b :: bs =>
    match Utf8Start.ofByte b with
    | .whole c => some c :: utf8Chars none bs
    | .debt d => utf8Chars (some d) bs
    | .invalid => none :: utf8Chars none bs
  | some d, b :: bs =>
    if d.low ≤ b ∧ b ≤ d.high then
      let bits := d.bits * 64 + (b.toNat - 0x80)
      if d.owed ≤ 1 then some (Char.ofNat bits) :: utf8Chars none bs
      else utf8Chars (some ⟨bits, d.owed - 1, 0x80, 0xBF⟩) bs
    else
      match Utf8Start.ofByte b with
      | .whole c => none :: some c :: utf8Chars none bs
      | .debt d' => none :: utf8Chars (some d') bs
      | .invalid => none :: none :: utf8Chars none bs

/-- The text that bytes spell, if they spell one. -/
def decode? (bytes : List UInt8) : Option Text :=
  (utf8Chars none bytes).mapM id

/-- The text that bytes spell, with U+FFFD for each maximal part that spells nothing. -/
def decodeLossy (bytes : List UInt8) : Text :=
  (utf8Chars none bytes).map (·.getD (Char.ofNat 0xFFFD))

end WorkspaceLink.Text
