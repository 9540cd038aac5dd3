import WorkspaceLink.Text.Basic

/-!
White space: the characters with the Unicode property White_Space, and texts freed of them at
their ends.
-/

namespace WorkspaceLink.Text

/-- A character with the Unicode property White_Space. -/
def isBlank (c : Char) : Bool :=
  let n := c.toNat
  (0x09 ≤ n && n ≤ 0x0D) || n == 0x20 || n == 0x85 || n == 0xA0 || n == 0x1680 ||
    (0x2000 ≤ n && n ≤ 0x200A) || n == 0x2028 || n == 0x2029 || n == 0x202F || n == 0x205F ||
    n == 0x3000

/-- `s` without the blanks at its end. -/
def trimEnd (s : Text) : Text :=
  s.dropEndWhile isBlank

/-- `s` without the blanks at either end. -/
def trim (s : Text) : Text :=
  trimEnd (s.dropWhile isBlank)

end WorkspaceLink.Text
