import WorkspaceLink.Proofs.Scope.Enclosing
import WorkspaceLink.Proofs.Scope.Extension
import WorkspaceLink.Scope.Definition
import WorkspaceLink.Scope.Window

/-! A definition can be had exactly if a symbol is around the position and ends within the source. It
consists of whole lines, that of the position among them, and a listing of it gives each line the
number that it has in the source. -/

namespace WorkspaceLink

namespace Text

variable {ls : List Text} {listing : Text} {first : Nat}

/-- A listing of lines, counted from `first`: one line for each of them, with blanks, its number and a
bar in front of it. -/
structure Lists (first : Nat) (ls : List Text) (listing : Text) : Prop where
  apart : ∀ l ∈ ls, '\n' ∉ l
  labelled : ∃ blanks : Nat → Nat, listing = terminated (ls.mapIdx fun i l =>
    List.replicate (blanks i) ' ' ++ ofNat (first + i) ++ "| " ++ l)

theorem lists_numbered (hne : ls ≠ []) (hls : ∀ l ∈ ls, '\n' ∉ l) (first : Nat) :
    Lists first ls ((ofLines ls).numbered first) := by
  refine ⟨hls, ?_⟩
  -- the field of all numbers is as wide as the last one
  let width := (ofNat (min (first + (ls.length - 1)) lastCoord)).length
  refine ⟨fun i => width - (ofNat (first + i)).length, ?_⟩
  rw [numbered, lines_ofLines hne hls]
  rfl

end Text

theorem Range.extendToCloser_cases (source : SourceText) (r : Range) :
    r.extendToCloser source = r ∨ ∃ p, r.stop.line < p.line ∧ p.line < source.lineCount ∧
      r.extendToCloser source = ⟨r.start, p⟩ := by
  by_cases hsame : r.extendToCloser source = r
  · exact .inl hsame
  · obtain ⟨closer, body, hclosed⟩ := exists_closedBy_of_ne hsame
    obtain ⟨p, hp, heq⟩ := extendsPast_of_closedBy hclosed
    exact .inr ⟨⟨p.line, min p.character lastCoord⟩, hp.below, hp.within, heq⟩

namespace SourceText

variable {source : SourceText} {symbols : List DocumentSymbol} {p : Position} {s : DocumentSymbol}
  {d : Definition} {first last : Nat}

/-- The lines of a source from `first` to `last`. -/
structure HasLines (source : SourceText) (first last : Nat) (ls : List Text) : Prop where
  length : ls.length = last + 1 - first
  each : ∀ n, first ≤ n → n ≤ last → ∃ l, source.line? n = some l ∧ ls[n - first]? = some l

theorem hasLines_slice (hlast : last < source.lineCount) :
    source.HasLines first last (source.slice first last) := by
  refine ⟨length_slice hlast, fun n hfirst hn => ?_⟩
  obtain ⟨l, hl⟩ := exists_line (Nat.lt_of_le_of_lt hn hlast)
  refine ⟨l, hl, ?_⟩
  rw [getElem?_slice, Nat.add_sub_of_le hfirst, if_pos hn, hl]

/-- What the definition of a symbol around a position is. Its range goes from the beginning of the
symbol's first line to the end of the symbol, or further, and its text consists of the lines of the
range. Numbered from that of its first line, each line has its number in the source. -/
structure IsDefinition (source : SourceText) (s : DocumentSymbol) (p : Position)
    (d : Definition) : Prop where
  start : d.range.start = ⟨s.range.start.line, 0⟩
  stop : d.range.stop = s.range.stop ∨ s.range.stop.line < d.range.stop.line
  within : d.range.stop.line < source.lineCount
  around : d.range.start.line ≤ p.line ∧ p.line ≤ d.range.stop.line
  lines : ∃ ls, source.HasLines d.range.start.line d.range.stop.line ls ∧ d.text = Text.ofLines ls ∧
    Text.Lists (d.range.start.line + 1) ls (d.text.numbered (d.range.start.line + 1))

/-- Where a definition can be had, and why there is none elsewhere. -/
structure Defines (source : SourceText) (symbols : List DocumentSymbol) (p : Position) : Prop where
  noSymbol_iff : source.definitionAt symbols p = .error (.noEnclosingSymbol p) ↔
    DocumentSymbol.enclosing? p symbols = none
  outOfRange_iff : ∀ line total,
    source.definitionAt symbols p = .error (.lineOutOfRange line total) ↔
      ∃ s, DocumentSymbol.enclosing? p symbols = some s ∧ source.lineCount ≤ s.range.stop.line ∧
        line = s.range.stop.line ∧ total = source.lineCount
  errors : ∀ e, source.definitionAt symbols p = .error e →
    e = .noEnclosingSymbol p ∨ ∃ line total, e = .lineOutOfRange line total
  found : ∀ s, DocumentSymbol.enclosing? p symbols = some s → s.range.stop.line < source.lineCount →
    ∃ d, source.definitionAt symbols p = .ok d ∧ source.IsDefinition s p d

/-! ### Outcomes -/

theorem definitionAt_of_none (h : DocumentSymbol.enclosing? p symbols = none) :
    source.definitionAt symbols p = .error (.noEnclosingSymbol p) := by
  rw [definitionAt, h]

theorem definitionAt_of_le (h : DocumentSymbol.enclosing? p symbols = some s)
    (hle : source.lineCount ≤ s.range.stop.line) :
    source.definitionAt symbols p =
      .error (.lineOutOfRange s.range.stop.line source.lineCount) := by
  simp only [definitionAt, h, line_of_le hle]
  rfl

/-- A symbol's range from the beginning of its first line, extended to the bracket that closes its
last. -/
def definitionRange (source : SourceText) (s : DocumentSymbol) : Range :=
  Range.extendToCloser source ⟨⟨s.range.start.line, 0⟩, s.range.stop⟩

/-- Extension keeps the start of a range, and its end within the source. -/
theorem definitionRange_spec (hlast : s.range.stop.line < source.lineCount) :
    (source.definitionRange s).start = ⟨s.range.start.line, 0⟩ ∧
      ((source.definitionRange s).stop = s.range.stop ∨
        s.range.stop.line < (source.definitionRange s).stop.line) ∧
      s.range.stop.line ≤ (source.definitionRange s).stop.line ∧
      (source.definitionRange s).stop.line < source.lineCount := by
  have hcases := Range.extendToCloser_cases source ⟨⟨s.range.start.line, 0⟩, s.range.stop⟩
  rw [← definitionRange] at hcases
  rcases hcases with heq | ⟨q, hbelow, hwithin, heq⟩
  · rw [heq]
    exact ⟨rfl, .inl rfl, Nat.le_refl _, hlast⟩
  · rw [heq]
    exact ⟨rfl, .inr hbelow, Nat.le_of_lt hbelow, hwithin⟩

theorem line_le_of_enclosing? (h : DocumentSymbol.enclosing? p symbols = some s) :
    s.range.start.line ≤ p.line ∧ p.line ≤ s.range.stop.line := by
  have hcontains := DocumentSymbol.contains_of_enclosing? h
  rw [Range.contains_iff, Position.le_def, Position.le_def] at hcontains
  omega

theorem definitionAt_of_lt (h : DocumentSymbol.enclosing? p symbols = some s)
    (hlast : s.range.stop.line < source.lineCount) :
    source.definitionAt symbols p = .ok ⟨Text.ofLines (source.slice s.range.start.line
      (source.definitionRange s).stop.line), source.definitionRange s⟩ := by
  obtain ⟨l, hl⟩ := exists_line hlast
  obtain ⟨hstart, -, hle, hwithin⟩ := definitionRange_spec hlast
  have haround := line_le_of_enclosing? h
  have hlines : source.linesBetween s.range.start.line (source.definitionRange s).stop.line = _ :=
    linesBetween_eq (by omega) hwithin
  simp only [definitionAt, h, line?_eq_some_iff.mp hl]
  dsimp only [bind, Except.bind]
  rw [← definitionRange, hstart]
  dsimp only
  rw [hlines]

theorem isDefinition_of_lt (hsource : ∀ l ∈ source.lines, '\n' ∉ l)
    (h : DocumentSymbol.enclosing? p symbols = some s)
    (hlast : s.range.stop.line < source.lineCount) :
    source.IsDefinition s p ⟨Text.ofLines (source.slice s.range.start.line
      (source.definitionRange s).stop.line), source.definitionRange s⟩ := by
  obtain ⟨hstart, hstop, hle, hwithin⟩ := definitionRange_spec hlast
  have haround := line_le_of_enclosing? h
  have hline : (source.definitionRange s).start.line = s.range.start.line := by rw [hstart]
  have hne : source.slice s.range.start.line (source.definitionRange s).stop.line ≠ [] := by
    apply List.ne_nil_of_length_pos
    rw [length_slice hwithin]
    omega
  have hapart : ∀ l ∈ source.slice s.range.start.line (source.definitionRange s).stop.line,
      '\n' ∉ l := fun l hl => hsource l (List.mem_of_mem_drop (List.mem_of_mem_take hl))
  refine ⟨hstart, hstop, hwithin, ?_, ?_⟩
  · dsimp only
    omega
  · dsimp only
    rw [hline]
    exact ⟨_, hasLines_slice hwithin, rfl, Text.lists_numbered hne hapart _⟩

theorem defines_of_none (h : DocumentSymbol.enclosing? p symbols = none) :
    source.Defines symbols p := by
  have herror : source.definitionAt symbols p = .error (.noEnclosingSymbol p) :=
    definitionAt_of_none h
  constructor
  · exact iff_of_true herror h
  · simp [herror, h]
  · intro e he
    exact .inl (Except.error.inj (he.symm.trans herror))
  · simp [h]

theorem defines_of_le (h : DocumentSymbol.enclosing? p symbols = some s)
    (hle : source.lineCount ≤ s.range.stop.line) : source.Defines symbols p := by
  have herror := definitionAt_of_le h hle
  constructor
  · simp [herror, h]
  · simp [herror, h, hle, eq_comm]
  · intro e he
    exact .inr ⟨_, _, Except.error.inj (he.symm.trans herror)⟩
  · intro t ht hlt
    obtain rfl := Option.some.inj (h.symm.trans ht)
    omega

theorem defines_of_lt (hsource : ∀ l ∈ source.lines, '\n' ∉ l)
    (h : DocumentSymbol.enclosing? p symbols = some s)
    (hlast : s.range.stop.line < source.lineCount) : source.Defines symbols p := by
  have hok := definitionAt_of_lt h hlast
  constructor
  · simp [hok, h]
  · -- no other symbol is found, and this one ends within the source
    intro line total
    simp only [hok, h, reduceCtorEq, false_iff]
    rintro ⟨t, ht, hle, -⟩
    obtain rfl := Option.some.inj ht
    omega
  · simp [hok]
  · intro t ht _
    obtain rfl := Option.some.inj (h.symm.trans ht)
    exact ⟨_, hok, isDefinition_of_lt hsource h hlast⟩

example : (ofContent "var (\n\ta = 1\n)\n").definitionAt
    [.leaf "a" .variable ⟨⟨0, 4⟩, ⟨0, 5⟩⟩] ⟨0, 4⟩ =
      .ok ⟨"var (\n\ta = 1\n)", ⟨⟨0, 0⟩, ⟨2, 1⟩⟩⟩ :=
  rfl

end SourceText

end WorkspaceLink
