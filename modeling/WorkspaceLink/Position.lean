import WorkspaceLink.Text.Basic

/-!
Positions, ranges and locations in documents. Lines and characters count from zero; reports add
one when they print. Positions and ranges are ordered lexicographically, locations by URI first.
-/

namespace WorkspaceLink

/-- Lines, characters and all other coordinates on the wire are below this bound. -/
def coordBound : Nat := 0x100000000

/-- The largest coordinate: counting past it stays there. -/
def lastCoord : Nat := coordBound - 1

/-- The coordinate `n` places after `a`. Counting stops at the last coordinate. -/
def coordAfter (a n : Nat) : Nat := min (a + n) (max a lastCoord)

/-- A coordinate as a count from one, which comes around to zero at the last coordinate. -/
def coordSucc (a : Nat) : Nat := (a + 1) % coordBound

/-- Counts from one differ where coordinates do, the last one included. -/
theorem coordSucc_inj {a b : Nat} (ha : a < coordBound) (hb : b < coordBound) :
    coordSucc a = coordSucc b ↔ a = b := by
  rw [coordSucc, coordSucc]
  rw [coordBound] at *
  omega

structure Position where
  line : Nat
  character : Nat
deriving DecidableEq, Inhabited

namespace Position

instance : Ord Position where
  compare a b := (compare a.line b.line).then (compare a.character b.character)

instance : LE Position where
  le a b := a.line < b.line ∨ a.line = b.line ∧ a.character ≤ b.character

theorem le_def {a b : Position} :
    a ≤ b ↔ a.line < b.line ∨ a.line = b.line ∧ a.character ≤ b.character :=
  Iff.rfl

instance (a b : Position) : Decidable (a ≤ b) :=
  decidable_of_iff _ le_def.symm

theorem le_trans {a b c : Position} (hab : a ≤ b) (hbc : b ≤ c) : a ≤ c := by
  rw [le_def] at hab hbc ⊢
  omega

theorem le_antisymm {a b : Position} (hab : a ≤ b) (hba : b ≤ a) : a = b := by
  obtain ⟨lineA, characterA⟩ := a
  obtain ⟨lineB, characterB⟩ := b
  rw [le_def] at hab hba
  dsimp only at hab hba
  have hline : lineA = lineB := by omega
  have hcharacter : characterA = characterB := by omega
  rw [hline, hcharacter]

/-- Whether a position is one that can be sent. -/
def Fits (p : Position) : Prop :=
  p.line < coordBound ∧ p.character < coordBound

instance : DecidablePred Fits :=
  fun _ => inferInstanceAs (Decidable (_ ∧ _))

/-- The order as a test, for sorting. -/
def leBool (a b : Position) : Bool :=
  (compare a b).isLE

def sort (ps : List Position) : List Position :=
  ps.mergeSort leBool

end Position

/-- A stretch of a document. Nothing keeps a server from sending one that ends before it starts. -/
structure Range where
  start : Position
  stop : Position
deriving DecidableEq, Inhabited

namespace Range

instance : Ord Range where
  compare a b := (compare a.start b.start).then (compare a.stop b.stop)

/-- The range from the beginning of a document to the beginning of a document, which servers send
when they know no range. -/
def zero : Range := ⟨⟨0, 0⟩, ⟨0, 0⟩⟩

/-- Whether a position lies in a range, both ends included. -/
def contains (r : Range) (p : Position) : Bool :=
  !(p.line < r.start.line || r.stop.line < p.line) &&
    !(p.line == r.start.line && p.character < r.start.character) &&
    !(p.line == r.stop.line && r.stop.character < p.character)

/-- A position lies in a range when it is between its ends in the order of positions. -/
theorem contains_iff {r : Range} {p : Position} :
    r.contains p = true ↔ r.start ≤ p ∧ p ≤ r.stop := by
  simp only [contains, Position.le_def, Bool.and_eq_true, Bool.not_eq_true', Bool.or_eq_false_iff,
    Bool.and_eq_false_iff, beq_eq_false_iff_ne, decide_eq_false_iff_not]
  omega

/-- How many lines further the end is than the start. -/
def lineSpan (r : Range) : Int :=
  (r.stop.line : Int) - r.start.line

/-- How many characters further the end is than the start, lines set aside. -/
def charSpan (r : Range) : Int :=
  (r.stop.character : Int) - r.start.character

def isZero (r : Range) : Bool :=
  r == zero

end Range

/-- The name of a document on the wire. -/
structure DocumentUri where
  text : Text
deriving DecidableEq, Inhabited

instance : Ord DocumentUri where
  compare a b := compare a.text b.text

structure Location where
  uri : DocumentUri
  range : Range
deriving DecidableEq, Inhabited

instance : Ord Location where
  compare a b := (compare a.uri b.uri).then (compare a.range b.range)

end WorkspaceLink
