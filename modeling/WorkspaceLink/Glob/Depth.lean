import WorkspaceLink.Glob.Ignore

/-!
How deep the globs of ignore files nest. The depth counts the groups, choices, sequences and
repetitions around a character; a glob that nests too deep cannot be used.
-/

namespace WorkspaceLink.IgnoreGlob

/-- The depth of a repetition of anything but a class. -/
def repetitionDepth : Nat := 1

/-- The depth of a choice in a group between a character and a sequence with a repetition. -/
def choiceDepth : Nat := repetitionDepth + 3

/-- The number of choices in a class. Of a character with a longer form each byte is one, and a
range takes up a byte on each side. -/
def classSize (ranges : List (Char × Char)) : Nat :=
  ranges.foldl (fun n (low, high) =>
    n + low.utf8Size + if low = high then 0 else high.utf8Size - 1) 0

/-- The depth of a class, with a level for its choices if there are several. -/
def classDepth (ranges : List (Char × Char)) : Nat :=
  if classSize ranges ≤ 1 then 1 else 2

/-- The number of parts that a part adds to the sequence that it is in. -/
def width (t : IgnoreToken) : Nat :=
  match t with
  | .literal c => c.utf8Size
  | .trailingRuns => 2
  | t => if isVoid t then 0 else 1

/-- A level around something that has several parts. -/
def levelIf (several : Bool) (depth : Nat) : Nat :=
  if several then depth + 1 else depth

mutual

/-- The depth of a part. -/
def depth : IgnoreToken → Nat
  | .literal _ => 0
  | .any => 1
  | .run => 1 + repetitionDepth
  | .leadingRuns => choiceDepth
  | .innerRuns => choiceDepth
  | .trailingRuns => repetitionDepth
  | .class _ ranges => classDepth ranges
  | .group branches =>
    if allVoid branches then 0
    else levelIf (1 < branches.countP (!isVoidBranch ·)) (branchesDepth branches) + 1

/-- The depth of the deepest part of a branch. -/
def partsDepth : List IgnoreToken → Nat
  | [] => 0
  | t :: ts => max (depth t) (partsDepth ts)

/-- The depth of the deepest branch of a group, each with a level if it has several parts. -/
def branchesDepth : List (List IgnoreToken) → Nat
  | [] => 0
  | b :: bs =>
    max (levelIf (1 < b.foldl (fun n t => n + width t) 0) (partsDepth b)) (branchesDepth bs)

end

/-- Globs may nest this deep. -/
def depthLimit : Nat := 250

/-- Whether a glob nests too deep. As a whole it is a sequence with a beginning and an end. -/
def isTooDeep (ts : List IgnoreToken) : Bool :=
  depthLimit < partsDepth ts + 1

end WorkspaceLink.IgnoreGlob
