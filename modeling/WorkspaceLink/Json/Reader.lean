import WorkspaceLink.Json.Scan

/-!
Reading JSON as values of a type. A reader takes the number of brackets and braces that may still
be opened and a value; the first problem in the order of the text decides its fault.
-/

namespace WorkspaceLink.Json

mutual

/-- The first fault met when a value is passed over. -/
def skipFault? : Json → Option Fault
  | array items fault => skipItems? items <|> fault
  | object members fault => skipMembers? members <|> fault
  | broken _ skip => some skip
  | _ => none

/-- The first fault met when items are passed over. -/
def skipItems? : List Json → Option Fault
  | [] => none
  | v :: vs => skipFault? v <|> skipItems? vs

/-- The first fault met when members are passed over. -/
def skipMembers? : List (Option Text × Json) → Option Fault
  | [] => none
  | (_, v) :: vs => skipFault? v <|> skipMembers? vs

end

mutual

/-- The first fault met when a value is read as it is, whatever it is. -/
def readFault? (levels : Nat) : Json → Option Fault
  | array items fault =>
    if levels = 0 then some .malformed else readItems? (levels - 1) items <|> fault
  | object members fault =>
    if levels = 0 then some .malformed else readMembers? (levels - 1) members <|> fault
  | garbled => some .malformed
  | broken read _ => some read
  | _ => none

/-- The first fault met when items are read. -/
def readItems? (levels : Nat) : List Json → Option Fault
  | [] => none
  | v :: vs => readFault? levels v <|> readItems? levels vs

/-- The first fault met when members are read. -/
def readMembers? (levels : Nat) : List (Option Text × Json) → Option Fault
  | [] => none
  | (none, _) :: _ => some .malformed
  | (some _, v) :: vs => readFault? levels v <|> readMembers? levels vs

end

/-- Reads a value of type `α`, with so many levels of nesting left. -/
abbrev Reader (α : Type) := Nat → Json → Except Fault α

namespace Reader

/-- The fault of a value of the wrong kind: it does not fit, unless it cannot be read at all. -/
def mismatch : Json → Fault
  | garbled => .malformed
  | broken read _ => read
  | _ => .unfit

def intBetween (low high : Int) : Reader Int := fun _ j =>
  match j with
  | number n => if low ≤ n ∧ n < high then .ok n else .error .unfit
  | j => .error (mismatch j)

def natBelow (bound : Nat) : Reader Nat := fun levels j =>
  (intBetween 0 bound levels j).map Int.toNat

def text : Reader Text := fun _ j =>
  match j with
  | string s => .ok s
  | j => .error (mismatch j)

def bool : Reader Bool := fun _ j =>
  match j with
  | .bool b => .ok b
  | j => .error (mismatch j)

def optional {α : Type} (read : Reader α) : Reader (Option α) := fun levels j =>
  match j with
  | null => .ok none
  | j => (read levels j).map some

/-- Reads the items of an array in order. -/
def list {α : Type} (read : Reader α) : Reader (List α) := fun levels j =>
  match j with
  | array items fault =>
    if levels = 0 then .error .malformed
    else do
      let values ← items.mapM (read (levels - 1))
      match fault with
      | none => .ok values
      | some f => .error f
  | j => .error (mismatch j)

/-- Reads a value and converts it, if it can be converted. -/
def filterMap {α β : Type} (read : Reader α) (f : α → Option β) : Reader β := fun levels j => do
  match f (← read levels j) with
  | some b => .ok b
  | none => .error .unfit

/-- Puts the members of an object into a record. A field given twice does not fit; a member that
is no field is passed over. -/
def putMembers {σ : Type} (names : List String) (put : String → σ → Json → Except Fault σ) :
    List String → List (Option Text × Json) → σ → Except Fault σ
  | _, [], record => .ok record
  | _, (none, _) :: _, _ => .error .malformed
  | seen, (some key, v) :: members, record =>
    let name := String.ofList key
    if names.contains name then
      if seen.contains name then .error .unfit
      else do putMembers names put (name :: seen) members (← put name record v)
    else
      match skipFault? v with
      | some f => .error f
      | none => putMembers names put seen members record

/-- Puts the items of an array into the fields of a record in order. There may be fewer items than
fields, but not more. -/
def putItems {σ : Type} (put : String → σ → Json → Except Fault σ) :
    List String → List Json → σ → Except Fault σ
  | _, [], record => .ok record
  | [], _ :: _, _ => .error .malformed
  | name :: names, v :: items, record => do putItems put names items (← put name record v)

/-- Reads a record, given as an object or as an array of its fields in order. `put` reads one
field into the record. -/
def fields {σ : Type} (names : List String) (put : Nat → String → σ → Json → Except Fault σ)
    (start : σ) : Reader σ := fun levels j =>
  let close (fault : Option Fault) (record : σ) : Except Fault σ :=
    match fault with
    | none => .ok record
    | some f => .error f
  match j with
  | object members fault =>
    if levels = 0 then .error .malformed
    else do close fault (← putMembers names (put (levels - 1)) [] members start)
  | array items fault =>
    if levels = 0 then .error .malformed
    else do close fault (← putItems (put (levels - 1)) names items start)
  | j => .error (mismatch j)

/-- A field that must be given. -/
def required {α : Type} (field : Option α) : Except Fault α :=
  match field with
  | some a => .ok a
  | none => .error .unfit

/-- Reads a value as the first of several types that it fits. The whole value is read before any
of them is tried. -/
def firstOf {α : Type} (readers : List (Reader α)) : Reader α := fun levels j =>
  match readFault? levels j with
  | some f => .error f
  | none =>
    match readers.findSome? fun read => (read levels j).toOption with
    | some a => .ok a
    | none => .error .unfit

end Reader

/-- So many brackets and braces may be open at once. -/
def nestingLimit : Nat := 127

/-- Reads a text that holds one value and nothing else but blanks. -/
def parse {α : Type} (read : Reader α) (s : Text) : Except Fault α := do
  let (j, rest) := scan s
  let a ← read nestingLimit j
  if (skipSpace (rest.getD [])).isEmpty then .ok a else .error .malformed

end WorkspaceLink.Json
