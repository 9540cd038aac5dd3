import WorkspaceLink.Text.Utf8

/-!
Globs of ignore files. They know stars, question marks, classes, `**` as a whole component, nested
brace groups and backslash escapes, and they match paths byte by byte.
-/

namespace WorkspaceLink

/-- A part of a glob. A `**` stands for any run of components: at the beginning, at the end or in
the middle of a glob. -/
inductive IgnoreToken where
  | literal (c : Char)
  | any
  | run
  | leadingRuns
  | trailingRuns
  | innerRuns
  | class (negated : Bool) (ranges : List (Char × Char))
  | group (branches : List (List IgnoreToken))
deriving Inhabited

namespace IgnoreGlob

/-! ### Reading -/

/-- A class after its opening bracket. -/
inductive ClassText where
  /-- The brackets are not closed. -/
  | unclosed
  /-- A range ends before it starts. -/
  | badRange
  /-- The ranges of the class, and the number of characters read. -/
  | closed (ranges : List (Char × Char)) (length : Nat)

/-- Reads the ranges of a class, given those read so far in reverse, whether the last of them
waits for its end after a hyphen, and the number of characters read. -/
def classText (ranges : List (Char × Char)) (inRange : Bool) (length : Nat) : Text → ClassText
  | [] => .unclosed
  | c :: s =>
    match ranges with
    | [] => classText [(c, c)] false (length + 1) s
    | (a, b) :: before =>
      if c = ']' then
        .closed (if inRange then ('-', '-') :: ranges else ranges).reverse (length + 1)
      else if inRange then
        if c < a then .badRange else classText ((a, c) :: before) false (length + 1) s
      else if c = '-' then classText ((a, b) :: before) true (length + 1) s
      else classText ((c, c) :: ranges) false (length + 1) s

/-- A brace group being read: the parts before it, in reverse, and its finished branches, in
reverse. -/
structure OpenGroup where
  before : List IgnoreToken
  branches : List (List IgnoreToken)

/-- What has been read of a glob: the parts of the current branch in reverse, the groups open
around it, and the last character. Once brackets turned out not to be closed, all brackets are
literal. -/
structure Progress where
  parts : List IgnoreToken := []
  groups : List OpenGroup := []
  last : Option Char := none
  literalBrackets : Bool := false

namespace Progress

/-- Adds a part and the characters read for it, of which `last` is the last. -/
def push (p : Progress) (t : IgnoreToken) (last : Char) : Progress :=
  { p with parts := t :: p.parts, last := some last }

/-- Two stars that are not a whole component are two single stars. -/
def pushStars (p : Progress) : Progress :=
  (p.push .run '*').push .run '*'

/-- Whether two stars that a part precedes begin a component, or a branch. -/
def beginsComponent (p : Progress) : Bool :=
  p.last == some '/' || (!p.groups.isEmpty && (p.last == some ',' || p.last == some '\x7b'))

/-- Adds a `**` in place of the slash before it; a `**` that follows another adds nothing. -/
def pushRuns (p : Progress) (t : IgnoreToken) (last : Char) : Progress :=
  match p.parts with
  | .leadingRuns :: _ => { p with last := some last }
  | .trailingRuns :: _ => { p with last := some last }
  | _ :: parts => { p with parts := t :: parts, last := some last }
  | [] => p.push t last

end Progress

/-- Reads a glob, first passing over `skip` characters that were read ahead. There is no glob if a
group is not closed or not open, a range is turned around, or a backslash ends the text. -/
def read (p : Progress) (skip : Nat) : Text → Option (List IgnoreToken)
  | [] => if p.groups.isEmpty then some p.parts.reverse else none
  | c :: s =>
    match skip with
    | skip + 1 => read { p with last := some c } skip s
    | 0 =>
      match c with
      | '?' => read (p.push .any c) 0 s
      | '*' =>
        if s.head? ≠ some '*' then read (p.push .run c) 0 s
        else
          let next := s.tail.head?
          if p.parts.isEmpty then
            if next = none then read (p.push .leadingRuns '*') 1 s
            else if next = some '/' then read (p.push .leadingRuns '*') 2 s
            else read p.pushStars 1 s
          else if !p.beginsComponent then read p.pushStars 1 s
          else if next = none then read (p.pushRuns .trailingRuns '*') 1 s
          else if !p.groups.isEmpty ∧ (next = some ',' ∨ next = some '\x7d') then
            read (p.pushRuns .trailingRuns '*') 1 s
          else if next = some '/' then read (p.pushRuns .innerRuns '*') 2 s
          else read p.pushStars 1 s
      | '[' =>
        if p.literalBrackets then read (p.push (.literal c) c) 0 s
        else
          let negated := s.head? = some '!' ∨ s.head? = some '^'
          match classText [] false 0 (if negated then s.tail else s) with
          | .unclosed => read { p.push (.literal c) c with literalBrackets := true } 0 s
          | .badRange => none
          | .closed ranges length =>
            read (p.push (.class negated ranges) c) (if negated then length + 1 else length) s
      | '{' => read { p with parts := [], groups := ⟨p.parts, []⟩ :: p.groups, last := some c } 0 s
      | '}' =>
        match p.groups with
        | [] => none
        | g :: groups =>
          let branches := (p.parts.reverse :: g.branches).reverse
          read { p with parts := .group branches :: g.before, groups, last := some c } 0 s
      | ',' =>
        match p.groups with
        | [] => read (p.push (.literal c) c) 0 s
        | g :: groups =>
          let branches := p.parts.reverse :: g.branches
          read { p with parts := [], groups := { g with branches } :: groups, last := some c } 0 s
      | '\\' =>
        match s with
        | [] => none
        | e :: _ => read (p.push (.literal e) c) 1 s
      | c => read (p.push (.literal c) c) 0 s

/-- The parts of a glob. -/
def tokens? (glob : Text) : Option (List IgnoreToken) :=
  read {} 0 glob

/-! ### Matching -/

def slash : UInt8 := 0x2F

/-- What is left of some bytes after any number of them up to the first slash. -/
def afterRun : List UInt8 → List (List UInt8)
  | [] => [[]]
  | b :: bs => (b :: bs) :: if b = slash then [] else afterRun bs

/-- What is left of some bytes after each slash. -/
def afterSlashes : List UInt8 → List (List UInt8)
  | [] => []
  | b :: bs => if b = slash then bs :: afterSlashes bs else afterSlashes bs

/-- What is left of some bytes after any number of them. -/
def endings : List UInt8 → List (List UInt8)
  | [] => [[]]
  | b :: bs => (b :: bs) :: endings bs

/-- Whether a byte is in the class of some ranges. A range of characters with longer forms covers
the bytes from the last of its lower end to the first of its upper end, and the others that
spell its ends. -/
def inRanges (b : UInt8) (ranges : List (Char × Char)) : Bool :=
  ranges.any fun (low, high) =>
    let lows := String.utf8EncodeChar low
    let highs := String.utf8EncodeChar high
    lows.contains b || highs.contains b ||
      (low != high && lows.getLast?.any (· ≤ b) && highs.head?.any (b ≤ ·))

mutual

/-- Whether a part stands for nothing at all. -/
def isVoid : IgnoreToken → Bool
  | .group branches => allVoid branches
  | _ => false

/-- Whether all parts of a branch stand for nothing. -/
def isVoidBranch : List IgnoreToken → Bool
  | [] => true
  | t :: ts => isVoid t && isVoidBranch ts

/-- Whether all branches of a group stand for nothing. -/
def allVoid : List (List IgnoreToken) → Bool
  | [] => true
  | b :: bs => isVoidBranch b && allVoid bs

end

mutual

/-- What may be left of some bytes after the ones that a part stands for. -/
def rests (bytes : List UInt8) : IgnoreToken → List (List UInt8)
  | .literal c => ((String.utf8EncodeChar c).isPrefixOf? bytes).toList
  | .any =>
    match bytes with
    | b :: bs => if b = slash then [] else [bs]
    | [] => []
  | .run => afterRun bytes
  | .leadingRuns => bytes :: afterSlashes bytes
  | .trailingRuns =>
    match bytes with
    | b :: bs => if b = slash then endings bs else []
    | [] => []
  | .innerRuns =>
    match bytes with
    | b :: bs => if b = slash then bs :: afterSlashes bs else []
    | [] => []
  | .class negated ranges =>
    match bytes with
    | b :: bs => if inRanges b ranges != negated then [bs] else []
    | [] => []
  | .group branches => if allVoid branches then [bytes] else groupRests bytes branches

/-- What may be left after the bytes that the parts of a branch stand for in turn. -/
def branchRests (left : List (List UInt8)) : List IgnoreToken → List (List UInt8)
  | [] => left
  | t :: ts => branchRests (left.flatMap fun bytes => rests bytes t).eraseDups ts

/-- What may be left after the bytes that one of the branches of a group stands for. Branches that
stand for nothing are left out. -/
def groupRests (bytes : List UInt8) : List (List IgnoreToken) → List (List UInt8)
  | [] => []
  | b :: bs => (if isVoidBranch b then [] else branchRests [bytes] b) ++ groupRests bytes bs

end

def isLiteral : IgnoreToken → Bool
  | .literal _ => true
  | _ => false

def isSlash : IgnoreToken → Bool
  | .literal c => c == '/'
  | _ => false

def isDot : IgnoreToken → Bool
  | .literal c => c == '.'
  | _ => false

/-- Whether a glob spells out a path, or the last components of one if there are several. -/
def spellsPath : List IgnoreToken → Bool
  | .leadingRuns :: ts => ts.all isLiteral && ts.any isSlash
  | ts => ts.all isLiteral

/-- Whether a glob that ends in a dot asks for a file name that does; it does unless it spells out a
path. The component `..` is no file name. -/
def asksForName (ts : List IgnoreToken) : Bool :=
  ts.getLast?.any isDot && !spellsPath ts

/-- Whether the last component of a path is the directory above. -/
def endsInParent (path : Text) : Bool :=
  (path.splitOn '/').getLast? == some ['.', '.']

/-- Whether a glob stands for a path as a whole. A `**` by itself stands for every path. -/
def matchTokens (ts : List IgnoreToken) (path : Text) : Bool :=
  match ts with
  | [.leadingRuns] => true
  | ts =>
    !(asksForName ts && endsInParent path) && (branchRests [Text.utf8 path] ts).contains []

end IgnoreGlob

end WorkspaceLink
