import WorkspaceLink.Proofs.Path.Names
import WorkspaceLink.Proofs.Text.Lines

/-! Where paths lead in a file system. A path of names leads where the names lead, and whatever a
path leads to has a path of names. -/

namespace WorkspaceLink

open WorkspaceLink.Path (IsName piecesOf)

namespace FileNode

variable {child : FileNode} {below : List Text} {content : ByteArray}

theorem at?_append (names below : List Text) (node : FileNode) :
    node.at? (names ++ below) = (node.at? names).bind (at? below) := by
  induction names generalizing node with
  | nil => rfl
  | cons name names ih =>
    rw [List.cons_append, at?, at?]
    cases node.entry? name with
    | none => rfl
    | some child => exact ih child

theorem at?_file : (file content).at? below = some child ↔ below = [] ∧ child = .file content := by
  cases below with
  | nil => simp [at?, eq_comm]
  | cons name below => simp [at?, entry?]

end FileNode

namespace FileTree

variable {t : FileTree} {node : FileNode} {names below : List Text}

/-! ### Following a path -/

/-- Whether a path of names is one that the system follows: it holds no zero character, and neither
it nor any of the names is too long. -/
def admits (names : List Text) : Bool :=
  !(pathOf names).contains '\x00' && decide (Text.byteCount (pathOf names) < pathLimit) &&
    names.all (Text.byteCount · ≤ 255)

theorem byteCount_mono {a b : Text} (h : a <+: b) : Text.byteCount a ≤ Text.byteCount b := by
  obtain ⟨rest, rfl⟩ := h
  rw [Text.byteCount_append]
  exact Nat.le_add_right _ _

/-- If a path is followed, so are those of the directories around it. -/
theorem admits_of_append (h : admits (names ++ below) = true) : admits names = true := by
  have hbegin := Path.pathOf_prefix names below
  simp only [admits, Bool.and_eq_true, Bool.not_eq_true', List.all_append, decide_eq_true_eq] at h ⊢
  obtain ⟨⟨hzero, hlength⟩, hnames, _⟩ := h
  refine ⟨⟨?_, Nat.lt_of_le_of_lt (byteCount_mono hbegin) hlength⟩, hnames⟩
  rw [← Bool.not_eq_true, List.contains_iff_mem] at hzero ⊢
  exact fun hmem => hzero (hbegin.subset hmem)

theorem followPieces_names {top : FileNode}
    {onLink : List Text → List Text → Except FileError (List Text)} {dir : List Text}
    (h : ∀ n ∈ names, IsName n) (hat : top.at? (dir ++ names) = some node)
    (hlink : ∀ target, node ≠ .link target) :
    followPieces top onLink dir names =
      if names.all (Text.byteCount · ≤ 255) then .ok (dir ++ names) else .error .nameTooLong := by
  induction names generalizing dir with
  | nil => simp [followPieces]
  | cons name names ih =>
    obtain ⟨hname, hrest⟩ := List.forall_mem_cons.mp h
    rw [List.append_cons] at hat ⊢
    have hnext := ih hrest hat
    rw [FileNode.at?_append] at hat
    obtain ⟨child, hchild, hat⟩ := Option.bind_eq_some_iff.mp hat
    rw [followPieces, hname.not_isNoise, if_neg (by simp), if_neg hname.ne_parent, List.all_cons]
    by_cases hlong : 255 < Text.byteCount name
    · rw [if_pos hlong, decide_eq_false (Nat.not_le.mpr hlong)]
      rfl
    · rw [if_neg hlong, hchild, decide_eq_true (Nat.le_of_not_lt hlong), Bool.true_and, ← hnext]
      -- more names lead on only from a directory
      cases child with
      | dir entries => rfl
      | file content =>
        obtain ⟨rfl, _⟩ := FileNode.at?_file.mp hat
        rfl
      | link target =>
        cases names with
        | nil => exact absurd (Option.some.inj hat).symm (hlink target)
        | cons _ _ => cases hat

/-- A path of names leads where the names lead, if it is followed. -/
theorem find_pathOf (h : ∀ n ∈ names, IsName n) (hat : t.top.at? names = some node)
    (hlink : ∀ target, node ≠ .link target) :
    (t.find (pathOf names)).toOption = if admits names then some node else none := by
  have hfollow : follow t.top linkLimit [] ([] :: piecesOf names) =
      if names.all (Text.byteCount · ≤ 255) then .ok names else .error .nameTooLong := by
    cases names with
    | nil => rfl
    | cons name names => exact followPieces_names h hat hlink
  have habsolute : Path.isAbsolute (pathOf names) = true := rfl
  rw [find, resolve, habsolute, Path.splitOn_pathOf h, hfollow, admits]
  cases (pathOf names).contains '\x00' with
  | true => rfl
  | false =>
    by_cases hlength : pathLimit ≤ Text.byteCount (pathOf names)
    · rw [if_pos hlength, decide_eq_false (Nat.not_lt.mpr hlength)]
      rfl
    · rw [if_neg hlength, decide_eq_true (Nat.lt_of_not_le hlength)]
      cases names.all (Text.byteCount · ≤ 255) with
      | false => rfl
      | true => simp [bind, Except.bind, hat, Except.toOption]

theorem size?_isSome (t : FileTree) (path : Path) :
    (t.size? path).isSome = (t.find path).toOption.isSome := by
  rw [size?]
  rcases t.find path with _ | (_ | _ | _) <;> rfl

/-! ### Where paths lead -/

/-- Names that can be those of files, at whose end something is. -/
structure IsPlace (top : FileNode) (names : List Text) : Prop where
  valid : ∀ n ∈ names, IsName n
  found : (top.at? names).isSome

theorem IsPlace.dropLast {top : FileNode} (h : IsPlace top names) : IsPlace top names.dropLast := by
  refine ⟨fun n hn => h.valid n (List.dropLast_subset names hn), ?_⟩
  obtain ⟨rest, hrest⟩ := List.dropLast_prefix names
  have hat := h.found
  rw [← hrest, FileNode.at?_append] at hat
  exact Option.isSome_of_isSome_bind hat

/-- Pieces of a path lead from a place to a place. -/
theorem followPieces_isPlace {top : FileNode}
    {onLink : List Text → List Text → Except FileError (List Text)} {dir pieces : List Text}
    (hlink : ∀ dir pieces names, IsPlace top dir → (∀ p ∈ pieces, '/' ∉ p) →
      onLink dir pieces = .ok names → IsPlace top names)
    (hdir : IsPlace top dir) (hpieces : ∀ p ∈ pieces, '/' ∉ p)
    (h : followPieces top onLink dir pieces = .ok names) : IsPlace top names := by
  induction pieces generalizing dir with
  | nil =>
    obtain rfl := Except.ok.inj h
    exact hdir
  | cons piece pieces ih =>
    obtain ⟨hslash, hpieces⟩ := List.forall_mem_cons.mp hpieces
    rw [followPieces] at h
    by_cases hnoise : Path.isNoise piece = true
    · rw [if_pos hnoise] at h
      exact ih hdir hpieces h
    by_cases hparent : piece = ['.', '.']
    · rw [if_neg hnoise, if_pos hparent] at h
      exact ih hdir.dropLast hpieces h
    by_cases hlong : 255 < Text.byteCount piece
    · rw [if_neg hnoise, if_neg hparent, if_pos hlong] at h
      cases h
    rw [if_neg hnoise, if_neg hparent, if_neg hlong] at h
    have hname : IsName piece := by
      rw [Path.isNoise, Bool.or_eq_true, not_or, List.isEmpty_iff, beq_iff_eq] at hnoise
      exact ⟨hnoise.1, hslash, hnoise.2, hparent⟩
    have hvalid := Path.isName_concat hdir.valid hname
    cases hat : top.at? (dir ++ [piece]) with
    | none =>
      rw [hat] at h
      cases h
    | some node =>
      have hplace : IsPlace top (dir ++ [piece]) := ⟨hvalid, by rw [hat]; rfl⟩
      rw [hat] at h
      cases node with
      | dir entries => exact ih hplace hpieces h
      | file content =>
        dsimp only at h
        split at h
        · obtain rfl := Except.ok.inj h
          exact hplace
        · cases h
      | link target =>
        -- the way starts again at the root or in the directory of the link
        refine hlink _ _ _ ?_ ?_ h
        · split
          · exact ⟨List.forall_mem_nil _, rfl⟩
          · exact hdir
        · exact List.forall_mem_append.mpr ⟨fun p hp => Text.not_mem_of_mem_splitOn hp, hpieces⟩

theorem follow_isPlace {top : FileNode} {links : Nat} {dir pieces : List Text}
    (hdir : IsPlace top dir) (hpieces : ∀ p ∈ pieces, '/' ∉ p)
    (h : follow top links dir pieces = .ok names) : IsPlace top names := by
  induction links generalizing dir pieces names with
  | zero =>
    refine followPieces_isPlace ?_ hdir hpieces h
    intro _ _ _ _ _ hnone
    cases hnone
  | succ links ih => exact followPieces_isPlace (fun _ _ _ hdir hp h => ih hdir hp h) hdir hpieces h

/-- A path leads to a place, by names that can be those of files. -/
theorem resolve_isPlace {path : Path} (h : t.resolve path = .ok names) : IsPlace t.top names := by
  rw [resolve] at h
  split at h
  · cases h
  split at h
  · cases h
  split at h
  · exact follow_isPlace ⟨List.forall_mem_nil _, rfl⟩ (fun _ hp => Text.not_mem_of_mem_splitOn hp) h
  · cases h

end FileTree

end WorkspaceLink
