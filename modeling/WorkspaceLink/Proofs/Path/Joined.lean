import WorkspaceLink.Proofs.Path.Names

/-! Paths below an absolute directory. The directory may be spelled with repeated slashes, with `.` and
with `..`; the names that are joined to it are the last components of the path, and are what is left
of it below the directory. -/

namespace WorkspaceLink.Path

open FileTree (pathOf)

variable {root : Path} {names : List Text} {name : Text}

theorem cutUp_absolute (s : Text) : cutUp ('/' :: s) = (some .root, s.splitOn '/') := by
  have hsplit : ('/' :: s).splitOn '/' = [] :: s.splitOn '/' :=
    List.splitOn_append_cons_self_of_not_mem List.not_mem_nil s
  have hne : (s.splitOn '/').isEmpty = false :=
    List.isEmpty_eq_false_iff.mpr (List.splitOn_ne_nil '/' s)
  rw [cutUp, hsplit]
  simp [hne]

theorem isAbsolute_iff : isAbsolute root = true ↔ ∃ s, root = '/' :: s := by
  rw [isAbsolute, beq_iff_eq, List.head?_eq_some_iff]

theorem not_isAbsolute_ofNames (h : ∀ n ∈ names, IsName n) : isAbsolute (ofNames names) = false := by
  rw [← Bool.not_eq_true, isAbsolute_iff]
  rintro ⟨rest, heq⟩
  exact (isName_of_front h List.not_mem_nil heq).ne_nil rfl

theorem join_ofNames (hroot : isAbsolute root = true) (h : ∀ n ∈ names, IsName n) :
    join root (ofNames names) =
      if root.getLast? = some '/' then root ++ ofNames names else root ++ '/' :: ofNames names := by
  obtain ⟨s, rfl⟩ := isAbsolute_iff.mp hroot
  have hempty : List.isEmpty ('/' :: s) = false := rfl
  rw [join, not_isAbsolute_ofNames h, hempty]
  simp only [Bool.false_or, Bool.false_eq_true, if_false, beq_iff_eq]

theorem join_pathOf_ofNames {below : List Text} (h : ∀ n ∈ names, IsName n)
    (hbelow : ∀ n ∈ below, IsName n) (hne : below ≠ []) :
    join (pathOf names) (ofNames below) = pathOf (names ++ below) := by
  rw [join_ofNames rfl hbelow]
  simp only [getLast?_pathOf h]
  by_cases hnames : names = []
  · rw [if_pos hnames, hnames]
    rfl
  · rw [if_neg hnames]
    exact (congrArg ('/' :: ·) (ofNames_append hnames hne)).symm

/-- Names joined to an absolute directory come after its pieces, those without a component apart. -/
theorem cutUp_join (hroot : isAbsolute root = true) (h : ∀ n ∈ names, IsName n) (hne : names ≠ []) :
    ∃ pieces, cutUp (join root (ofNames names)) = (some .root, pieces ++ names) ∧
      components root = .root :: (pieces.filter (!isNoise ·)).map ofPiece := by
  have hsplit : (ofNames names).splitOn '/' = names := by
    rw [splitOn_ofNames h]
    exact if_neg (by simpa using hne)
  have hcut (s : Text) : cutUp ('/' :: (s ++ '/' :: ofNames names)) =
      (some .root, s.splitOn '/' ++ names) := by
    rw [cutUp_absolute, List.splitOn_append_cons_self, hsplit]
  rw [join_ofNames hroot h]
  obtain ⟨s, rfl⟩ := isAbsolute_iff.mp hroot
  have hcomponents : components ('/' :: s) =
      .root :: ((s.splitOn '/').filter (!isNoise ·)).map ofPiece := by
    rw [components, cutUp_absolute]
    rfl
  rw [hcomponents]
  -- the directory is the root, or its last character says whether a slash is put in
  rcases s.eq_nil_or_concat with rfl | ⟨s, c, rfl⟩
  · refine ⟨[], ?_, rfl⟩
    rw [if_pos List.getLast?_singleton, List.nil_append, List.singleton_append, cutUp_absolute,
      hsplit]
  · rw [List.concat_eq_append, ← List.cons_append, List.getLast?_concat, List.cons_append]
    by_cases hc : c = '/'
    · -- a slash at the end of the directory stands before the names as it is
      subst hc
      refine ⟨s.splitOn '/', ?_, ?_⟩
      · rw [if_pos rfl, List.cons_append, List.append_assoc, List.singleton_append, hcut]
      · have hnoise : List.filter (!isNoise ·) (([] : Text).splitOn '/') = [] := rfl
        rw [List.splitOn_append_cons_self, List.filter_append, hnoise, List.append_nil]
    · refine ⟨(s ++ [c]).splitOn '/', ?_, rfl⟩
      rw [if_neg fun heq => hc (Option.some.inj heq), List.cons_append, hcut]

theorem components_join (hroot : isAbsolute root = true) (h : ∀ n ∈ names, IsName n)
    (hne : names ≠ []) :
    components (join root (ofNames names)) = components root ++ names.map .name := by
  obtain ⟨pieces, hcut, hcomponents⟩ := cutUp_join hroot h hne
  rw [components, hcut, hcomponents]
  dsimp only
  rw [List.filter_append, filter_names h, List.map_append, map_ofPiece_names h]
  rfl

theorem fileName?_join (hroot : isAbsolute root = true) (h : ∀ n ∈ names, IsName n)
    (hname : IsName name) : fileName? (join root (ofNames (names ++ [name]))) = some name := by
  rw [fileName?, components_join hroot (isName_concat h hname) (by simp), List.map_append,
    List.map_singleton, ← List.append_assoc, List.getLast?_concat]

theorem same_join_self (hroot : isAbsolute root = true) (h : ∀ n ∈ names, IsName n)
    (hne : names ≠ []) : same (join root (ofNames names)) root = false := by
  rw [← Bool.not_eq_true, same_iff, components_join hroot h hne, List.append_right_eq_self,
    List.map_eq_nil_iff]
  exact hne

/-- After the components of some pieces, only noise stands before the names that follow them. -/
theorem dropWhile_dropPieces (h : ∀ n ∈ names, IsName n) (pieces : List Text) :
    (dropPieces (pieces.filter (!isNoise ·)).length (pieces ++ names)).dropWhile isNoise =
      names := by
  induction pieces with
  | nil =>
    have hall : dropPieces 0 names = names := dropPieces.eq_1 names
    exact (congrArg (List.dropWhile isNoise) hall).trans (dropWhile_names h)
  | cons piece pieces ih =>
    cases hnoise : isNoise piece with
    | true =>
      have hfilter : (piece :: pieces).filter (!isNoise ·) = pieces.filter (!isNoise ·) :=
        List.filter_cons_of_neg (by simp [hnoise])
      rw [hfilter, List.cons_append]
      -- noise between components is dropped with them, noise after the last one by `dropWhile`
      cases hlength : (pieces.filter (!isNoise ·)).length with
      | zero =>
        rw [hlength] at ih
        rw [dropPieces, List.dropWhile_cons_of_pos hnoise]
        rwa [dropPieces] at ih
      | succ n =>
        rw [hlength] at ih
        rw [dropPieces, if_pos hnoise]
        exact ih
    | false =>
      have hfilter : (piece :: pieces).filter (!isNoise ·) = piece :: pieces.filter (!isNoise ·) :=
        List.filter_cons_of_pos (by simp [hnoise])
      rw [hfilter, List.length_cons, List.cons_append, dropPieces, hnoise]
      exact ih

/-- What is left of names joined to an absolute directory, below the directory. -/
theorem relativeTo?_join (hroot : isAbsolute root = true) (h : ∀ n ∈ names, IsName n)
    (hne : names ≠ []) : relativeTo? (join root (ofNames names)) root = some (ofNames names) := by
  have hbegin : (components root).isPrefixOf (components (join root (ofNames names))) = true := by
    rw [components_join hroot h hne]
    exact List.isPrefixOf_iff_prefix.mpr (List.prefix_append _ _)
  obtain ⟨pieces, hcut, hcomponents⟩ := cutUp_join hroot h hne
  have hlength : (components root).length = (pieces.filter (!isNoise ·)).length + 1 := by
    rw [hcomponents, List.length_cons, List.length_map]
  rw [relativeTo?]
  dsimp only
  rw [if_pos hbegin, hlength, hcut]
  dsimp only
  rw [dropWhile_dropPieces h, trimNoise_names h]
  rfl

end WorkspaceLink.Path
