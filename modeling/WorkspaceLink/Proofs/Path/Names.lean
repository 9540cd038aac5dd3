import Mathlib.Data.List.Induction
import WorkspaceLink.FileTree

/-! Paths made of names. The components of such a path and the directories around it are read off the
names. -/

namespace WorkspaceLink.Path

open FileTree (pathOf)

/-- A text that can be the name of a file. -/
structure IsName (name : Text) : Prop where
  ne_nil : name ≠ []
  no_slash : '/' ∉ name
  ne_here : name ≠ ['.']
  ne_parent : name ≠ ['.', '.']

theorem isName_iff {name : Text} :
    IsName name ↔ name ≠ [] ∧ '/' ∉ name ∧ name ≠ ['.'] ∧ name ≠ ['.', '.'] :=
  ⟨fun h => ⟨h.ne_nil, h.no_slash, h.ne_here, h.ne_parent⟩,
    fun ⟨hnil, hslash, hhere, hparent⟩ => ⟨hnil, hslash, hhere, hparent⟩⟩

instance : DecidablePred IsName :=
  fun _ => decidable_of_iff' _ isName_iff

theorem IsName.not_isNoise {name : Text} (h : IsName name) : isNoise name = false := by
  simp [isNoise, h.ne_nil, h.ne_here]

theorem IsName.ofPiece {name : Text} (h : IsName name) : ofPiece name = .name name :=
  if_neg h.ne_parent

/-- The relative path of names. -/
def ofNames (names : List Text) : Path :=
  ['/'].intercalate names

/-- The pieces of the relative path of names; that of no names has one piece, which is empty. -/
def piecesOf (names : List Text) : List Text :=
  if names.isEmpty then [[]] else names

variable {names below : List Text} {name : Text}

theorem isName_concat (h : ∀ n ∈ names, IsName n) (hname : IsName name) :
    ∀ n ∈ names ++ [name], IsName n :=
  List.forall_mem_append.mpr ⟨h, List.forall_mem_singleton.mpr hname⟩

/-! ### Pieces -/

theorem splitOn_ofNames (h : ∀ n ∈ names, IsName n) :
    (ofNames names).splitOn '/' = piecesOf names := by
  cases names with
  | nil => rfl
  | cons n ns => exact List.splitOn_intercalate '/' (fun m hm => (h m hm).no_slash) (by simp)

theorem splitOn_pathOf (h : ∀ n ∈ names, IsName n) :
    (pathOf names).splitOn '/' = [] :: piecesOf names := by
  rw [← splitOn_ofNames h]
  exact List.splitOn_append_cons_self_of_not_mem List.not_mem_nil (ofNames names)

/-- What stands before a slash in the path of names is one of them. -/
theorem isName_of_front (h : ∀ n ∈ names, IsName n) {piece rest : Text} (hpiece : '/' ∉ piece)
    (heq : ofNames names = piece ++ '/' :: rest) : IsName piece := by
  have hsplit := splitOn_ofNames h
  rw [heq, List.splitOn_append_cons_self_of_not_mem hpiece] at hsplit
  cases names with
  | nil => exact absurd (List.cons.inj hsplit).2 (List.splitOn_ne_nil _ _)
  | cons n ns =>
    obtain ⟨rfl, -⟩ := List.cons.inj hsplit
    exact h _ List.mem_cons_self

theorem filter_names (h : ∀ n ∈ names, IsName n) : names.filter (!isNoise ·) = names :=
  List.filter_eq_self.mpr fun n hn => by rw [(h n hn).not_isNoise]; rfl

theorem filter_piecesOf (h : ∀ n ∈ names, IsName n) :
    (piecesOf names).filter (!isNoise ·) = names := by
  cases names with
  | nil => rfl
  | cons n ns => exact filter_names h

theorem dropWhile_names (h : ∀ n ∈ names, IsName n) : names.dropWhile isNoise = names := by
  cases names with
  | nil => rfl
  | cons n ns =>
    have hn := (h n List.mem_cons_self).not_isNoise
    exact List.dropWhile_cons_of_neg (by simp [hn])

theorem trimNoise_names (h : ∀ n ∈ names, IsName n) : trimNoise names = names := by
  have hreverse : ∀ n ∈ names.reverse, IsName n := fun n hn => h n (List.mem_reverse.mp hn)
  rw [trimNoise, dropWhile_names hreverse, List.reverse_reverse]

theorem trimNoise_piecesOf (h : ∀ n ∈ names, IsName n) : trimNoise (piecesOf names) = names := by
  cases names with
  | nil => rfl
  | cons n ns => exact trimNoise_names h

theorem cutUp_pathOf (h : ∀ n ∈ names, IsName n) :
    cutUp (pathOf names) = (some .root, piecesOf names) := by
  have hpieces : piecesOf names ≠ [] := by cases names <;> simp [piecesOf]
  rw [cutUp, splitOn_pathOf h]
  simp [hpieces]

theorem cutUp_ofNames (h : ∀ n ∈ names, IsName n) :
    cutUp (ofNames names) = (none, piecesOf names) := by
  rw [cutUp, splitOn_ofNames h]
  cases names with
  | nil => rfl
  | cons n ns =>
    have hn := h n List.mem_cons_self
    simp [piecesOf, hn.ne_nil, hn.ne_here]

/-! ### Components -/

/-- Whether a path is that of a directory or of something below it. -/
def IsWithin (path dir : Path) : Prop :=
  components dir <+: components path

instance (path dir : Path) : Decidable (path.IsWithin dir) :=
  inferInstanceAs (Decidable (_ <+: _))

theorem map_ofPiece_names (h : ∀ n ∈ names, IsName n) : names.map ofPiece = names.map .name :=
  List.map_congr_left fun n hn => (h n hn).ofPiece

theorem components_pathOf (h : ∀ n ∈ names, IsName n) :
    components (pathOf names) = .root :: names.map .name := by
  rw [components, cutUp_pathOf h]
  dsimp only
  rw [filter_piecesOf h, map_ofPiece_names h]
  rfl

theorem components_ofNames (h : ∀ n ∈ names, IsName n) :
    components (ofNames names) = names.map .name := by
  rw [components, cutUp_ofNames h]
  dsimp only
  rw [filter_piecesOf h, map_ofPiece_names h]
  rfl

theorem ofNames_ne_nil (h : ∀ n ∈ names, IsName n) (hne : names ≠ []) : ofNames names ≠ [] := by
  intro hnil
  have hnone := components_ofNames h
  rw [hnil] at hnone
  exact hne (List.map_eq_nil_iff.mp hnone.symm)

theorem isWithin_pathOf (h : ∀ n ∈ names ++ below, IsName n) {dir : List Text}
    (hdir : ∀ n ∈ names ++ dir, IsName n) :
    (pathOf (names ++ below)).IsWithin (pathOf (names ++ dir)) ↔ dir <+: below := by
  rw [IsWithin, components_pathOf h, components_pathOf hdir, List.map_append, List.map_append,
    List.cons_prefix_cons, and_iff_right rfl, List.prefix_append_right_inj]
  exact List.prefix_map_iff_of_injective fun _ _ => Component.name.inj

/-- Paths of names are the same only if the names are. -/
theorem pathOf_inj (h : ∀ n ∈ names, IsName n) (h' : ∀ n ∈ below, IsName n)
    (heq : components (pathOf names) = components (pathOf below)) : names = below := by
  rw [components_pathOf h, components_pathOf h'] at heq
  exact (List.map_inj_right fun _ _ => Component.name.inj).mp (List.cons.inj heq).2

/-! ### Directories around a path -/

theorem parent?_ofNames (h : ∀ n ∈ names, IsName n) (hname : IsName name) :
    parent? (ofNames (names ++ [name])) = some (ofNames names) := by
  have hall := isName_concat h hname
  rw [parent?, cutUp_ofNames hall]
  dsimp only
  rw [trimNoise_piecesOf hall, List.reverse_append]
  simp [trimNoise_names h, ofPieces, ofNames]

/-- Around a path lies the directory that it is in, and what lies around that. -/
theorem ancestors_ofNames (h : ∀ n ∈ names, IsName n) (hname : IsName name) :
    ancestors (ofNames (names ++ [name])) = ofNames names :: ancestors (ofNames names) := by
  have hall := isName_concat h hname
  rw [ancestors, ancestors, components_ofNames hall, components_ofNames h, List.length_map,
    List.length_map, List.length_append, List.length_singleton, parents, parent?_ofNames h hname]

/-! ### Joining -/

theorem ofNames_append (hne : names ≠ []) (hbelow : below ≠ []) :
    ofNames (names ++ below) = ofNames names ++ '/' :: ofNames below := by
  induction names with
  | nil => exact absurd rfl hne
  | cons n ns ih =>
    cases ns with
    | nil =>
      rw [List.singleton_append, ofNames, ofNames, ofNames, List.intercalate_cons_of_ne_nil hbelow,
        List.intercalate_singleton, List.append_assoc, List.singleton_append]
    | cons m ms =>
      have hrest := ih (List.cons_ne_nil m ms)
      have hcons (more : List Text) :
          ofNames (n :: m :: more) = n ++ ['/'] ++ ofNames (m :: more) :=
        List.intercalate_cons_cons
      rw [List.cons_append, List.cons_append, hcons, hcons, ← List.cons_append, hrest,
        List.append_assoc (n ++ ['/'])]

theorem ofNames_concat (hne : names ≠ []) (name : Text) :
    ofNames (names ++ [name]) = ofNames names ++ '/' :: name := by
  have hname : ofNames [name] = name := List.intercalate_singleton
  rw [ofNames_append hne (List.cons_ne_nil name []), hname]

/-- The path of names is that of the first of them with more after it. -/
theorem pathOf_concat (names : List Text) (name : Text) :
    pathOf (names ++ [name]) =
      if names.isEmpty then pathOf names ++ name else pathOf names ++ '/' :: name := by
  cases names with
  | nil => simp [pathOf, List.intercalate]
  | cons n ns => exact congrArg ('/' :: ·) (ofNames_concat (by simp) name)

theorem pathOf_prefix (names below : List Text) : pathOf names <+: pathOf (names ++ below) := by
  induction below using List.reverseRecOn with
  | nil => simp
  | append_singleton below name ih =>
    rw [← List.append_assoc, pathOf_concat]
    refine ih.trans ?_
    split <;> exact List.prefix_append _ _

theorem getLast?_pathOf (h : ∀ n ∈ names, IsName n) :
    (pathOf names).getLast? = some '/' ↔ names = [] := by
  induction names using List.reverseRecOn with
  | nil => exact iff_of_true rfl rfl
  | append_singleton names name _ =>
    have hname : IsName name := h name (by simp)
    obtain ⟨c, hc⟩ := Option.isSome_iff_exists.mp (List.getLast?_isSome.mpr hname.ne_nil)
    have hslash : c ≠ '/' := fun heq => hname.no_slash (heq ▸ List.mem_of_getLast? hc)
    have hlast (front : Text) : (front ++ name).getLast? = some c := by
      rw [List.getLast?_append, hc]
      rfl
    have hlast : (pathOf (names ++ [name])).getLast? = some c := by
      rw [pathOf_concat]
      split
      · exact hlast _
      · rw [List.append_cons]
        exact hlast _
    simp [hlast, hslash]

theorem join_pathOf (h : ∀ n ∈ names, IsName n) (hname : IsName name) :
    join (pathOf names) name = pathOf (names ++ [name]) := by
  have habsolute : isAbsolute name = false := by
    cases name with
    | nil => exact absurd rfl hname.ne_nil
    | cons c cs =>
      have hc : c ≠ '/' := fun heq => hname.no_slash (heq ▸ List.mem_cons_self)
      simpa [isAbsolute] using hc
  have hlast : ((pathOf names).getLast? == some '/') = names.isEmpty := by
    rw [Bool.eq_iff_iff, beq_iff_eq, getLast?_pathOf h, List.isEmpty_iff]
  have hempty : (pathOf names).isEmpty = false := rfl
  rw [join, habsolute, hlast, hempty, pathOf_concat]
  rfl

end WorkspaceLink.Path
