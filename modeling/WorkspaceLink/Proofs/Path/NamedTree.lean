import WorkspaceLink.Proofs.Path.Places

/-! Trees of directories, files and links in which all names are such as files can have. A walk of one
comes to no directory that lies in a pruned one. -/

namespace WorkspaceLink

open WorkspaceLink.Path (IsName)

namespace FileNode

/-- A tree in which all names can be those of files. -/
inductive IsNamed : FileNode → Prop where
  | file (content : ByteArray) : IsNamed (.file content)
  | link (target : Path) : IsNamed (.link target)
  | dir {entries : List (Text × FileNode)} (names : ∀ e ∈ entries, IsName e.1)
      (named : ∀ e ∈ entries, IsNamed e.2) : IsNamed (.dir entries)

variable {node child : FileNode} {names : List Text} {name : Text}
  {entries : List (Text × FileNode)}

theorem IsNamed.of_cons (h : (FileNode.dir ((name, node) :: entries)).IsNamed) :
    IsName name ∧ node.IsNamed ∧ (FileNode.dir entries).IsNamed := by
  cases h with
  | dir names named =>
    obtain ⟨hname, names⟩ := List.forall_mem_cons.mp names
    obtain ⟨hnode, named⟩ := List.forall_mem_cons.mp named
    exact ⟨hname, hnode, .dir names named⟩

theorem IsNamed.at? (h : node.IsNamed) (hat : node.at? names = some child) : child.IsNamed := by
  induction names generalizing node with
  | nil =>
    obtain rfl := Option.some.inj hat
    exact h
  | cons name names ih =>
    obtain ⟨inner, hinner, hrest⟩ := Option.bind_eq_some_iff.mp hat
    cases h with
    | file content => cases hinner
    | link target => cases hinner
    | dir _ named =>
      obtain ⟨before, after, rfl, _⟩ := List.lookup_eq_some_iff.mp hinner
      exact ih (named _ (List.mem_append_right _ List.mem_cons_self)) hrest

/-- What a path leads to is in the tree. -/
theorem IsNamed.find {t : FileTree} {path : Path} (h : t.top.IsNamed) (hfind : t.find path = .ok node) :
    node.IsNamed := by
  rw [FileTree.find] at hfind
  cases hplace : t.resolve path with
  | error e =>
    rw [hplace] at hfind
    cases hfind
  | ok place =>
    rw [hplace] at hfind
    cases hat : t.top.at? place with
    | none => simp [bind, Except.bind, hat] at hfind
    | some found =>
      simp only [bind, Except.bind, hat] at hfind
      obtain rfl := Except.ok.inj hfind
      exact h.at? hat

end FileNode

namespace FileTree

variable {prune : Path → Bool} {names below : List Text} {name : Text} {path : Path}

/-- Whether neither a directory below one with names nor any on the way to it is pruned. -/
def Spared (prune : Path → Bool) (names below : List Text) : Prop :=
  ∀ dir, dir ≠ [] → dir <+: below → prune (pathOf (names ++ dir)) = false

theorem spared_cons (hfirst : prune (pathOf (names ++ [name])) = false)
    (h : Spared prune (names ++ [name]) below) : Spared prune names (name :: below) := by
  intro dir hdir hbegin
  obtain ⟨n, inner, rfl⟩ := List.exists_cons_of_ne_nil hdir
  obtain ⟨rfl, hinner⟩ := List.cons_prefix_cons.mp hbegin
  -- the directory is the first one, or lies below it
  by_cases hnil : inner = []
  · rw [hnil]
    exact hfirst
  · have hspared := h inner hnil hinner
    rwa [List.append_assoc] at hspared

theorem spared_concat (h : Spared prune names below)
    (hlast : prune (pathOf (names ++ (below ++ [name]))) = false) :
    Spared prune names (below ++ [name]) := by
  intro dir hdir hbegin
  rcases List.prefix_concat_iff.mp hbegin with rfl | hbegin
  · exact hlast
  · exact h dir hdir hbegin

/-- Whether a path is that of a directory below one with names, and neither it nor any directory on
the way to it is pruned. -/
def SparedBelow (prune : Path → Bool) (names : List Text) (path : Path) : Prop :=
  ∃ below, (∀ n ∈ below, IsName n) ∧ path = pathOf (names ++ below) ∧ Spared prune names below

theorem sparedBelow_of_mem_walkEntries {names : List Text} (hnames : ∀ n ∈ names, IsName n)
    {entries : List (Text × FileNode)} (h : (FileNode.dir entries).IsNamed)
    (hpath : (path, .dir) ∈ walkEntries prune (pathOf names) entries) :
    SparedBelow prune names path := by
  -- the walk goes on below the first entry and with the other entries
  match entries, h with
  | [], _ => cases hpath
  | (name, .dir inner) :: entries, h =>
    obtain ⟨hname, hinner, hrest⟩ := h.of_cons
    have hall := Path.isName_concat hnames hname
    rw [walkEntries, Path.join_pathOf hnames hname, List.mem_append] at hpath
    rcases hpath with hpath | hpath
    · split at hpath
      · cases hpath
      · next hfirst =>
        have hfirst := Bool.eq_false_iff.mpr hfirst
        rcases List.mem_cons.mp hpath with heq | hpath
        · refine ⟨[name], List.forall_mem_singleton.mpr hname, congrArg Prod.fst heq, ?_⟩
          refine spared_cons hfirst fun dir hdir hbegin => ?_
          exact absurd (List.prefix_nil.mp hbegin) hdir
        · obtain ⟨below, hbelow, heq, hspared⟩ :=
            sparedBelow_of_mem_walkEntries hall hinner hpath
          rw [← List.append_cons] at heq
          exact ⟨name :: below, List.forall_mem_cons.mpr ⟨hname, hbelow⟩, heq,
            spared_cons hfirst hspared⟩
    · exact sparedBelow_of_mem_walkEntries hnames hrest hpath
  | (name, .file _) :: entries, h | (name, .link _) :: entries, h =>
    rw [walkEntries.eq_3 prune _ name _ _ (by simp), List.mem_append] at hpath
    rcases hpath with hpath | hpath
    · simp [walkNode] at hpath
    · exact sparedBelow_of_mem_walkEntries hnames h.of_cons.2.2 hpath
termination_by sizeOf entries

/-- The directories that a walk comes to are its start and directories below it that lie in no pruned
one. -/
theorem sparedBelow_of_mem_walk? {t : FileTree} {entries : List (Path × EntryKind)}
    (hnames : ∀ n ∈ names, IsName n) (h : t.top.IsNamed)
    (hwalk : t.walk? prune (pathOf names) = some entries) (hpath : (path, .dir) ∈ entries) :
    SparedBelow prune names path := by
  rw [walk?] at hwalk
  cases hfind : t.find (pathOf names) with
  | error e =>
    rw [hfind] at hwalk
    cases hwalk
  | ok node =>
    rw [hfind] at hwalk
    cases node with
    | file content =>
      obtain rfl := Option.some.inj hwalk
      simp [walkNode] at hpath
    | link target =>
      obtain rfl := Option.some.inj hwalk
      simp [walkNode] at hpath
    | dir inner =>
      obtain rfl := Option.some.inj hwalk
      rcases List.mem_cons.mp hpath with heq | hpath
      · refine ⟨[], List.forall_mem_nil _, ?_, fun dir hdir hbegin => ?_⟩
        · rw [List.append_nil]
          exact congrArg Prod.fst heq
        · exact absurd (List.prefix_nil.mp hbegin) hdir
      · exact sparedBelow_of_mem_walkEntries hnames (h.find hfind) hpath

end FileTree

end WorkspaceLink
