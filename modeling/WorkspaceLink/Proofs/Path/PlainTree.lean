import WorkspaceLink.Proofs.Path.Places

/-! Trees of directories and regular files. A walk of one meets every file except those below
directories that are pruned. -/

namespace WorkspaceLink

open WorkspaceLink.Path (IsName)

/-! ### Names in a tree -/

namespace FileNode

/-- A tree of directories and regular files, in which names are told apart. -/
inductive IsPlain : FileNode → Prop where
  | file (content : ByteArray) : IsPlain (.file content)
  | dir {entries : List (Text × FileNode)} (distinct : (entries.map (·.1)).Nodup)
      (names : ∀ e ∈ entries, IsName e.1) (plain : ∀ e ∈ entries, IsPlain e.2) :
      IsPlain (.dir entries)

variable {node child : FileNode} {names below : List Text} {name : Text} {content : ByteArray}
  {entries : List (Text × FileNode)}

theorem mem_of_lookup (h : entries.lookup name = some node) : (name, node) ∈ entries := by
  obtain ⟨before, after, rfl, _⟩ := List.lookup_eq_some_iff.mp h
  exact List.mem_append_right _ List.mem_cons_self

theorem IsPlain.at? (h : node.IsPlain) (hat : node.at? names = some child) :
    child.IsPlain ∧ ∀ n ∈ names, IsName n := by
  induction names generalizing node with
  | nil =>
    obtain rfl := Option.some.inj hat
    exact ⟨h, nofun⟩
  | cons name names ih =>
    obtain ⟨inner, hinner, hrest⟩ := Option.bind_eq_some_iff.mp hat
    cases h with
    | file content => cases hinner
    | dir distinct hnames plain =>
      have hmem := mem_of_lookup hinner
      obtain ⟨hplain, hvalid⟩ := ih (plain _ hmem) hrest
      exact ⟨hplain, List.forall_mem_cons.mpr ⟨hnames _ hmem, hvalid⟩⟩

theorem IsPlain.not_link (h : node.IsPlain) (target : Path) : node ≠ .link target := by
  rintro rfl
  cases h

/-- What is asked of a directory's entries is asked of the first and of the others. -/
theorem IsPlain.of_cons (h : (FileNode.dir ((name, node) :: entries)).IsPlain) :
    name ∉ entries.map (·.1) ∧ IsName name ∧ node.IsPlain ∧ (FileNode.dir entries).IsPlain := by
  cases h with
  | dir distinct names plain =>
    obtain ⟨hname, distinct⟩ := List.nodup_cons.mp distinct
    obtain ⟨hvalid, names⟩ := List.forall_mem_cons.mp names
    obtain ⟨hplain, plain⟩ := List.forall_mem_cons.mp plain
    exact ⟨hname, hvalid, hplain, .dir distinct names plain⟩

/-- The files below a directory are those below its first entry and those below the others. -/
theorem at?_cons_eq_file (hname : name ∉ entries.map (·.1)) :
    (dir ((name, node) :: entries)).at? below = some (.file content) ↔
      (∃ inner, below = name :: inner ∧ node.at? inner = some (.file content)) ∨
        (dir entries).at? below = some (.file content) := by
  cases below with
  | nil => simp [at?]
  | cons first inner =>
    by_cases hfirst : first = name
    · -- no other entry has the name
      subst hfirst
      have hnone : entries.lookup first = none := by
        rw [List.lookup_eq_none_iff]
        intro e he
        exact bne_iff_ne.mpr fun heq => hname (List.mem_map.mpr ⟨e, he, heq.symm⟩)
      simp [at?, entry?, hnone]
    · have hlookup : ((name, node) :: entries).lookup first = entries.lookup first := by
        rw [List.lookup_cons, beq_false_of_ne hfirst]
      simp [at?, entry?, hlookup, hfirst]

end FileNode

namespace FileTree

variable {node : FileNode} {names below : List Text} {name : Text}

/-! ### Walks -/

/-- Whether no directory on the way from one with names to something below it is pruned. -/
def Clear (prune : Path → Bool) (names below : List Text) : Prop :=
  ∀ dir, dir ≠ [] → dir <+: below → dir ≠ below → prune (pathOf (names ++ dir)) = false

variable {prune : Path → Bool}

theorem clear_singleton (prune : Path → Bool) (names : List Text) (name : Text) :
    Clear prune names [name] := by
  intro dir hne hbegin hproper
  obtain ⟨n, dir, rfl⟩ := List.exists_cons_of_ne_nil hne
  obtain ⟨rfl, hnil⟩ := List.cons_prefix_cons.mp hbegin
  exact absurd (congrArg (n :: ·) (List.prefix_nil.mp hnil)) hproper

/-- A way goes on below a directory that it begins with. -/
theorem clear_cons (hne : below ≠ []) : Clear prune names (name :: below) ↔
    prune (pathOf (names ++ [name])) = false ∧ Clear prune (names ++ [name]) below := by
  constructor
  · intro h
    refine ⟨h [name] (by simp) (by simp) (by simpa using hne.symm), ?_⟩
    intro dir hdir hbegin hproper
    rw [List.append_assoc]
    exact h (name :: dir) (by simp) (by simpa using hbegin) (by simpa using hproper)
  · rintro ⟨hfirst, h⟩ dir hdir hbegin hproper
    obtain ⟨n, dir, rfl⟩ := List.exists_cons_of_ne_nil hdir
    obtain ⟨rfl, hinner⟩ := List.cons_prefix_cons.mp hbegin
    -- the directory is the first one, or lies below it
    by_cases hnil : dir = []
    · rw [hnil]
      exact hfirst
    · have hclear := h dir hnil hinner fun heq => hproper (heq ▸ rfl)
      rwa [List.append_assoc] at hclear

/-- Whether a path is that of a file below a node with names, and no directory on the way from the
node to it is pruned. -/
def Reached (prune : Path → Bool) (names : List Text) (node : FileNode) (path : Path) : Prop :=
  ∃ below content, node.at? below = some (.file content) ∧ path = pathOf (names ++ below) ∧
    Clear prune names below

/-- The same by way of an entry that has a name in the directory with the names. -/
def ReachedThrough (prune : Path → Bool) (names : List Text) (name : Text) (node : FileNode)
    (path : Path) : Prop :=
  ∃ below content, node.at? below = some (.file content) ∧
    path = pathOf (names ++ name :: below) ∧ Clear prune names (name :: below)

variable {entries inner : List (Text × FileNode)} {path : Path}

theorem not_reached_nil : ¬Reached prune names (.dir []) path := by
  rintro ⟨below, content, hat, -⟩
  cases below <;> cases hat

/-- The files below a directory are its first entry or below it, or they are below the others. -/
theorem reached_cons (hname : name ∉ entries.map (·.1)) :
    Reached prune names (.dir ((name, node) :: entries)) path ↔
      ReachedThrough prune names name node path ∨ Reached prune names (.dir entries) path := by
  constructor
  · rintro ⟨below, content, hat, hpath, hclear⟩
    obtain ⟨rest, rfl, hrest⟩ | hat := (FileNode.at?_cons_eq_file hname).mp hat
    · exact .inl ⟨rest, content, hrest, hpath, hclear⟩
    · exact .inr ⟨below, content, hat, hpath, hclear⟩
  · rintro (⟨below, content, hat, hpath, hclear⟩ | ⟨below, content, hat, hpath, hclear⟩)
    · refine ⟨name :: below, content, ?_, hpath, hclear⟩
      exact (FileNode.at?_cons_eq_file hname).mpr (.inl ⟨below, rfl, hat⟩)
    · refine ⟨below, content, ?_, hpath, hclear⟩
      exact (FileNode.at?_cons_eq_file hname).mpr (.inr hat)

theorem reachedThrough_file {content : ByteArray} :
    ReachedThrough prune names name (.file content) path ↔ path = pathOf (names ++ [name]) := by
  constructor
  · rintro ⟨below, content', hat, hpath, -⟩
    obtain ⟨rfl, -⟩ := FileNode.at?_file.mp hat
    exact hpath
  · rintro rfl
    exact ⟨[], content, rfl, rfl, clear_singleton prune names name⟩

theorem reachedThrough_dir : ReachedThrough prune names name (.dir inner) path ↔
    prune (pathOf (names ++ [name])) = false ∧
      Reached prune (names ++ [name]) (.dir inner) path := by
  have hne {below : List Text} {content : ByteArray}
      (hat : (FileNode.dir inner).at? below = some (.file content)) : below ≠ [] := by
    rintro rfl
    cases hat
  constructor
  · rintro ⟨below, content, hat, hpath, hclear⟩
    obtain ⟨hfirst, hclear⟩ := (clear_cons (hne hat)).mp hclear
    rw [List.append_cons] at hpath
    exact ⟨hfirst, below, content, hat, hpath, hclear⟩
  · rintro ⟨hfirst, below, content, hat, hpath, hclear⟩
    rw [← List.append_cons] at hpath
    exact ⟨below, content, hat, hpath, (clear_cons (hne hat)).mpr ⟨hfirst, hclear⟩⟩

/-- A walk of a directory meets the files below it, unless they lie in a directory that is
pruned. -/
theorem mem_walkEntries_iff {names : List Text} (hnames : ∀ n ∈ names, IsName n)
    {entries : List (Text × FileNode)} (h : (FileNode.dir entries).IsPlain) :
    (path, .file) ∈ walkEntries prune (pathOf names) entries ↔
      Reached prune names (.dir entries) path := by
  -- the walk goes on below the first entry and with the other entries
  match entries, h with
  | [], _ => exact iff_of_false List.not_mem_nil not_reached_nil
  | (name, .dir inner) :: entries, h =>
    obtain ⟨hname, hvalid, hplain, hrest⟩ := h.of_cons
    have hall := Path.isName_concat hnames hvalid
    rw [walkEntries, Path.join_pathOf hnames hvalid, List.mem_append, reached_cons hname,
      reachedThrough_dir, mem_walkEntries_iff hnames hrest, ← mem_walkEntries_iff hall hplain]
    cases prune (pathOf (names ++ [name])) <;> simp
  | (name, .file content) :: entries, h =>
    obtain ⟨hname, hvalid, -, hrest⟩ := h.of_cons
    rw [walkEntries.eq_3 prune _ name _ _ (by simp), Path.join_pathOf hnames hvalid,
      List.mem_append, reached_cons hname, reachedThrough_file, mem_walkEntries_iff hnames hrest]
    simp [walkNode]
  | (name, .link target) :: entries, h =>
    obtain ⟨-, -, hplain, -⟩ := h.of_cons
    exact absurd rfl (hplain.not_link target)
termination_by sizeOf entries

/-- A walk meets the files below its start, if the start is followed, unless they lie in a directory
that is pruned. -/
theorem mem_walk?_iff {t : FileTree} (hnames : ∀ n ∈ names, IsName n)
    (hat : t.top.at? names = some (.dir entries)) (h : (FileNode.dir entries).IsPlain) :
    (path, .file) ∈ (t.walk? prune (pathOf names)).getD [] ↔
      admits names = true ∧ Reached prune names (.dir entries) path := by
  have hfind := find_pathOf hnames hat (by simp)
  rw [walk?]
  cases hstart : t.find (pathOf names) with
  | error e =>
    rw [hstart] at hfind
    cases hadmits : admits names with
    | true =>
      rw [hadmits] at hfind
      cases hfind
    | false => simp
  | ok node =>
    rw [hstart] at hfind
    cases hadmits : admits names with
    | false =>
      rw [hadmits] at hfind
      cases hfind
    | true =>
      rw [hadmits] at hfind
      obtain rfl := Option.some.inj hfind
      rw [← mem_walkEntries_iff hnames h]
      cases t.isLink (pathOf names) <;> simp

end FileTree

end WorkspaceLink
