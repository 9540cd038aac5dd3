import WorkspaceLink.Proofs.Exclusion.Names

/-! Workspaces at different places. A policy looks at what lies between its root and a path, and never
at the root's own name or at those above it. -/

namespace WorkspaceLink.ExclusionPolicy

open WorkspaceLink.Path (IsName ofNames)

variable {p q : ExclusionPolicy} {t₁ t₂ : FileTree} {root r₁ r₂ : Path} {names : List Text}
  {name : Text}

/-- Policies with the same rules for workspaces at whatever places. -/
structure SameRules (p q : ExclusionPolicy) : Prop where
  dirs : p.dirs = q.dirs
  extensions : p.extensions = q.extensions
  ignore : p.ignore = q.ignore

/-- Whether two policies say the same about what lies below their roots, be it a directory or a file.
What lies there is told by the names that lead to it. -/
def AgreesBelow (p q : ExclusionPolicy) : Prop :=
  ∀ names, names ≠ [] → (∀ n ∈ names, IsName n) →
    p.excludesDir (Path.join p.root (ofNames names)) =
        q.excludesDir (Path.join q.root (ofNames names)) ∧
      p.excludesPath (Path.join p.root (ofNames names)) =
        q.excludesPath (Path.join q.root (ofNames names))

theorem extension?_join (hroot : Path.isAbsolute root = true) (h : ∀ n ∈ names, IsName n)
    (hname : IsName name) :
    Path.extension? (Path.join root (ofNames (names ++ [name]))) = Path.extension? name := by
  have hsingle : Path.fileName? name = some name := by
    have hcomponents : Path.components (ofNames [name]) = [.name name] :=
      Path.components_ofNames (List.forall_mem_singleton.mpr hname)
    have hnames : ofNames [name] = name := List.intercalate_singleton
    rw [Path.fileName?, ← hnames, hcomponents, hnames]
    rfl
  rw [Path.extension?, Path.extension?, Path.fileName?_join hroot h hname, hsingle]

/-- What excludes a path below the root: the rules for the names below it, its last name, or the name
of a directory between the root and it. -/
theorem excludesPath_join (hroot : Path.isAbsolute p.root = true) (h : ∀ n ∈ names, IsName n)
    (hname : IsName name) :
    p.excludesPath (Path.join p.root (ofNames (names ++ [name]))) =
      (p.isIgnored (Path.join p.root (ofNames (names ++ [name]))) false ||
        (isHidden name || name.getLast? == some '~' ||
          (Path.extension? name).any (fun e => p.extensions.contains (lower e)) ||
          names.any p.excludesDirName)) := by
  rw [excludesPath, Path.fileName?_join hroot h hname]
  dsimp only
  rw [extension?_join hroot h hname, hasExcludedAncestor_join hroot h hname]

theorem SameRules.isIgnored_eq (h : SameRules p q) (hp : Path.isAbsolute p.root = true)
    (hq : Path.isAbsolute q.root = true) (hnames : ∀ n ∈ names, IsName n) (hne : names ≠ [])
    (isDir : Bool) :
    p.isIgnored (Path.join p.root (ofNames names)) isDir =
      q.isIgnored (Path.join q.root (ofNames names)) isDir := by
  rw [Bool.eq_iff_iff, isIgnored_join hp hnames hne, isIgnored_join hq hnames hne, h.ignore]

theorem SameRules.excludesDirName_eq (h : SameRules p q) :
    p.excludesDirName = q.excludesDirName := by
  funext name
  rw [excludesDirName, excludesDirName, h.dirs]

theorem SameRules.agreesBelow (h : SameRules p q) (hp : Path.isAbsolute p.root = true)
    (hq : Path.isAbsolute q.root = true) : AgreesBelow p q := by
  intro names hne hnames
  have hignored := h.isIgnored_eq hp hq hnames hne
  -- the last name has rules of its own, and the others are asked about as directories
  obtain ⟨outer, name, rfl⟩ : ∃ outer name, names = outer ++ [name] :=
    ⟨_, _, (List.dropLast_append_getLast hne).symm⟩
  obtain ⟨houter, hname⟩ := List.forall_mem_append.mp hnames
  have hname := List.forall_mem_singleton.mp hname
  constructor
  · rw [excludesDir_join hp houter hname, excludesDir_join hq houter hname, hignored,
      h.excludesDirName_eq]
  · rw [excludesPath_join hp houter hname, excludesPath_join hq houter hname, hignored,
      h.excludesDirName_eq, h.extensions]

/-- The rules come from the settings and from the text of the ignore file. -/
theorem ofSettings_sameRules (s : ExclusionSettings)
    (hignore : (t₁.readText (Path.join r₁ s.ignoreFile)).toOption =
      (t₂.readText (Path.join r₂ s.ignoreFile)).toOption) :
    SameRules (ofSettings t₁ r₁ s) (ofSettings t₂ r₂ s) where
  dirs := rfl
  extensions := rfl
  ignore := by
    have hload (t : FileTree) (r : Path) : (ofSettings t r s).ignore =
        if s.ignoreFile.isEmpty then none
        else (t.readText (Path.join r s.ignoreFile)).toOption.bind IgnoreRules.ofContent? := rfl
    rw [hload, hload, hignore]

/-- Workspaces with the same settings and the same ignore file exclude the same below their roots,
wherever the roots are. -/
theorem ofSettings_agreesBelow (s : ExclusionSettings) (h₁ : Path.isAbsolute r₁ = true)
    (h₂ : Path.isAbsolute r₂ = true)
    (hignore : (t₁.readText (Path.join r₁ s.ignoreFile)).toOption =
      (t₂.readText (Path.join r₂ s.ignoreFile)).toOption) :
    AgreesBelow (ofSettings t₁ r₁ s) (ofSettings t₂ r₂ s) :=
  (ofSettings_sameRules s hignore).agreesBelow h₁ h₂

/-- A file system with an ignore file in one of its topmost directories. -/
def ignoreFileIn (dir ignore : Text) : FileTree :=
  ⟨.dir [(dir, .dir [(".gitignore", .file ⟨(Text.utf8 ignore).toArray⟩)])]⟩

/-- A hidden root and a root with an excluded name exclude the same below them. -/
theorem hiddenRoot_agreesBelow :
    Path.isAbsolute "/.hidden" = true ∧ Path.isAbsolute "/node_modules/" = true ∧
      ((ignoreFileIn ".hidden" "generated/\n").readText
          (Path.join "/.hidden" ExclusionSettings.default.ignoreFile)).toOption =
        ((ignoreFileIn "node_modules" "generated/\n").readText
          (Path.join "/node_modules/" ExclusionSettings.default.ignoreFile)).toOption ∧
      AgreesBelow (ofSettings (ignoreFileIn ".hidden" "generated/\n") "/.hidden" .default)
        (ofSettings (ignoreFileIn "node_modules" "generated/\n") "/node_modules/" .default) := by
  have hignore : ((ignoreFileIn ".hidden" "generated/\n").readText
      (Path.join "/.hidden" ExclusionSettings.default.ignoreFile)).toOption =
      ((ignoreFileIn "node_modules" "generated/\n").readText
        (Path.join "/node_modules/" ExclusionSettings.default.ignoreFile)).toOption := by
    decide +kernel
  exact ⟨rfl, rfl, hignore, ofSettings_agreesBelow .default rfl rfl hignore⟩

end WorkspaceLink.ExclusionPolicy
