import WorkspaceLink.Proofs.Exclusion.Names
import WorkspaceLink.Proofs.Path.PlainTree
import WorkspaceLink.Watch.OpenWalk

/-! Two ways to tell which files are shown to the client. The walk leaves out ignored directories
with all that they hold; a file by itself may be taken back in by a rule below such a directory. -/

namespace WorkspaceLink

open FileTree (pathOf Clear Reached)
open WorkspaceLink.Path (IsName ofNames)

/-- A watcher whose root, a path of names, is a directory, with only directories and regular files
below it. -/
structure PlainWorkspace (w : Watcher) (t : FileTree) (names : List Text) : Prop where
  root : w.root = pathOf names
  policy : w.policy.root = w.root
  valid : ∀ n ∈ names, IsName n
  plain : ∃ entries, t.top.at? names = some (.dir entries) ∧ (FileNode.dir entries).IsPlain

/-- The walk and the handlers of single files agree on every file below the root. -/
def WalkAgrees (w : Watcher) (s : WatchState) (names : List Text) : Prop :=
  ∀ below content, s.files.top.at? (names ++ below) = some (.file content) →
    (pathOf (names ++ below) ∈ s.candidates w ↔
      w.policy.excludesFile s.files (pathOf (names ++ below)) = false)

/-- Whether a path lies in an ignored directory below the root, and the rules take back in what is
on the way from there, be it the path itself. -/
def ExclusionPolicy.TakesBackIn (policy : ExclusionPolicy) (names below : List Text) : Prop :=
  ∃ rules dir kept, policy.ignore = some rules ∧ dir ≠ [] ∧ kept ≠ [] ∧ dir ++ kept <+: below ∧
    policy.isIgnored (pathOf (names ++ dir)) true = true ∧
    rules.verdict? (ofNames (dir ++ kept)) (dir ++ kept != below) = some false

/-- Only rules that take paths back in do so. -/
theorem ExclusionPolicy.not_takesBackIn {policy : ExclusionPolicy}
    (h : ∀ rules ∈ policy.ignore, ∀ rule ∈ rules, rule.keeps = false) (names below : List Text) :
    ¬policy.TakesBackIn names below := by
  rintro ⟨rules, dir, kept, hrules, -, -, -, -, hverdict⟩
  obtain ⟨rule, hrule, hkept⟩ := IgnoreRules.exists_keeps hverdict
  rw [h rules hrules rule hrule] at hkept
  cases hkept

namespace PlainWorkspace

variable {w : Watcher} {s : WatchState} {t : FileTree} {names below dir : List Text} {path : Path}
  {content : ByteArray}

/-- The root of a watcher is a path of names. It is left to see that nothing but directories and
regular files is below it. -/
theorem ofRoot {root : Path} {settings : Settings} (h : Watcher.ofRoot t root settings = .ok w)
    (hplain : ∀ names node, w.root = pathOf names → t.top.at? names = some node →
      node.IsPlain ∧ ∃ entries, node = .dir entries) : ∃ names, PlainWorkspace w t names := by
  rw [Watcher.ofRoot, FileTree.canonical] at h
  cases hplace : t.resolve root with
  | error e =>
    rw [hplace] at h
    cases h
  | ok names =>
    rw [hplace] at h
    obtain rfl := Except.ok.inj h
    have hnames := FileTree.resolve_isPlace hplace
    obtain ⟨node, hnode⟩ := Option.isSome_iff_exists.mp hnames.found
    obtain ⟨hnode', entries, rfl⟩ := hplain names node rfl hnode
    exact ⟨names, rfl, rfl, hnames.valid, entries, hnode, hnode'⟩

theorem policy_root (h : PlainWorkspace w t names) : w.policy.root = pathOf names :=
  h.policy.trans h.root

theorem valid_below (h : PlainWorkspace w t names)
    (hat : t.top.at? (names ++ below) = some (.file content)) : ∀ n ∈ below, IsName n := by
  obtain ⟨entries, hroot, hplain⟩ := h.plain
  rw [FileNode.at?_append, hroot] at hat
  exact (hplain.at? hat).2

/-- If a file is not excluded, a directory around it is excluded only as an ignored one. -/
theorem excludesDir_eq (h : PlainWorkspace w t names) (hbelow : ∀ n ∈ below, IsName n)
    (hvisible : w.policy.excludesFile t (pathOf (names ++ below)) = false) (hdir : dir ≠ [])
    (hbegin : dir <+: below) (hproper : dir ≠ below) :
    w.policy.excludesDir (pathOf (names ++ dir)) =
      w.policy.isIgnored (pathOf (names ++ dir)) true := by
  have hne : below ≠ [] := fun hnil => hdir (List.prefix_nil.mp (hnil ▸ hbegin))
  obtain ⟨outer, name, rfl⟩ : ∃ outer name, dir = outer ++ [name] :=
    ⟨_, _, (List.dropLast_append_getLast hdir).symm⟩
  obtain ⟨inner, file, rfl⟩ : ∃ inner file, below = inner ++ [file] :=
    ⟨_, _, (List.dropLast_append_getLast hne).symm⟩
  obtain ⟨hinner, hfile⟩ := List.forall_mem_append.mp hbelow
  -- the name of the directory is one of those around the file, none of which is excluded
  have hbegin : outer ++ [name] <+: inner := (List.prefix_concat_iff.mp hbegin).resolve_left hproper
  have hnone := (ExclusionPolicy.of_not_excludesFile hvisible).2.2
  rw [ExclusionPolicy.hasExcludedAncestor_pathOf h.policy_root h.valid hinner
    (List.forall_mem_singleton.mp hfile), List.any_eq_false] at hnone
  have houter : ∀ n ∈ outer ++ [name], IsName n := fun n hn => hinner n (hbegin.subset hn)
  obtain ⟨houter, hname⟩ := List.forall_mem_append.mp houter
  rw [ExclusionPolicy.excludesDir_pathOf h.policy_root h.valid houter
    (List.forall_mem_singleton.mp hname)]
  have hvisible := hnone name (hbegin.subset (by simp))
  rw [Bool.eq_false_iff.mpr hvisible, Bool.or_false]

/-- A file that is not excluded is followed, and so is the root above it. -/
theorem admits_root (h : PlainWorkspace w t names)
    (hat : t.top.at? (names ++ below) = some (.file content))
    (hvisible : w.policy.excludesFile t (pathOf (names ++ below)) = false) :
    FileTree.admits names = true := by
  have hvalid : ∀ n ∈ names ++ below, IsName n :=
    List.forall_mem_append.mpr ⟨h.valid, h.valid_below hat⟩
  have hsize := (ExclusionPolicy.of_not_excludesFile hvisible).1
  rw [FileTree.size?_isSome, FileTree.find_pathOf hvalid hat (by simp)] at hsize
  cases hadmits : FileTree.admits (names ++ below) with
  | true => exact FileTree.admits_of_append hadmits
  | false => simp [hadmits] at hsize

/-- The walk comes to the files below the root that are not excluded by themselves and lie in no
directory that is excluded. -/
theorem mem_candidates_iff (h : PlainWorkspace w s.files names)
    (hat : s.files.top.at? (names ++ below) = some (.file content)) :
    pathOf (names ++ below) ∈ s.candidates w ↔
      w.policy.excludesFile s.files (pathOf (names ++ below)) = false ∧
        Clear w.policy.excludesDir names below := by
  obtain ⟨entries, hroot, hplain⟩ := h.plain
  have hwalk : pathOf (names ++ below) ∈ s.candidates w ↔
      (pathOf (names ++ below), .file) ∈ (s.files.walk? w.policy.excludesDir w.root).getD [] ∧
        w.policy.excludesFile s.files (pathOf (names ++ below)) = false := by
    simp [WatchState.candidates]
  have hat' := hat
  rw [FileNode.at?_append, hroot] at hat'
  rw [hwalk, h.root, FileTree.mem_walk?_iff h.valid hroot hplain]
  constructor
  · -- the path determines the names by which the walk has come to it
    rintro ⟨⟨-, other, _, hother, hpath, hclear⟩, hvisible⟩
    have hsame := Path.pathOf_inj (List.forall_mem_append.mpr ⟨h.valid, (hplain.at? hat').2⟩)
      (List.forall_mem_append.mpr ⟨h.valid, (hplain.at? hother).2⟩) (congrArg Path.components hpath)
    obtain rfl := List.append_cancel_left hsame
    exact ⟨hvisible, hclear⟩
  · rintro ⟨hvisible, hclear⟩
    exact ⟨⟨h.admits_root hat hvisible, below, content, hat', rfl, hclear⟩, hvisible⟩

/-- The walk comes to a file that is not excluded, unless the file has been taken back in. -/
theorem clear_iff (h : PlainWorkspace w t names)
    (hat : t.top.at? (names ++ below) = some (.file content))
    (hvisible : w.policy.excludesFile t (pathOf (names ++ below)) = false) :
    Clear w.policy.excludesDir names below ↔ ¬w.policy.TakesBackIn names below := by
  have hbelow := h.valid_below hat
  constructor
  · rintro hclear ⟨rules, dir, kept, -, hdir, hkept, hbegin, hignored, -⟩
    have hproper : dir ≠ below := by
      rintro rfl
      have hlength := hbegin.length_le
      rw [List.length_append] at hlength
      exact hkept (List.length_eq_zero_iff.mp (by omega))
    have hbegin : dir <+: below := (List.prefix_append _ _).trans hbegin
    have hpruned := hclear dir hdir hbegin hproper
    rw [h.excludesDir_eq hbelow hvisible hdir hbegin hproper, hignored] at hpruned
    cases hpruned
  · intro hnone dir hdir hbegin hproper
    rw [h.excludesDir_eq hbelow hvisible hdir hbegin hproper, ← Bool.not_eq_true]
    intro hignored
    obtain ⟨rest, rfl⟩ := hbegin
    obtain ⟨hvalid, -⟩ := List.forall_mem_append.mp hbelow
    obtain ⟨rules, hrules, hdecision⟩ :=
      (ExclusionPolicy.isIgnored_pathOf h.policy_root h.valid hvalid hdir).mp hignored
    have hopen : rules.decision? (ofNames (dir ++ rest)) false ≠ some true := by
      intro hdecision
      have hfile := (ExclusionPolicy.of_not_excludesFile hvisible).2.1
      rw [(ExclusionPolicy.isIgnored_pathOf h.policy_root h.valid hbelow (by simp [hdir])).mpr
        ⟨rules, hrules, hdecision⟩] at hfile
      cases hfile
    have hrest : rest ≠ [] := by
      rintro rfl
      exact hproper (List.append_nil dir).symm
    -- a rule stands between the ignored directory and the file
    obtain ⟨kept, hkept, hbegin, hverdict⟩ := IgnoreRules.exists_kept hbelow hdecision hopen hrest
    have hsame : (dir ++ kept != dir ++ rest) = (kept != rest) := by
      rw [Bool.eq_iff_iff]
      simp
    rw [Bool.false_or, ← hsame] at hverdict
    exact hnone ⟨rules, dir, kept, hrules, hdir, hkept,
      (List.prefix_append_right_inj dir).mpr hbegin, hignored, hverdict⟩

end PlainWorkspace

variable {w : Watcher} {s : WatchState} {names : List Text}

/-- The walk and the handlers agree exactly if no file that is not excluded has been taken back in
below an ignored directory. -/
theorem walkAgrees_iff (h : PlainWorkspace w s.files names) :
    WalkAgrees w s names ↔ ∀ below content,
      s.files.top.at? (names ++ below) = some (.file content) →
      w.policy.excludesFile s.files (pathOf (names ++ below)) = false →
      ¬w.policy.TakesBackIn names below := by
  constructor
  · intro hagrees below content hat hvisible
    have hmem := (hagrees below content hat).mpr hvisible
    exact (h.clear_iff hat hvisible).mp ((h.mem_candidates_iff hat).mp hmem).2
  · intro hnone below content hat
    rw [h.mem_candidates_iff hat, and_iff_left_iff_imp]
    intro hvisible
    exact (h.clear_iff hat hvisible).mpr (hnone below content hat hvisible)

/-- A workspace with an ignore file and a file in a directory of its own. -/
def generatedFile (ignore : Text) : FileTree :=
  ⟨.dir [("ws", .dir [(".gitignore", .file ⟨(Text.utf8 ignore).toArray⟩),
    ("generated", .dir [("keep.go", .file .empty)])])]⟩

/-- The watcher of the workspace with an ignore file. -/
def generatedWatcher (ignore : Text) : Watcher :=
  ⟨"/ws", .ofSettings (generatedFile ignore) "/ws" .default, .default⟩

theorem plain_generated (ignore : Text) :
    PlainWorkspace (generatedWatcher ignore) (generatedFile ignore) ["ws"] where
  root := rfl
  policy := rfl
  valid := List.forall_mem_singleton.mpr (by decide)
  plain := by
    have hkept : (FileNode.dir [("keep.go", .file .empty)]).IsPlain :=
      .dir (by simp) (List.forall_mem_singleton.mpr (by decide))
        (List.forall_mem_singleton.mpr (.file _))
    have hdistinct : ([".gitignore", "generated"] : List Text).Nodup := by decide
    have hvalid : IsName ".gitignore" := by decide
    have hvalid' : IsName "generated" := by decide
    refine ⟨_, rfl, .dir hdistinct ?_ ?_⟩
    · exact List.forall_mem_cons.mpr ⟨hvalid, List.forall_mem_singleton.mpr hvalid'⟩
    · exact List.forall_mem_cons.mpr ⟨.file _, List.forall_mem_singleton.mpr hkept⟩

/-- A rule for the directory alone hides the file from both. -/
theorem ignoredDirectory_agrees :
    PlainWorkspace (generatedWatcher "generated/\n") (generatedFile "generated/\n") ["ws"] ∧
      WalkAgrees (generatedWatcher "generated/\n") { files := generatedFile "generated/\n" }
        ["ws"] := by
  have hplain := plain_generated "generated/\n"
  have hkeeps : ∀ rules ∈ (generatedWatcher "generated/\n").policy.ignore,
      ∀ rule ∈ rules, rule.keeps = false := by
    decide +kernel
  exact ⟨hplain, (walkAgrees_iff hplain).mpr fun below _ _ _ =>
    ExclusionPolicy.not_takesBackIn hkeeps ["ws"] below⟩

/-- A file that a rule takes back in below an ignored directory is left out by the walk only. -/
theorem keptFile_disagrees :
    ¬WalkAgrees (generatedWatcher "generated/\n!generated/keep.go\n")
      { files := generatedFile "generated/\n!generated/keep.go\n" } ["ws"] := by
  intro hagrees
  have hvisible : (generatedWatcher "generated/\n!generated/keep.go\n").policy.excludesFile
      (generatedFile "generated/\n!generated/keep.go\n") "/ws/generated/keep.go" = false := by
    decide +kernel
  have hmem := (hagrees ["generated", "keep.go"] .empty rfl).mpr hvisible
  have hnone : WatchState.candidates (generatedWatcher "generated/\n!generated/keep.go\n")
      { files := generatedFile "generated/\n!generated/keep.go\n" } = [] := by
    decide +kernel
  rw [hnone] at hmem
  cases hmem

/-- Without rules that take paths back in, the walk and the handlers agree. -/
theorem walkAgrees_of_no_keeps (h : PlainWorkspace w s.files names)
    (hkeeps : ∀ rules ∈ w.policy.ignore, ∀ rule ∈ rules, rule.keeps = false) :
    WalkAgrees w s names := by
  intro below content hat
  rw [h.mem_candidates_iff hat, and_iff_left_iff_imp]
  intro hvisible
  exact (h.clear_iff hat hvisible).mpr (ExclusionPolicy.not_takesBackIn hkeeps names below)

end WorkspaceLink
