import WorkspaceLink.Proofs.Exclusion.Names
import WorkspaceLink.Proofs.Path.NamedTree
import WorkspaceLink.Proofs.Watcher.Subscription

/-! Excluded directories with all that lies below them, and what is subscribed of them. A start keeps out
of them; the handler of a new directory looks at the directory alone. -/

namespace WorkspaceLink

open FileTree (pathOf Spared SparedBelow)
open WorkspaceLink.Path (IsName ofNames)

/-- A watcher whose root is a path of names. -/
structure Watcher.RootedAt (w : Watcher) (names : List Text) : Prop where
  root : w.root = pathOf names
  policy : w.policy.root = w.root
  valid : ∀ n ∈ names, IsName n

theorem Watcher.RootedAt.ofRoot {t : FileTree} {root : Path} {settings : Settings} {w : Watcher}
    (h : Watcher.ofRoot t root settings = .ok w) : ∃ names, w.RootedAt names := by
  rw [Watcher.ofRoot, FileTree.canonical] at h
  cases hplace : t.resolve root with
  | error e =>
    rw [hplace] at h
    cases h
  | ok names =>
    rw [hplace] at h
    obtain rfl := Except.ok.inj h
    exact ⟨names, rfl, rfl, (FileTree.resolve_isPlace hplace).valid⟩

namespace ExclusionPolicy

variable {policy : ExclusionPolicy} {names dir below : List Text} {path : Path}

/-- Whether a path is that of an excluded directory below the root, or lies in one. -/
def LiesWithin (policy : ExclusionPolicy) (names : List Text) (path : Path) : Prop :=
  ∃ dir, dir ≠ [] ∧ (∀ n ∈ dir, IsName n) ∧ policy.excludesDir (pathOf (names ++ dir)) = true ∧
    path.IsWithin (pathOf (names ++ dir))

theorem not_liesWithin_of_sparedBelow (hnames : ∀ n ∈ names, IsName n)
    (h : SparedBelow policy.excludesDir names path) : ¬policy.LiesWithin names path := by
  rintro ⟨dir, hdir, hvalid, hexcluded, hwithin⟩
  obtain ⟨below, hbelow, rfl, hspared⟩ := h
  have hbegin : dir <+: below := (Path.isWithin_pathOf (List.forall_mem_append.mpr ⟨hnames, hbelow⟩)
    (List.forall_mem_append.mpr ⟨hnames, hvalid⟩)).mp hwithin
  rw [hspared dir hdir hbegin] at hexcluded
  cases hexcluded

/-- Whether the rules take back in what is on the way from a directory to another below it. -/
def KeepsBelow (policy : ExclusionPolicy) (dir below : List Text) : Prop :=
  ∃ rules kept, policy.ignore = some rules ∧ kept ≠ [] ∧ kept <+: below ∧
    rules.verdict? (ofNames (dir ++ kept)) true = some false

/-- That a directory is ignored holds of the directories below it, unless the rules take back in what
is on the way there. -/
theorem keepsBelow_of_not_excludesDir (hroot : policy.root = pathOf names)
    (hnames : ∀ n ∈ names, IsName n) (hvalid : ∀ n ∈ dir ++ below, IsName n) (hdir : dir ≠ [])
    (hbelow : below ≠ []) (hignored : policy.isIgnored (pathOf (names ++ dir)) true = true)
    (h : policy.excludesDir (pathOf (names ++ (dir ++ below))) = false) :
    policy.KeepsBelow dir below := by
  obtain ⟨rules, hrules, hdecision⟩ := (isIgnored_pathOf hroot hnames
    (List.forall_mem_append.mp hvalid).1 hdir).mp hignored
  have hopen : rules.decision? (ofNames (dir ++ below)) true ≠ some true := by
    intro hdecision
    have hne : dir ++ below ≠ [] := by simp [hdir]
    have hbelow := (isIgnored_pathOf hroot hnames hvalid hne).mpr ⟨rules, hrules, hdecision⟩
    obtain ⟨inner, name, heq⟩ : ∃ inner name, dir ++ below = inner ++ [name] :=
      ⟨_, _, (List.dropLast_append_getLast hne).symm⟩
    rw [heq] at h hbelow hvalid
    obtain ⟨hinner, hname⟩ := List.forall_mem_append.mp hvalid
    rw [excludesDir_pathOf hroot hnames hinner (List.forall_mem_singleton.mp hname), hbelow] at h
    cases h
  obtain ⟨kept, hkept, hbegin, hverdict⟩ := IgnoreRules.exists_kept hvalid hdecision hopen hbelow
  exact ⟨rules, kept, hrules, hkept, hbegin, hverdict⟩

end ExclusionPolicy

/-! ### Runs -/

/-- Whether the subscriptions tell about a path: each tells about a directory and the entries in it,
and not about what lies in those. -/
def WatchState.Receives (s : WatchState) (path : Path) : Prop :=
  ∃ dir ∈ s.subscribed, path = dir ∨ ∃ name, IsName name ∧ path = Path.join dir name

/-- The file system that a step brings. -/
def WatchStep.files? : WatchStep → Option FileTree
  | change files _ _ => some files
  | _ => none

theorem WatchSystem.step_files (w : Watcher) (y : WatchSystem) (x : WatchStep) :
    (y.step w x).state.files = x.files?.getD y.state.files := by
  have hsignal := signal_frame w y (x := x)
  cases x with
  | operation op path =>
    rw [step]
    split
    · exact (WatchState.onOperation_effect w y.state op path).files
    · rfl
  | start sourceFailure =>
    obtain ⟨_, _, _, heq, _⟩ := WatchState.start_eq w y.state sourceFailure
    rw [step]
    split
    · rfl
    · exact congrArg (·.files) heq
  | visit n =>
    rw [step]
    rcases y.visit_cases w n with ⟨_, heq⟩ | ⟨path, _, heq⟩ <;> rw [heq] <;> rfl
  | advance ms =>
    rw [step, WatchState.advance_eq]
    rfl
  | failSource _ | cancel | rearm =>
    obtain ⟨_, _, _, heq⟩ := hsignal rfl
    exact congrArg (·.files) heq
  | _ => rfl

namespace WatchRun

variable {r : WatchRun} {names : List Text} {n : ℕ} {dir : Path}

/-- A run in which all names in the file system can be those of files. -/
structure IsNamed (r : WatchRun) : Prop where
  files : r.files.top.IsNamed
  changes : ∀ x ∈ r.steps, ∀ files ∈ x.files?, files.top.IsNamed

theorem IsNamed.state (h : r.IsNamed) (n : ℕ) : (r.state n).files.top.IsNamed := by
  induction n with
  | zero => exact h.files
  | succ n ih =>
    rw [WatchRun.state]
    cases hx : r.steps[n]? with
    | none =>
      rw [system_stay hx]
      exact ih
    | some x =>
      rw [system_step hx, WatchSystem.step_files]
      cases hfiles : x.files? with
      | none => exact ih
      | some files => exact h.changes x (List.mem_of_getElem? hx) files hfiles

theorem sparedBelow_startDirectories (hroot : r.watcher.RootedAt names) (h : r.IsNamed)
    {sourceFailure : Option Text}
    (hdir : dir ∈ (r.state n).startDirectories r.watcher sourceFailure) :
    SparedBelow r.watcher.policy.excludesDir names dir := by
  rw [WatchState.startDirectories] at hdir
  split at hdir
  · cases hdir
  · have hlisted := (List.takeWhile_sublist _).mem hdir
    rw [WatchState.directories?, hroot.root] at hlisted
    cases hwalk : (r.state n).files.walk? r.watcher.policy.excludesDir (pathOf names) with
    | none => simp [hwalk] at hlisted
    | some entries =>
      have hentry : (dir, .dir) ∈ entries := by simpa [hwalk] using hlisted
      exact FileTree.sparedBelow_of_mem_walk? hroot.valid (h.state n) hwalk hentry

/-- A directory that the subscriptions tell about is subscribed only if it lies in no pruned one, as
long as none of those subscribed before does. -/
theorem sparedBelow_of_receives (hroot : r.watcher.RootedAt names)
    (hbefore : ∀ q ∈ (r.state n).subscribed, SparedBelow r.watcher.policy.excludesDir names q)
    (hreceives : (r.state n).Receives dir)
    (hsubscribes : (r.state n).subscribes r.watcher dir = true) :
    SparedBelow r.watcher.policy.excludesDir names dir := by
  obtain ⟨q, hq, rfl | ⟨name, hname, rfl⟩⟩ := hreceives
  · exact hbefore _ hq
  · obtain ⟨below, hbelow, rfl, hspared⟩ := hbefore q hq
    have hjoin : Path.join (pathOf (names ++ below)) name = pathOf (names ++ (below ++ [name])) := by
      rw [Path.join_pathOf (List.forall_mem_append.mpr ⟨hroot.valid, hbelow⟩) hname,
        List.append_assoc]
    have hvisible : r.watcher.policy.excludesDir (Path.join (pathOf (names ++ below)) name) = false := by
      simp only [WatchState.subscribes, Bool.and_eq_true, Bool.not_eq_true'] at hsubscribes
      exact hsubscribes.1.2
    rw [hjoin] at hvisible ⊢
    exact ⟨below ++ [name], Path.isName_concat hbelow hname, rfl,
      FileTree.spared_concat hspared hvisible⟩

/-- Where the loop hears of creations through its subscriptions, no directory that is subscribed lies
in a pruned one. -/
theorem sparedBelow_of_received (hroot : r.watcher.RootedAt names) (h : r.IsNamed)
    (hreceived : ∀ m path, r.Handles m .created path → (r.state m).Receives path)
    (hdir : dir ∈ (r.state n).subscribed) :
    SparedBelow r.watcher.policy.excludesDir names dir := by
  -- by induction on the step before which the directory was subscribed
  induction n using Nat.strong_induction_on generalizing dir with
  | h n ih =>
    obtain ⟨m, hm, hadded⟩ := mem_subscribed_iff.mp hdir
    rcases mem_subscribedAt_iff.mp hadded with ⟨_, -, -, hlisted⟩ | ⟨hhandles, hsubscribes⟩
    · exact sparedBelow_startDirectories hroot h hlisted
    · exact sparedBelow_of_receives hroot (fun q hq => ih m hm hq) (hreceived m dir hhandles)
        hsubscribes

/-- How excluded trees are kept from being watched. -/
structure ExcludedTrees (r : WatchRun) (names : List Text) : Prop where
  /-- A directory below an excluded one is excluded, unless that one is excluded for its name alone or
  the rules take back in what is on the way. -/
  inherited : ∀ dir below, dir ≠ [] → below ≠ [] → (∀ n ∈ dir ++ below, IsName n) →
    r.watcher.policy.excludesDir (pathOf (names ++ dir)) = true →
    r.watcher.policy.excludesDir (pathOf (names ++ (dir ++ below))) = false →
      r.watcher.policy.isIgnored (pathOf (names ++ dir)) true = false ∨
        r.watcher.policy.KeepsBelow dir below
  /-- No start subscribes anything in an excluded tree. -/
  started : ∀ n sourceFailure, ∀ dir ∈ (r.state n).startDirectories r.watcher sourceFailure,
    ¬r.watcher.policy.LiesWithin names dir
  /-- Nothing in an excluded tree is ever subscribed, if the loop hears of creations through its
  subscriptions. -/
  received : (∀ n path, r.Handles n .created path → (r.state n).Receives path) →
    ∀ n, ∀ dir ∈ (r.state n).subscribed, ¬r.watcher.policy.LiesWithin names dir
  /-- However it hears of them, nothing in an excluded tree is ever subscribed exactly if it never
  handles the creation of a directory there that it subscribes. -/
  watched : (∀ n, ∀ dir ∈ (r.state n).subscribed, ¬r.watcher.policy.LiesWithin names dir) ↔
    ∀ n dir, r.Handles n .created dir → (r.state n).subscribes r.watcher dir = true →
      ¬r.watcher.policy.LiesWithin names dir

/-- In every run excluded trees are kept from being watched but for directories whose own creation is
handled. -/
theorem run_excludedTrees (hroot : r.watcher.RootedAt names) (h : r.IsNamed) :
    ExcludedTrees r names := by
  have hpolicy : r.watcher.policy.root = pathOf names := hroot.policy.trans hroot.root
  constructor
  case inherited =>
    intro dir below hdir hbelow hvalid _ hvisible
    rw [or_iff_not_imp_left, Bool.not_eq_false]
    intro hignored
    exact ExclusionPolicy.keepsBelow_of_not_excludesDir hpolicy hroot.valid hvalid hdir hbelow hignored
      hvisible
  case started =>
    intro n sourceFailure dir hdir
    exact ExclusionPolicy.not_liesWithin_of_sparedBelow hroot.valid
      (sparedBelow_startDirectories hroot h hdir)
  case received =>
    intro hreceived n dir hdir
    exact ExclusionPolicy.not_liesWithin_of_sparedBelow hroot.valid
      (sparedBelow_of_received hroot h hreceived hdir)
  case watched =>
    constructor
    · intro hnone n dir hhandles hsubscribes
      have hadded : dir ∈ r.subscribedAt n := mem_subscribedAt_iff.mpr (.inr ⟨hhandles, hsubscribes⟩)
      exact hnone (n + 1) dir (mem_subscribed_iff.mpr ⟨n, Nat.lt_succ_self n, hadded⟩)
    · intro hnone n dir hdir
      obtain ⟨m, -, hadded⟩ := mem_subscribed_iff.mp hdir
      rcases mem_subscribedAt_iff.mp hadded with ⟨_, -, -, hlisted⟩ | ⟨hhandles, hsubscribes⟩
      · exact ExclusionPolicy.not_liesWithin_of_sparedBelow hroot.valid
          (sparedBelow_startDirectories hroot h hlisted)
      · exact hnone m dir hhandles hsubscribes

/-- A package is installed, and a directory created beside it, in a workspace that is watched. The
loop handles the creation of both directories in the root. -/
def installedPackage : WatchRun :=
  let files : FileTree := ⟨.dir [("ws", .dir [])]⟩
  { watcher :=
      { root := "/ws"
        policy := .ofSettings files "/ws" .default
        settings := .default }
    files
    steps :=
      [.start none,
        .change ⟨.dir [("ws", .dir [("node_modules", .dir [("dep", .dir [])]), ("pkg", .dir [])])]⟩ [] [],
        .operation .created "/ws/node_modules", .operation .created "/ws/pkg"] }

/-- Only the directory with the package is kept out. -/
theorem installedPackage_excludedTrees :
    installedPackage.watcher.RootedAt ["ws"] ∧ installedPackage.IsNamed ∧
      (∀ n path, installedPackage.Handles n .created path →
        (installedPackage.state n).Receives path) ∧
      (installedPackage.state 4).subscribed = ["/ws", "/ws/pkg"] ∧
      ExcludedTrees installedPackage ["ws"] ∧
      ∀ n, ∀ dir ∈ (installedPackage.state n).subscribed,
        ¬installedPackage.watcher.policy.LiesWithin ["ws"] dir := by
  have hroot : installedPackage.watcher.RootedAt ["ws"] :=
    ⟨rfl, rfl, List.forall_mem_singleton.mpr (by decide)⟩
  have hnil : (FileNode.dir []).IsNamed := .dir (List.forall_mem_nil _) (List.forall_mem_nil _)
  have hdir {name : Text} {node : FileNode} (hname : IsName name) (hnode : node.IsNamed) :
      (FileNode.dir [(name, node)]).IsNamed :=
    .dir (List.forall_mem_singleton.mpr hname) (List.forall_mem_singleton.mpr hnode)
  have hnamed : installedPackage.IsNamed := by
    refine ⟨hdir (by decide) hnil, ?_⟩
    intro x hx files hfiles
    simp only [installedPackage, List.mem_cons, List.not_mem_nil, or_false] at hx
    rcases hx with rfl | rfl | rfl | rfl
    · cases hfiles
    · obtain rfl := Option.some.inj hfiles
      refine hdir (by decide) (.dir ?_ ?_)
      · decide
      · exact List.forall_mem_cons.mpr ⟨hdir (by decide) hnil, List.forall_mem_singleton.mpr hnil⟩
    · cases hfiles
    · cases hfiles
  have hreceived : ∀ n path, installedPackage.Handles n .created path →
      (installedPackage.state n).Receives path := by
    rintro n path ⟨hx, -⟩
    match n, hx with
    | 2, hx =>
      cases hx
      exact ⟨"/ws", by decide +kernel, .inr ⟨"node_modules", by decide, by decide⟩⟩
    | 3, hx =>
      cases hx
      exact ⟨"/ws", by decide +kernel, .inr ⟨"pkg", by decide, by decide⟩⟩
  have htrees := run_excludedTrees hroot hnamed
  exact ⟨hroot, hnamed, hreceived, by decide +kernel, htrees, htrees.received hreceived⟩

/-- A directory in one that is excluded for its name is not excluded itself. -/
theorem installedPackage_notExcluded :
    installedPackage.watcher.policy.excludesDir "/ws/node_modules" = true ∧
      installedPackage.watcher.policy.excludesDir "/ws/node_modules/dep" = false := by
  decide +kernel

end WatchRun

end WorkspaceLink
