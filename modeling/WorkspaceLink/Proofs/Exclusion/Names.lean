import Mathlib.Data.List.Basic
import WorkspaceLink.Exclusion
import WorkspaceLink.Proofs.Path.Joined
import WorkspaceLink.Proofs.Text.Cuts

/-! Exclusion of paths made of names. What the rules say about such a path depends only on the names
below the root, and step by step on those of the directories around it. -/

namespace WorkspaceLink

open FileTree (pathOf)
open WorkspaceLink.Path (IsName ofNames)

namespace IgnoreRules

variable {rules : IgnoreRules} {names dir below : List Text} {name : Text} {isDir : Bool}

/-- What the rules say about a path: what they say about it by itself or, where they say nothing,
about the innermost directory around it that they speak about. -/
def decision? (rules : IgnoreRules) (path : Path) (isDir : Bool) : Option Bool :=
  (rules.verdict? path isDir).or ((Path.ancestors path).findSome? (rules.verdict? · true))

/-- Only a rule that takes paths back in says that a path is not ignored. -/
theorem exists_keeps {path : Path} (h : rules.verdict? path isDir = some false) :
    ∃ rule ∈ rules, rule.keeps = true := by
  obtain ⟨rule, hrule, hkeeps⟩ := Option.map_eq_some_iff.mp h
  exact ⟨rule, List.mem_reverse.mp (List.mem_of_find?_eq_some hrule), by simpa using hkeeps⟩

theorem ignores_eq (rules : IgnoreRules) (root path : Path) (isDir : Bool) :
    rules.ignores root path isDir = (rules.decision? (localPath root path) isDir).getD false := by
  rw [ignores, decision?]
  cases rules.verdict? (localPath root path) isDir <;> rfl

/-- What the rules leave open about an entry, they say about the directory that it is in. -/
theorem decision?_concat (h : ∀ n ∈ names, IsName n) (hname : IsName name) :
    rules.decision? (ofNames (names ++ [name])) isDir =
      (rules.verdict? (ofNames (names ++ [name])) isDir).or
        (rules.decision? (ofNames names) true) := by
  rw [decision?, decision?, Path.ancestors_ofNames h hname, List.findSome?_cons]
  cases rules.verdict? (ofNames names) true <;> rfl

/-- If a directory is ignored and something below it is not, the rules take back in what is on the
way there. -/
theorem exists_kept (hvalid : ∀ n ∈ dir ++ below, IsName n)
    (hdir : rules.decision? (ofNames dir) true = some true)
    (h : rules.decision? (ofNames (dir ++ below)) isDir ≠ some true) (hne : below ≠ []) :
    ∃ kept, kept ≠ [] ∧ kept <+: below ∧
      rules.verdict? (ofNames (dir ++ kept)) (isDir || kept != below) = some false := by
  -- from the file upwards: the rules are asked about the last name first
  induction below using List.reverseRecOn generalizing isDir with
  | nil => exact absurd rfl hne
  | append_singleton below name ih =>
    rw [← List.append_assoc] at h hvalid
    obtain ⟨hvalid, hname⟩ := List.forall_mem_append.mp hvalid
    rw [decision?_concat hvalid (List.forall_mem_singleton.mp hname)] at h
    match hverdict : rules.verdict? (ofNames (dir ++ below ++ [name])) isDir with
    | some true => exact absurd (by rw [hverdict]; rfl) h
    | some false =>
      refine ⟨below ++ [name], by simp, List.prefix_rfl, ?_⟩
      rw [← List.append_assoc, bne_self_eq_false, Bool.or_false]
      exact hverdict
    | none =>
      rw [hverdict, Option.none_or] at h
      -- nothing is said before the ignored directory itself is asked about
      have hbelow : below ≠ [] := by
        rintro rfl
        rw [List.append_nil] at h
        exact h hdir
      obtain ⟨kept, hkept, hbegin, hverdict⟩ := ih hvalid h hbelow
      have hproper : kept ≠ below ++ [name] := by
        rintro rfl
        have hlength := hbegin.length_le
        rw [List.length_append, List.length_singleton] at hlength
        omega
      refine ⟨kept, hkept, hbegin.trans (List.prefix_append _ _), ?_⟩
      rw [bne_iff_ne.mpr hproper, Bool.or_true]
      exact hverdict

theorem withoutHere_ofNames (h : ∀ n ∈ names, IsName n) :
    withoutHere (ofNames names) = ofNames names := by
  rw [withoutHere]
  cases hfront : Text.afterFront? "./" (ofNames names) with
  | none => rfl
  | some rest =>
    have heq := List.isPrefixOf?_eq_some_iff_append_eq.mp hfront
    have hname : IsName ['.'] := Path.isName_of_front h (by decide) heq.symm
    exact absurd rfl hname.ne_here

/-- The path of names below an absolute root is not taken for one that begins with the root. -/
theorem localPath_ofNames {root : Path} (hroot : Path.isAbsolute root = true)
    (h : ∀ n ∈ names, IsName n) : localPath root (ofNames names) = ofNames names := by
  obtain ⟨s, rfl⟩ := Path.isAbsolute_iff.mp hroot
  have hhere : withoutHere ('/' :: s) = '/' :: s := rfl
  have hfront : Text.afterFront? ('/' :: s) (ofNames names) = none := by
    apply Text.afterFront?_eq_none
    intro hslash
    have habsolute := Path.not_isAbsolute_ofNames h
    rw [Path.isAbsolute, Option.mem_def.mp hslash] at habsolute
    cases habsolute
  rw [localPath, hhere, withoutHere_ofNames h, hfront]
  simp

end IgnoreRules

namespace ExclusionPolicy

variable {policy : ExclusionPolicy} {names below : List Text} {name : Text} {isDir : Bool}

/-! ### Below an absolute root -/

/-- A path below the root is ignored as the rules decide about the names below the root. -/
theorem isIgnored_join (hroot : Path.isAbsolute policy.root = true) (hnames : ∀ n ∈ names, IsName n)
    (hne : names ≠ []) :
    policy.isIgnored (Path.join policy.root (ofNames names)) isDir = true ↔
      ∃ rules, policy.ignore = some rules ∧ rules.decision? (ofNames names) isDir = some true := by
  have hrel : (ofNames names).isEmpty = false :=
    List.isEmpty_eq_false_iff.mpr (Path.ofNames_ne_nil hnames hne)
  rw [isIgnored, Path.relativeTo?_join hroot hnames hne]
  cases policy.ignore with
  | none => simp
  | some rules =>
    dsimp only
    rw [hrel, IgnoreRules.ignores_eq, IgnoreRules.localPath_ofNames hroot hnames]
    simp [Option.getD_eq_iff]

/-- A directory below the root is excluded if it is ignored or has the name of an excluded one. -/
theorem excludesDir_join (hroot : Path.isAbsolute policy.root = true)
    (hnames : ∀ n ∈ names, IsName n) (hname : IsName name) :
    policy.excludesDir (Path.join policy.root (ofNames (names ++ [name]))) =
      (policy.isIgnored (Path.join policy.root (ofNames (names ++ [name]))) true ||
        policy.excludesDirName name) := by
  have hall := Path.isName_concat hnames hname
  rw [excludesDir, Path.same_join_self hroot hall (by simp), Path.fileName?_join hroot hnames hname]
  rfl

/-- A path below the root lies in an excluded directory if one of the directories around it has the
name of one. -/
theorem hasExcludedAncestor_join (hroot : Path.isAbsolute policy.root = true)
    (hnames : ∀ n ∈ names, IsName n) (hname : IsName name) :
    policy.hasExcludedAncestor (Path.join policy.root (ofNames (names ++ [name]))) =
      names.any policy.excludesDirName := by
  have hall := Path.isName_concat hnames hname
  have hdir : (Path.relativeTo? (Path.join policy.root (ofNames (names ++ [name])))
      policy.root).bind Path.parent? = some (ofNames names) := by
    rw [Path.relativeTo?_join hroot hall (by simp)]
    exact Path.parent?_ofNames hnames hname
  rw [hasExcludedAncestor, hdir]
  dsimp only
  rw [Path.components_ofNames hnames, List.any_map]
  rfl

/-! ### Below a root of names -/

theorem isAbsolute_root (hroot : policy.root = pathOf names) :
    Path.isAbsolute policy.root = true := by
  rw [hroot]
  rfl

theorem isIgnored_pathOf (hroot : policy.root = pathOf names) (hnames : ∀ n ∈ names, IsName n)
    (hbelow : ∀ n ∈ below, IsName n) (hne : below ≠ []) :
    policy.isIgnored (pathOf (names ++ below)) isDir = true ↔
      ∃ rules, policy.ignore = some rules ∧ rules.decision? (ofNames below) isDir = some true := by
  have habsolute := isAbsolute_root hroot
  rw [← Path.join_pathOf_ofNames hnames hbelow hne, ← hroot]
  exact isIgnored_join habsolute hbelow hne

theorem excludesDir_pathOf (hroot : policy.root = pathOf names) (hnames : ∀ n ∈ names, IsName n)
    (hbelow : ∀ n ∈ below, IsName n) (hname : IsName name) :
    policy.excludesDir (pathOf (names ++ (below ++ [name]))) =
      (policy.isIgnored (pathOf (names ++ (below ++ [name]))) true ||
        policy.excludesDirName name) := by
  have habsolute := isAbsolute_root hroot
  have hall := Path.isName_concat hbelow hname
  rw [← Path.join_pathOf_ofNames hnames hall (by simp), ← hroot]
  exact excludesDir_join habsolute hbelow hname

theorem hasExcludedAncestor_pathOf (hroot : policy.root = pathOf names)
    (hnames : ∀ n ∈ names, IsName n) (hbelow : ∀ n ∈ below, IsName n) (hname : IsName name) :
    policy.hasExcludedAncestor (pathOf (names ++ (below ++ [name]))) =
      below.any policy.excludesDirName := by
  have habsolute := isAbsolute_root hroot
  have hall := Path.isName_concat hbelow hname
  rw [← Path.join_pathOf_ofNames hnames hall (by simp), ← hroot]
  exact hasExcludedAncestor_join habsolute hbelow hname

/-- A file that is not excluded is there, is not ignored and lies in no directory with an excluded
name. -/
theorem of_not_excludesFile {t : FileTree} {path : Path} (h : policy.excludesFile t path = false) :
    (t.size? path).isSome = true ∧ policy.isIgnored path false = false ∧
      policy.hasExcludedAncestor path = false := by
  obtain ⟨hpath, hsize⟩ := Bool.or_eq_false_iff.mp h
  obtain ⟨hignored, hname⟩ := Bool.or_eq_false_iff.mp hpath
  refine ⟨?_, hignored, ?_⟩
  · cases hsome : t.size? path with
    | none => simp [hsome] at hsize
    | some size => rfl
  · cases hsome : Path.fileName? path with
    | none => simp [hsome] at hname
    | some name =>
      rw [hsome] at hname
      exact (Bool.or_eq_false_iff.mp hname).2

end ExclusionPolicy

end WorkspaceLink
