import Mathlib.Data.List.DropRight
import WorkspaceLink.Glob.Pattern
import WorkspaceLink.Path
import WorkspaceLink.Proofs.Text.Cuts

/-! Watch patterns with a base directory. What counts is the directory that the base's text spells
after a scheme; a URI's escapes are not decoded, so that a base with escapes stands for another
directory than its path does. -/

namespace WorkspaceLink.Glob

/-- A directory as it is compared with paths: with slashes only, and none at its end. -/
def directoryText (d : Path) : Text :=
  (toSlashes d).dropEndWhile (· == '/')

/-- What a path has after a directory and its slash, which is nothing for the directory itself. -/
def restAfter? (dir path : Text) : Option Text :=
  if path = dir then some [] else Text.afterFront? (dir ++ ['/']) path

/-- Whether a pattern matches what a path has below a directory. -/
def matchesBelow (d : Path) (pattern : Text) (path : Path) : Bool :=
  (restAfter? (directoryText d) (toSlashes path)).any (matchesGlob pattern)

/-- Spellings of a directory as the base of a pattern: the directory, perhaps with slashes after it,
or a file's URI with the directory as its path. -/
inductive Spells (d : Path) : Text → Prop where
  | plain (n : Nat) : Spells d (d ++ List.replicate n '/')
  | uri (escaped : Text) :
    (DocumentUri.mk (DocumentUri.fileScheme ++ escaped)).toPath = d →
      Spells d (DocumentUri.fileScheme ++ escaped)

/-- Whether patterns with a base match exactly what they match below a directory. Below the root
only paths with a single slash at their front are meant. -/
def StandsFor (u : Text) (d : Path) : Prop :=
  ∀ pattern path,
    (directoryText d = [] → ∃ rest, toSlashes path = '/' :: rest ∧ rest.head? ≠ some '/') →
    (GlobSpec.mk (some u) pattern).matches path = matchesBelow d pattern path

variable {d : Path} {u s base dir path rest : Text} {pattern : Text}

/-! ### Schemes -/

theorem stripUriScheme_of_isAbsolute (h : Path.isAbsolute s = true) : stripUriScheme s = s := by
  obtain ⟨t, rfl⟩ : ∃ t, s = '/' :: t := by
    cases s with
    | nil => cases h
    | cons c t =>
      rw [Path.isAbsolute, List.head?_cons, beq_iff_eq] at h
      exact ⟨t, congrArg (· :: t) (Option.some.inj h)⟩
  have hfront : Text.afterFront? "://" ('/' :: t) = none := rfl
  rw [stripUriScheme, Text.cut?, hfront]
  cases Text.cut? "://" t with
  | none => rfl
  | some parts =>
    -- what stands before the first `://` begins with a slash, and so is no scheme
    have hslash : isSchemeChar '/' = false := by decide
    simp [hslash]

theorem stripUriScheme_file (escaped : Text) :
    stripUriScheme (DocumentUri.fileScheme ++ escaped) = escaped := by
  have hcut : Text.cut? "://" (DocumentUri.fileScheme ++ escaped) =
      some (("file" : Text), escaped) := rfl
  rw [stripUriScheme, hcut]
  rfl

/-! ### Directories -/

theorem toSlashes_append (s t : Text) : toSlashes (s ++ t) = toSlashes s ++ toSlashes t :=
  List.map_append

theorem toSlashes_of_not_mem (h : '\\' ∉ s) : toSlashes s = s := by
  have heach : ∀ c ∈ s, (if c = '\\' then '/' else c) = c := by
    intro c hc
    apply if_neg
    rintro rfl
    exact h hc
  rw [toSlashes, Text.exchange, List.map_congr_left heach, List.map_id']

theorem directoryText_prefix_toSlashes (d : Path) : directoryText d <+: toSlashes d :=
  List.rdropWhile_prefix _ _

theorem toSlashes_directoryText (d : Path) :
    toSlashes (directoryText d ++ ['/']) = directoryText d ++ ['/'] := by
  apply toSlashes_of_not_mem
  have hnone : '\\' ∉ toSlashes d := by
    intro hmem
    obtain ⟨c, -, hc⟩ := List.mem_map.mp hmem
    split at hc
    · cases hc
    · contradiction
  intro hmem
  rcases List.mem_append.mp hmem with hmem | hmem
  · exact hnone ((directoryText_prefix_toSlashes d).subset hmem)
  · cases List.mem_singleton.mp hmem

theorem directoryText_append_slashes (d : Path) (n : Nat) :
    directoryText (d ++ List.replicate n '/') = directoryText d := by
  induction n with
  | zero => rw [List.replicate_zero, List.append_nil]
  | succ n ih =>
    rw [List.replicate_succ', ← List.append_assoc, directoryText, toSlashes_append]
    exact (List.rdropWhile_concat_pos _ _ _ rfl).trans ih

theorem prefix_of_prefix_concat (h : directoryText d <+: dir ++ ['/']) : directoryText d <+: dir := by
  rcases List.prefix_concat_iff.mp h with heq | h
  · -- the directory would end with a slash
    have hdrop : (directoryText d).rdropWhile (· == '/') = directoryText d :=
      List.rdropWhile_idempotent _ _
    have hconcat : (dir ++ ['/']).rdropWhile (· == '/') = dir.rdropWhile (· == '/') :=
      List.rdropWhile_concat_pos _ _ _ rfl
    rw [heq, hconcat] at hdrop
    have hlength := (List.rdropWhile_prefix (· == '/') dir).length_le
    rw [hdrop, List.length_append, List.length_singleton] at hlength
    omega
  · exact h

/-! ### Paths below directories -/

theorem restAfter?_eq_some_iff :
    restAfter? dir path = some rest ↔ path = dir ∧ rest = [] ∨ path = dir ++ '/' :: rest := by
  rw [restAfter?]
  split
  · next heq => simp [heq, eq_comm]
  · next hne =>
    rw [Text.afterFront?_eq_some_iff, List.append_assoc, eq_comm]
    exact (or_iff_right fun heq => hne heq.1).symm

theorem prefix_of_restAfter? (h : restAfter? dir path = some rest) : dir <+: path := by
  rcases restAfter?_eq_some_iff.mp h with ⟨rfl, -⟩ | rfl
  · exact List.prefix_rfl
  · exact List.prefix_append _ _

theorem relativeTo?_of_eq_nil (h : base.dropEndWhile (· == '/') = []) :
    relativeTo? path base = some (path.dropWhile (· == '/')) := by
  simp [relativeTo?, h]

theorem relativeTo?_of_ne_nil (h : base.dropEndWhile (· == '/') ≠ []) :
    relativeTo? path base = restAfter? (base.dropEndWhile (· == '/')) path := by
  have hempty : (base.dropEndWhile (· == '/')).isEmpty = false := List.isEmpty_eq_false_iff.mpr h
  simp only [relativeTo?, hempty]
  apply Option.ext
  intro rest
  rw [restAfter?_eq_some_iff]
  cases hafter : Text.afterFront? (base.dropEndWhile (· == '/')) path with
  | none =>
    have hnot (after : Text) : path ≠ base.dropEndWhile (· == '/') ++ after := fun heq => by
      rw [Text.afterFront?_eq_some_iff.mpr heq.symm] at hafter
      cases hafter
    refine ⟨fun hnone => absurd hnone (Option.some_ne_none rest).symm, ?_⟩
    rintro (⟨heq, -⟩ | heq)
    · exact absurd (heq.trans (List.append_nil _).symm) (hnot [])
    · exact absurd heq (hnot _)
  | some after =>
    obtain rfl := Text.afterFront?_eq_some_iff.mp hafter
    cases after with
    | nil => simp [eq_comm]
    | cons c after =>
      by_cases hc : c = '/'
      · subst hc
        simp
      · simp [hc]

theorem relativeTo?_eq
    (hroot : base.dropEndWhile (· == '/') = [] →
      ∃ rest, path = '/' :: rest ∧ rest.head? ≠ some '/') :
    relativeTo? path base = restAfter? (base.dropEndWhile (· == '/')) path := by
  by_cases hbase : base.dropEndWhile (· == '/') = []
  · obtain ⟨rest, rfl, hrest⟩ := hroot hbase
    have hdrop : ('/' :: rest).dropWhile (· == '/') = rest := by
      cases rest with
      | nil => rfl
      | cons c rest =>
        have hc : c ≠ '/' := fun heq => hrest (congrArg some heq)
        simp [hc]
    rw [relativeTo?_of_eq_nil hbase, hbase, hdrop]
    exact (restAfter?_eq_some_iff.mpr (.inr rfl)).symm
  · exact relativeTo?_of_ne_nil hbase

theorem prefix_of_relativeTo? (h : relativeTo? path base = some rest) :
    base.dropEndWhile (· == '/') <+: path := by
  by_cases hbase : base.dropEndWhile (· == '/') = []
  · rw [hbase]
    exact List.nil_prefix
  · rw [relativeTo?_of_ne_nil hbase] at h
    exact prefix_of_restAfter? h

theorem relativeTo?_self (base : Text) :
    (relativeTo? (base.dropEndWhile (· == '/') ++ ['/']) base).isSome = true := by
  by_cases hbase : base.dropEndWhile (· == '/') = []
  · rw [relativeTo?_of_eq_nil hbase]
    rfl
  · rw [relativeTo?_of_ne_nil hbase, restAfter?_eq_some_iff.mpr (.inr rfl)]
    rfl

/-! ### Bases -/

theorem matches_base (hu : u ≠ []) : (GlobSpec.mk (some u) pattern).matches path =
    (relativeTo? (toSlashes path) (toSlashes (stripUriScheme u))).any (matchesGlob pattern) := by
  have hbase : (some u).filter (fun base => !base.isEmpty) = some u := by
    simp [Option.filter, hu]
  simp only [GlobSpec.matches, hbase]
  cases relativeTo? (toSlashes path) (toSlashes (stripUriScheme u)) <;> rfl

theorem any_matchesGlob_all (o : Option Text) : o.any (matchesGlob "**") = o.isSome := by
  cases o with
  | none => rfl
  | some rest => rfl

/-- A base stands for a directory exactly if that is what follows its scheme. -/
theorem standsFor_iff_directoryText (hu : u ≠ []) :
    StandsFor u d ↔ directoryText (stripUriScheme u) = directoryText d := by
  constructor
  · intro h
    -- the pattern `**` tells what lies in a directory: each of the two lies in the other
    have hbase : directoryText (stripUriScheme u) <+: directoryText d := by
      have hmatch := h "**" (directoryText d ++ ['/']) fun hd => by
        rw [toSlashes_directoryText, hd]
        exact ⟨[], rfl, by simp⟩
      rw [matches_base hu, matchesBelow, toSlashes_directoryText, any_matchesGlob_all,
        any_matchesGlob_all, restAfter?_eq_some_iff.mpr (.inr rfl)] at hmatch
      obtain ⟨rest, hrest⟩ := Option.isSome_iff_exists.mp hmatch
      exact prefix_of_prefix_concat (prefix_of_relativeTo? hrest)
    have hdir : directoryText d <+: directoryText (stripUriScheme u) := by
      have hmatch := h "**" (directoryText (stripUriScheme u) ++ ['/']) fun hd => by
        rw [hd] at hbase
        rw [toSlashes_directoryText, List.prefix_nil.mp hbase]
        exact ⟨[], rfl, by simp⟩
      rw [matches_base hu, matchesBelow, toSlashes_directoryText, any_matchesGlob_all,
        any_matchesGlob_all] at hmatch
      have hself := relativeTo?_self (toSlashes (stripUriScheme u))
      obtain ⟨rest, hrest⟩ := Option.isSome_iff_exists.mp (hmatch.symm.trans hself)
      exact prefix_of_prefix_concat (prefix_of_restAfter? hrest)
    exact hbase.eq_of_length_le hdir.length_le
  · intro heq pattern path hroot
    rw [matches_base hu, matchesBelow, ← heq]
    rw [← heq] at hroot
    exact congrArg (Option.any (matchesGlob pattern)) (relativeTo?_eq hroot)

/-! ### Spellings -/

theorem Spells.ne_nil (hd : Path.isAbsolute d = true) (hu : Spells d u) : u ≠ [] := by
  cases hu with
  | plain n =>
    intro hnil
    rw [(List.append_eq_nil_iff.mp hnil).1] at hd
    cases hd
  | uri escaped _ => exact List.append_ne_nil_of_left_ne_nil (List.cons_ne_nil _ _) _

theorem ne_fileScheme_of_isAbsolute (hs : Path.isAbsolute s = true) (escaped : Text) :
    s ≠ DocumentUri.fileScheme ++ escaped := by
  rintro rfl
  cases hs

theorem isAbsolute_append (hs : Path.isAbsolute s = true) (t : Text) :
    Path.isAbsolute (s ++ t) = true := by
  cases s with
  | nil => cases hs
  | cons c s => exact hs

theorem toPath_fileScheme (escaped : Text) :
    (DocumentUri.mk (DocumentUri.fileScheme ++ escaped)).toPath = percentDecode escaped := rfl

theorem percentDecode_of_not_mem (h : '%' ∉ s) : percentDecode s = s := by
  have hcontains : s.contains '%' = false := by simpa using h
  rw [percentDecode, hcontains]
  rfl

theorem Spells.toPath_eq {escaped : Text} (hd : Path.isAbsolute d = true)
    (hu : Spells d (DocumentUri.fileScheme ++ escaped)) :
    (DocumentUri.mk (DocumentUri.fileScheme ++ escaped)).toPath = d := by
  generalize heq : DocumentUri.fileScheme ++ escaped = u at hu
  cases hu with
  | plain n =>
    have habsolute := isAbsolute_append hd (List.replicate n '/')
    exact absurd heq.symm (ne_fileScheme_of_isAbsolute habsolute escaped)
  | uri _ hpath => exact hpath

/-- What follows the scheme of a spelling is the directory, unless the spelling is a URI that spells
it otherwise. -/
theorem Spells.directoryText_iff (hd : Path.isAbsolute d = true) (hu : Spells d u) :
    directoryText (stripUriScheme u) = directoryText d ↔
      ∀ escaped, u = DocumentUri.fileScheme ++ escaped → directoryText escaped = directoryText d := by
  cases hu with
  | plain n =>
    have habsolute := isAbsolute_append hd (List.replicate n '/')
    rw [stripUriScheme_of_isAbsolute habsolute, directoryText_append_slashes]
    exact iff_of_true rfl fun escaped h => absurd h (ne_fileScheme_of_isAbsolute habsolute escaped)
  | uri escaped _ =>
    rw [stripUriScheme_file]
    constructor
    · intro h other hother
      rwa [← List.append_cancel_left hother]
    · exact fun h => h escaped rfl

/-- A spelling of an absolute directory, as the base of a pattern, stands for the directory exactly if
it is a path, or a URI that names the directory before its escapes are decoded. -/
theorem standsFor_iff (hd : Path.isAbsolute d = true) (hu : Spells d u) :
    StandsFor u d ↔
      ∀ escaped, u = DocumentUri.fileScheme ++ escaped → directoryText escaped = directoryText d :=
  (standsFor_iff_directoryText (hu.ne_nil hd)).trans (hu.directoryText_iff hd)

/-- The URI of a directory that is written without escapes stands for it. -/
theorem fileUri_standsFor :
    Path.isAbsolute "/my project" = true ∧ Spells "/my project" "file:///my project" ∧
      StandsFor "file:///my project" "/my project" := by
  have hspells : Spells "/my project" "file:///my project" := .uri "/my project" (by decide +kernel)
  refine ⟨rfl, hspells, (standsFor_iff rfl hspells).mpr ?_⟩
  intro escaped h
  have hsame : DocumentUri.fileScheme ++ "/my project" = DocumentUri.fileScheme ++ escaped := h
  rw [← List.append_cancel_left hsame]

/-- The URI of a directory with an escaped blank does not stand for it: no file of the directory
matches any more. -/
theorem escapedBase_not_standsFor :
    Spells "/my project" "file:///my%20project" ∧
      ¬StandsFor "file:///my%20project" "/my project" := by
  refine ⟨.uri "/my%20project" (by decide +kernel), ?_⟩
  intro h
  have hdir : directoryText "/my project" ≠ [] := by decide +kernel
  have hmatch := h "*.go" "/my project/a.go" fun hnil => absurd hnil hdir
  revert hmatch
  decide +kernel

/-- A spelling without percent signs has nothing to decode, and stands for its directory. -/
theorem standsFor_of_unescaped (hd : Path.isAbsolute d = true) (hu : Spells d u) (h : '%' ∉ u) :
    StandsFor u d := by
  rw [standsFor_iff_directoryText (hu.ne_nil hd), hu.directoryText_iff hd]
  rintro escaped rfl
  have hpath := hu.toPath_eq hd
  rw [toPath_fileScheme, percentDecode_of_not_mem] at hpath
  · rw [hpath]
  · exact fun hmem => h (List.mem_append_right _ hmem)

end WorkspaceLink.Glob
