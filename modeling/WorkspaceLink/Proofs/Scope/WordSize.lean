import WorkspaceLink.Proofs.Scope.Flattening
import WorkspaceLink.Proofs.Scope.Visibility
import WorkspaceLink.Proofs.Wire.Watching

/-! Which sums fit into machine words. Settings that pass their checks may still ask for so many
lines around a reference that adding them to its line wraps, and the lines of a scope may end at the
last coordinate, which has no successor. -/

namespace WorkspaceLink

/-- Whether symbols and references are at positions that can be sent. -/
structure PlacesFit (symbols : List DocumentSymbol) (references : List Position) : Prop where
  symbols : ∀ s ∈ DocumentSymbol.forestNodes symbols, s.range.start.Fits ∧ s.range.stop.Fits
  references : ∀ p ∈ references, p.Fits

namespace Settings

variable {s : Settings}

/-- Whether settings pass their checks if the sum in them is taken in machine words, where it may
wrap. -/
def PassesInWords (s : Settings) : Prop :=
  s.watch.openBatchSize ≠ 0 ∧ s.render.referencesPerLine ≠ 0 ∧
    (s.render.headLines + s.render.tailLines) % wordBound ≤ s.render.maxLines

theorem fault?_eq_none_iff : s.fault? = none ↔
    s.watch.openBatchSize ≠ 0 ∧ s.render.referencesPerLine ≠ 0 ∧
      s.render.headLines + s.render.tailLines ≤ s.render.maxLines := by
  rw [fault?]
  split
  · simp [*]
  split
  · simp [*]
  split
  · simp [*]
  next hsum => simp [*, Nat.le_of_not_lt hsum]

/-- Settings pass exactly if they pass in machine words and the sum does not wrap. -/
theorem passes_iff (hs : s.render.Fits) : s.fault? = none ↔
    s.PassesInWords ∧ s.render.headLines + s.render.tailLines < wordBound := by
  rw [fault?_eq_none_iff, PassesInWords]
  have hmax := hs.maxLines
  constructor
  · rintro ⟨hbatch, hchunk, hsum⟩
    have hword : s.render.headLines + s.render.tailLines < wordBound :=
      Nat.lt_of_le_of_lt hsum hmax
    rw [Nat.mod_eq_of_lt hword]
    exact ⟨⟨hbatch, hchunk, hsum⟩, hword⟩
  · rintro ⟨⟨hbatch, hchunk, hsum⟩, hword⟩
    rw [Nat.mod_eq_of_lt hword] at hsum
    exact ⟨hbatch, hchunk, hsum⟩

end Settings

namespace Scope

variable {symbols : List DocumentSymbol} {source : Option SourceText} {references : List Position}
  {settings : RenderSettings} {scope : Scope} {content : Text} {p : Position} {h n : ℕ}

/-! ### Lines around references -/

/-- Whether adding the lines around a reference to a reference's line in the text fits a word. -/
def WindowFits (settings : RenderSettings) (scope : Scope) : Prop :=
  ∀ h ∈ scope.highlights, h < scope.text.lines.length → h + settings.contextLines < wordBound

theorem highlight_lt (hscope : scope ∈ groupReferences symbols source references settings)
    (hplaces : PlacesFit symbols references) (hh : h ∈ scope.highlights) : h < coordBound := by
  obtain ⟨p, hp, hoffset⟩ := List.mem_filterMap.mp hh
  have hline : p.line < coordBound :=
    (hplaces.references p ((mem_references_iff hscope).mp hp).1).1
  split at hoffset
  · have heq := Option.some.inj hoffset
    omega
  · cases hoffset

/-- A symbol from the beginning of a text to line `n`. -/
def upTo (n : ℕ) : DocumentSymbol :=
  .leaf "main" .function ⟨⟨0, 0⟩, ⟨n, 0⟩⟩

theorem upTo_placesFit (hn : n < coordBound) (hp : p.Fits) : PlacesFit [upTo n] [p] := by
  have hzero : 0 < coordBound := by decide
  constructor
  · intro s hs
    rw [List.mem_singleton.mp hs]
    exact ⟨⟨hzero, hzero⟩, hn, hzero⟩
  · intro q hq
    rwa [List.mem_singleton.mp hq]

/-- The scope of a reference at the end of such a symbol. -/
def scopeUpTo (content : Text) (n : ℕ) : Scope :=
  ⟨⟨0, n⟩, .symbol "main" .function, textOfSymbol (some (.ofContent content)) (upTo n), [⟨n, 0⟩]⟩

theorem scopeUpTo_mem (content : Text) (settings : RenderSettings) (n : ℕ) :
    scopeUpTo content n ∈
      groupReferences [upTo n] (some (.ofContent content)) [⟨n, 0⟩] settings := by
  have hcontains : (upTo n).range.contains ⟨n, 0⟩ = true := by
    rw [Range.contains_iff, Position.le_def, Position.le_def]
    change (0 < n ∨ 0 = n ∧ 0 ≤ 0) ∧ (n < n ∨ n = n ∧ 0 ≤ 0)
    omega
  have henclosing : DocumentSymbol.enclosing? ⟨n, 0⟩ [upTo n] = some (upTo n) := by
    rw [DocumentSymbol.enclosing?, DocumentSymbol.enclosing?, DocumentSymbol.narrower?_none]
    exact if_pos hcontains
  have hscope : ofReference? [upTo n] (some (.ofContent content)) settings ⟨n, 0⟩ =
      some (scopeUpTo content n) := by
    rw [ofReference?, henclosing]
    rfl
  rw [groupReferences, List.filterMap_cons, hscope]
  exact List.mem_singleton_self _

theorem mem_highlights_scopeUpTo (content : Text) (n : ℕ) :
    n ∈ (scopeUpTo content n).highlights :=
  List.mem_singleton_self n

theorem length_lines_scopeUpTo (hn : n < (SourceText.ofContent content).lineCount) :
    (scopeUpTo content n).text.lines.length = n + 1 := by
  have htext : (SourceText.ofContent content).textOf (upTo n).range =
      .ok (Text.ofLines ((SourceText.ofContent content).excerpt (upTo n).range.cut 0 n)) :=
    SourceText.textOf_eq (Nat.zero_le n) hn
  have hlines := SourceText.lines_ofLines_excerpt (fun _ => newline_not_mem_ofContent)
    (upTo n).range.cut_subset (Nat.zero_le n) hn
  simp only [scopeUpTo, textOfSymbol, htext]
  rw [hlines, SourceText.excerpt, List.length_mapIdx, SourceText.length_slice hn, Nat.sub_zero]

/-- The lines around a reference can be added to its line, wherever it is, exactly if they leave
room in a word for any line. -/
theorem windowFits_iff : (∀ symbols references (content : Option Text),
      PlacesFit symbols references →
      ∀ scope ∈ groupReferences symbols (content.map .ofContent) references settings,
        scope.WindowFits settings) ↔
    settings.contextLines ≤ wordBound - coordBound := by
  have hbounds : coordBound ≤ wordBound := by decide
  constructor
  · intro hfits
    -- a reference on the last line that can be sent, in a text of empty lines
    have hlast : lastCoord < coordBound := by decide
    have hcount : lastCoord < (SourceText.ofContent (List.replicate lastCoord '\n')).lineCount := by
      rw [SourceText.lineCount, SourceText.ofContent, Text.normalizeNewlines_of_not_mem (by simp),
        Text.lines_replicate, List.length_replicate]
      exact Nat.lt_succ_self _
    have hplaces := upTo_placesFit (p := ⟨lastCoord, 0⟩) hlast ⟨hlast, Nat.zero_lt_of_lt hlast⟩
    have hshown : lastCoord <
        (scopeUpTo (List.replicate lastCoord '\n') lastCoord).text.lines.length := by
      rw [length_lines_scopeUpTo hcount]
      exact Nat.lt_succ_self _
    have hsum := hfits _ _ (some _) hplaces _ (scopeUpTo_mem _ settings lastCoord) lastCoord
      (mem_highlights_scopeUpTo _ _) hshown
    rw [lastCoord] at hsum
    omega
  · intro hcontext symbols references content hplaces scope hscope h hh _
    have hline := highlight_lt hscope hplaces hh
    omega

/-! ### Ends of scopes -/

/-- Whether the lines of a scope can be counted from one. -/
def HeaderFits (scope : Scope) : Prop :=
  scope.id.startLine + 1 < coordBound ∧ scope.id.endLine + 1 < coordBound

/-- Whether what a reference belongs to, the symbol around it or the window on the lines near it,
ends before the last coordinate. -/
structure EndsBefore (symbols : List DocumentSymbol) (source : Option SourceText)
    (settings : RenderSettings) (p : Position) : Prop where
  symbol : ∀ s, DocumentSymbol.enclosing? p symbols = some s → s.range.stop.line < lastCoord
  window : DocumentSymbol.enclosing? p symbols = none → ∀ t, source = some t →
    p.line < t.lineCount → t.windowEnd p.line settings.fallbackContextLines < lastCoord

theorem endsBefore_iff : EndsBefore symbols source settings p ↔
    ∀ id, key? symbols source settings p = some id → id.endLine < lastCoord := by
  rw [key?]
  constructor
  · rintro ⟨hsymbol, hwindow⟩ id hid
    cases henclosing : DocumentSymbol.enclosing? p symbols with
    | some s =>
      rw [henclosing] at hid
      rw [← Option.some.inj hid]
      exact hsymbol s henclosing
    | none =>
      rw [henclosing] at hid
      obtain ⟨t, ht, hid⟩ := Option.bind_eq_some_iff.mp hid
      split at hid
      · next hline =>
        rw [← Option.some.inj hid]
        exact hwindow henclosing t ht hline
      · cases hid
  · intro hid
    constructor
    · intro s henclosing
      rw [henclosing] at hid
      exact hid _ rfl
    · intro henclosing t ht hline
      rw [henclosing, ht, Option.bind_some, if_pos hline] at hid
      exact hid _ rfl

/-- All scopes have lines that can be counted exactly if what the references belong to ends before
the last coordinate. -/
theorem headerFits_iff :
    (∀ scope ∈ groupReferences symbols source references settings, scope.HeaderFits) ↔
      ∀ p ∈ references, EndsBefore symbols source settings p := by
  have hoccurs (id : ScopeId) :
      (∃ scope ∈ groupReferences symbols source references settings, scope.id = id) ↔
        ∃ p ∈ references, key? symbols source settings p = some id :=
    groupedBy_groupReferences.occurs id
  constructor
  · intro hfits p hp
    rw [endsBefore_iff]
    intro id hid
    obtain ⟨scope, hscope, rfl⟩ := (hoccurs id).mpr ⟨p, hp, hid⟩
    have hstop := (hfits scope hscope).2
    rw [lastCoord]
    omega
  · intro hends scope hscope
    obtain ⟨p, hp, hid⟩ := (hoccurs scope.id).mp ⟨scope, hscope, rfl⟩
    obtain ⟨hstart, hend⟩ := line_mem_key? hid
    have hstop := endsBefore_iff.mp (hends p hp) scope.id hid
    rw [lastCoord] at hstop
    rw [HeaderFits]
    omega

end Scope

/-- Settings pass their checks exactly if they pass in machine words and the sum in the checks fits
one. The lines around references can be added everywhere exactly if they leave room for any line.
The lines of a file's scopes can be counted from one exactly if what its references belong to ends
before the last coordinate. -/
theorem Settings.sums_fit {s : Settings} (hs : s.render.Fits) :
    (s.fault? = none ↔
      s.PassesInWords ∧ s.render.headLines + s.render.tailLines < wordBound) ∧
    ((∀ symbols references (content : Option Text), PlacesFit symbols references →
        ∀ scope ∈ groupReferences symbols (content.map .ofContent) references s.render,
          scope.WindowFits s.render) ↔
      s.render.contextLines ≤ wordBound - coordBound) ∧
    ∀ symbols source references,
      (∀ scope ∈ groupReferences symbols source references s.render, scope.HeaderFits) ↔
        ∀ p ∈ references, Scope.EndsBefore symbols source s.render p :=
  ⟨passes_iff hs, Scope.windowFits_iff, fun _ _ _ => Scope.headerFits_iff⟩

theorem Settings.default_sums_fit : Settings.default.render.Fits ∧
    ∀ symbols references (content : Option Text), PlacesFit symbols references →
      ∀ scope ∈ groupReferences symbols (content.map .ofContent) references
        Settings.default.render, scope.WindowFits Settings.default.render := by
  have hfits : Settings.default.render.Fits := RenderSettings.default_fits
  have hroom : Settings.default.render.contextLines ≤ wordBound - coordBound := by
    decide
  exact ⟨hfits, (sums_fit hfits).2.1.mpr hroom⟩

/-- Settings by which all lines around a reference are shown. -/
def wideContext : Settings :=
  { Settings.default with
    render := { RenderSettings.default with
      maxLines := 0, headLines := 0, tailLines := 0, contextLines := wordBound - 1 } }

theorem wideContext_fits : wideContext.render.Fits := by
  constructor <;> decide

/-- With settings that pass, the last line around a reference has no place in a word, and with the
default settings the last line of a symbol that goes on to the last coordinate has no number. -/
theorem wideContext_wraps :
    (wideContext.render.Fits ∧ wideContext.fault? = none ∧ PlacesFit [Scope.upTo 1] [⟨1, 0⟩] ∧
      ∃ scope ∈ groupReferences [Scope.upTo 1] (some (.ofContent "a\nb")) [⟨1, 0⟩]
        wideContext.render, ¬scope.WindowFits wideContext.render) ∧
    (Settings.default.render.Fits ∧ Settings.default.fault? = none ∧
      PlacesFit [Scope.upTo lastCoord] [⟨0, 0⟩] ∧
      ∃ scope ∈ groupReferences [Scope.upTo lastCoord] (some (.ofContent "a\nb")) [⟨0, 0⟩]
        Settings.default.render, ¬scope.HeaderFits) := by
  constructor
  · have hplaces : PlacesFit [Scope.upTo 1] [⟨1, 0⟩] :=
      Scope.upTo_placesFit (by decide) (by decide)
    refine ⟨wideContext_fits, by decide, hplaces, _, Scope.scopeUpTo_mem _ _ _, fun hfits => ?_⟩
    have hsum := hfits 1 (Scope.mem_highlights_scopeUpTo _ _) (by decide +kernel)
    revert hsum
    decide
  · have hplaces : PlacesFit [Scope.upTo lastCoord] [⟨0, 0⟩] :=
      Scope.upTo_placesFit (by decide) (by decide)
    have hscopes : groupReferences [Scope.upTo lastCoord] (some (.ofContent "a\nb")) [⟨0, 0⟩]
        Settings.default.render = [⟨⟨0, lastCoord⟩, .symbol "main" .function,
          "Error fetching text for symbol 'main'", [⟨0, 0⟩]⟩] := by
      decide +kernel
    rw [hscopes]
    refine ⟨RenderSettings.default_fits, by decide, hplaces, _, List.mem_singleton_self _, ?_⟩
    intro hfits
    exact Nat.lt_irrefl coordBound hfits.2

end WorkspaceLink
