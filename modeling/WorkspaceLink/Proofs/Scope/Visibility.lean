import WorkspaceLink.Proofs.Scope.Conservation
import WorkspaceLink.Proofs.Scope.Enclosing
import WorkspaceLink.Proofs.Scope.Window

/-! No reference is hidden by the window on its scope, and the lines that the window shows are those
of the file, under the file's numbers. -/

namespace WorkspaceLink.Scope

/-- A symbol whose name, kind and lines a scope has, the one around the scope's first reference. -/
structure IsOf (symbols : List DocumentSymbol) (scope : Scope) (symbol : DocumentSymbol) : Prop where
  first : ∃ p, scope.references.head? = some p ∧
    DocumentSymbol.enclosing? p symbols = some symbol
  kind : scope.kind = .symbol symbol.name symbol.kind
  id : scope.id = .ofRange symbol.range

/-- Whether the text of a scope comes from the source: that of a symbol does if the symbol ends
before the source does. -/
def HasText (source : SourceText) (scope : Scope) : Prop :=
  match scope.kind with
  | .context _ => True
  | .symbol _ _ => scope.id.endLine < source.lineCount

/-- What a window shows of a scope. Each reference has the one entry of its line, which is
highlighted, and no other line is. Entries are lines of the source under their numbers, those of a
symbol cut where it starts and where it ends. -/
structure VisibleIn (symbols : List DocumentSymbol) (source : SourceText) (scope : Scope)
    (window : List RenderedLine) : Prop where
  once : ∀ p ∈ scope.references, ∃ text,
    window.filter (RenderedLine.isNumbered (p.line + 1)) = [.code text (p.line + 1) true]
  highlighted : ∀ text n marked, .code text n marked ∈ window →
    (marked = true ↔ ∃ p ∈ scope.references, n = p.line + 1)
  whole : ∀ anchor, scope.kind = .context anchor →
    ∀ text n marked, .code text n marked ∈ window →
      ∃ line, n = line + 1 ∧ source.line? line = some text
  cut : ∀ name kind, scope.kind = .symbol name kind → ∃ symbol, IsOf symbols scope symbol ∧
    ∀ text n marked, .code text n marked ∈ window →
      ∃ line l, n = line + 1 ∧ source.line? line = some l ∧ text = symbol.range.cut line l

variable {symbols : List DocumentSymbol} {source : SourceText} {content : Text}
  {references : List Position} {settings : RenderSettings} {scope : Scope} {p : Position}
  {cut : Nat → Text → Text} {marked : Bool} {text : Text} {n line : Nat}

theorem newline_not_mem_ofContent {l : Text} (h : l ∈ (SourceText.ofContent content).lines) :
    '\n' ∉ l :=
  Text.not_mem_of_mem_splitOn h

/-! ### References and their lines -/

theorem line_mem_key? {file : Option SourceText} {id : ScopeId}
    (hkey : key? symbols file settings p = some id) :
    id.startLine ≤ p.line ∧ p.line ≤ id.endLine := by
  unfold key? at hkey
  cases henclosing : DocumentSymbol.enclosing? p symbols with
  | some symbol =>
    rw [henclosing] at hkey
    rw [← Option.some.inj hkey]
    have hrange := DocumentSymbol.contains_of_enclosing? henclosing
    rw [Range.contains_iff, Position.le_def, Position.le_def] at hrange
    dsimp only
    omega
  | none =>
    simp only [henclosing] at hkey
    obtain ⟨source, -, hkey⟩ := Option.bind_eq_some_iff.mp hkey
    split at hkey
    · next hline =>
      have hafter := le_coordAfter p.line settings.fallbackContextLines
      rw [← Option.some.inj hkey]
      dsimp only
      omega
    · cases hkey

/-- A reference lies between the first line and the last of its scope. -/
theorem line_mem_scope
    (hscope : scope ∈ groupReferences symbols (some source) references settings)
    (hp : p ∈ scope.references) : scope.id.startLine ≤ p.line ∧ p.line ≤ scope.id.endLine := by
  rw [groupedBy_groupReferences.exact scope hscope] at hp
  exact line_mem_key? (of_decide_eq_true (List.mem_filter.mp hp).2)

theorem mem_highlights_iff
    (hscope : scope ∈ groupReferences symbols (some source) references settings)
    (hline : scope.id.startLine ≤ line) :
    line - scope.id.startLine ∈ scope.highlights ↔ ∃ p ∈ scope.references, p.line = line := by
  rw [highlights, List.mem_filterMap]
  constructor
  · rintro ⟨p, hp, hoffset⟩
    obtain ⟨hstart, -⟩ := line_mem_scope hscope hp
    rw [if_pos hstart] at hoffset
    have hoffset := Option.some.inj hoffset
    exact ⟨p, hp, by omega⟩
  · rintro ⟨p, hp, rfl⟩
    exact ⟨p, hp, if_pos hline⟩

/-! ### Texts of scopes -/

/-- The text of a scope, if it comes from the source, is an excerpt of its lines, uncut unless the
scope is that of a symbol. -/
theorem exists_excerpt
    (hscope : scope ∈ groupReferences symbols (some source) references settings)
    (htext : HasText source scope) : ∃ cut : Nat → Text → Text,
      scope.text = Text.ofLines (source.excerpt cut scope.id.startLine scope.id.endLine) ∧
      scope.id.endLine < source.lineCount ∧
      ((∃ anchor, scope.kind = .context anchor ∧ cut = fun _ l => l) ∨
        ∃ symbol, IsOf symbols scope symbol ∧ cut = symbol.range.cut) := by
  -- the first reference gives the scope its shape
  obtain ⟨p, hp, s, hs, hid, hkind, hshown⟩ := exists_first hscope
  have hmem : p ∈ scope.references := List.mem_of_head? hp
  obtain ⟨hstart, hend⟩ := line_mem_scope hscope hmem
  unfold ofReference? at hs
  cases henclosing : DocumentSymbol.enclosing? p symbols with
  | some symbol =>
    rw [henclosing] at hs
    obtain rfl := Option.some.inj hs
    have hlast : scope.id.endLine < source.lineCount := by rwa [HasText, hkind] at htext
    have hlines : scope.id = .ofRange symbol.range := hid
    refine ⟨symbol.range.cut, ?_, hlast, .inr ⟨symbol, ⟨⟨p, hp, henclosing⟩, hkind, hid⟩, rfl⟩⟩
    rw [hlines] at hstart hend hlast ⊢
    have hsymbol := SourceText.textOf_eq (Nat.le_trans hstart hend) hlast
    rw [hshown]
    simp only [textOfSymbol, hsymbol]
    rfl
  | none =>
    rw [henclosing] at hs
    by_cases hline : p.line < source.lineCount
    · obtain ⟨stop, hwindow⟩ := SourceText.contextWindow_of_lt hline settings.fallbackContextLines
      simp only [hwindow] at hs
      obtain rfl := Option.some.inj hs
      have hlast := SourceText.windowEnd_lt hline settings.fallbackContextLines
      refine ⟨fun _ l => l, ?_, ?_, .inl ⟨p.line, hkind, rfl⟩⟩
      · rw [SourceText.excerpt_whole, hshown, hid]
        rfl
      · rw [hid]
        exact hlast
    · simp only [SourceText.contextWindow_of_le (Nat.le_of_not_lt hline)] at hs
      cases hs

/-! ### Windows -/

theorem exists_line_of_mem_window (hcount : source.lineCount < lastCoord)
    (hlines : scope.text.lines = source.excerpt cut scope.id.startLine scope.id.endLine)
    (hmem : .code text n marked ∈
      Window.render settings scope.text (scope.id.startLine + 1) scope.highlights) :
    ∃ line l, scope.id.startLine ≤ line ∧ n = line + 1 ∧ source.line? line = some l ∧
      text = cut line l ∧ marked = scope.highlights.contains (line - scope.id.startLine) := by
  obtain ⟨i, hi, -, hn, hmarked⟩ := Window.mem_render_iff.mp hmem
  rw [hlines, SourceText.getElem?_excerpt] at hi
  split at hi
  · obtain ⟨l, hl, rfl⟩ := Option.map_eq_some_iff.mp hi
    obtain ⟨hlt, -⟩ := List.getElem?_eq_some_iff.mp hl
    rw [SourceText.lineCount] at hcount
    refine ⟨scope.id.startLine + i, l, Nat.le_add_right _ _, by omega, hl, rfl, ?_⟩
    rw [hmarked, Nat.add_sub_cancel_left]
  · cases hi

theorem filter_window (hcount : source.lineCount < lastCoord)
    (hlast : scope.id.endLine < source.lineCount)
    (hlines : scope.text.lines = source.excerpt cut scope.id.startLine scope.id.endLine)
    (hscope : scope ∈ groupReferences symbols (some source) references settings)
    (hp : p ∈ scope.references) : ∃ text,
      (Window.render settings scope.text (scope.id.startLine + 1) scope.highlights).filter
        (RenderedLine.isNumbered (p.line + 1)) = [.code text (p.line + 1) true] := by
  obtain ⟨hstart, hend⟩ := line_mem_scope hscope hp
  obtain ⟨l, hl⟩ := SourceText.exists_line (Nat.lt_of_le_of_lt hend hlast)
  have hoffset : scope.id.startLine + (p.line - scope.id.startLine) = p.line := by omega
  have hnumber : p.line + 1 = scope.id.startLine + 1 + (p.line - scope.id.startLine) := by omega
  have hshown : scope.text.lines[p.line - scope.id.startLine]? = some (cut p.line l) := by
    rw [hlines, SourceText.getElem?_excerpt, hoffset, if_pos hend, hl]
    rfl
  refine ⟨cut p.line l, ?_⟩
  rw [hnumber]
  exact Window.filter_render hshown ((mem_highlights_iff hscope hstart).mpr ⟨p, hp, rfl⟩) (by omega)

/-- In a source whose lines can be counted, the window on every scope that has its text shows all
references of the scope, and the lines of the source under their numbers. -/
theorem groupReferences_visible
    (hcount : (SourceText.ofContent content).lineCount < lastCoord)
    (hscope : scope ∈ groupReferences symbols (some (.ofContent content)) references settings)
    (htext : HasText (.ofContent content) scope) :
    VisibleIn symbols (.ofContent content) scope
      (Window.render settings scope.text (scope.id.startLine + 1) scope.highlights) := by
  obtain ⟨cut, hexcerpt, hlast, hshape⟩ := exists_excerpt hscope htext
  obtain ⟨first, hfirst, -⟩ := exists_first hscope
  obtain ⟨hstart, hend⟩ := line_mem_scope hscope (List.mem_of_head? hfirst)
  have hcut : ∀ n l, cut n l ⊆ l := by
    rcases hshape with ⟨-, -, rfl⟩ | ⟨symbol, -, rfl⟩
    · exact fun _ _ => List.Subset.refl _
    · exact symbol.range.cut_subset
  -- rendering cuts the text into the lines that it was put together from
  have hlines : scope.text.lines =
      (SourceText.ofContent content).excerpt cut scope.id.startLine scope.id.endLine := by
    rw [hexcerpt]
    exact SourceText.lines_ofLines_excerpt (fun _ => newline_not_mem_ofContent) hcut
      (Nat.le_trans hstart hend) hlast
  constructor
  · exact fun p hp => filter_window hcount hlast hlines hscope hp
  · intro text n marked hmem
    obtain ⟨line, l, hline, rfl, -, -, rfl⟩ := exists_line_of_mem_window hcount hlines hmem
    rw [List.contains_iff_mem, mem_highlights_iff hscope hline]
    simp only [Nat.add_right_cancel_iff, eq_comm]
  · intro anchor hkind text n marked hmem
    obtain ⟨line, l, -, hn, hl, rfl, -⟩ := exists_line_of_mem_window hcount hlines hmem
    rcases hshape with ⟨-, -, rfl⟩ | ⟨symbol, hsymbol, -⟩
    · exact ⟨line, hn, hl⟩
    · rw [hsymbol.kind] at hkind
      cases hkind
  · intro name kind hkind
    rcases hshape with ⟨anchor, hanchor, -⟩ | ⟨symbol, hsymbol, rfl⟩
    · rw [hanchor] at hkind
      cases hkind
    · refine ⟨symbol, hsymbol, fun text n marked hmem => ?_⟩
      obtain ⟨line, l, -, hn, hl, htext, -⟩ := exists_line_of_mem_window hcount hlines hmem
      exact ⟨line, l, hn, hl, htext⟩

def mainContent : Text := "import x\nfunc main() \x7b\n  a\n  b\n  c\n  d\n\x7d"

/-- A function of which only the first line, the last and those with references are shown. -/
def mainSymbols : List DocumentSymbol :=
  [.leaf "main" .function ⟨⟨1, 5⟩, ⟨6, 1⟩⟩]

def shortWindows : RenderSettings :=
  { RenderSettings.default with maxLines := 3, headLines := 1, tailLines := 1, contextLines := 0 }

def mainScope : Scope :=
  ⟨⟨1, 6⟩, .symbol "main" .function, "main() \x7b\n  a\n  b\n  c\n  d\n\x7d", [⟨4, 2⟩, ⟨4, 0⟩]⟩

theorem mainScope_visible : (SourceText.ofContent mainContent).lineCount < lastCoord ∧
    mainScope ∈ groupReferences mainSymbols (some (.ofContent mainContent))
      [⟨4, 2⟩, ⟨0, 7⟩, ⟨4, 0⟩] shortWindows ∧
    HasText (.ofContent mainContent) mainScope ∧
    VisibleIn mainSymbols (.ofContent mainContent) mainScope
      (Window.render shortWindows mainScope.text 2 mainScope.highlights) := by
  have hcount : (SourceText.ofContent mainContent).lineCount < lastCoord := by decide +kernel
  have hscope : mainScope ∈ groupReferences mainSymbols (some (.ofContent mainContent))
      [⟨4, 2⟩, ⟨0, 7⟩, ⟨4, 0⟩] shortWindows := by
    decide +kernel
  have htext : HasText (.ofContent mainContent) mainScope := by
    change 6 < (SourceText.ofContent mainContent).lineCount
    decide +kernel
  exact ⟨hcount, hscope, htext, groupReferences_visible hcount hscope htext⟩

/-- Lines between those that are shown leave a mark. -/
example : Window.render shortWindows mainScope.text 2 mainScope.highlights =
    [.code "main() \x7b" 2 false, .skipped 2, .code "  c" 5 true, .skipped 1,
      .code "\x7d" 7 false] := by
  decide +kernel

end WorkspaceLink.Scope
