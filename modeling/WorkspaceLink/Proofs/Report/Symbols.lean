import WorkspaceLink.Proofs.Scope.Flattening
import WorkspaceLink.Proofs.Text.Cuts
import WorkspaceLink.Proofs.Text.Decimal
import WorkspaceLink.Report.Symbols

/-! What can be read off a listing of symbols. Two forests are listed as the same text exactly if
they have the same shape and their symbols the same kinds, names and lines. Names may look like
anything else on a line: what stands before and after them is told apart from both ends, and the
indentation of a line tells which symbol it is nested in. -/

namespace WorkspaceLink

open Text

theorem SymbolKind.not_mem_name (kind : SymbolKind) : ']' ∉ kind.name := by
  have hnamed : ∀ entry ∈ named, ']' ∉ entry.2.toList := by decide
  rw [name]
  cases hlookup : named.lookup kind with
  | none => decide
  | some s =>
    obtain ⟨front, back, hsplit, -⟩ := List.lookup_eq_some_iff.mp hlookup
    exact hnamed (kind, s) (hsplit ▸ List.mem_append_right front List.mem_cons_self)

namespace DocumentSymbol

mutual

/-- Whether two symbols are of the same kind by name, have the same name and the same lines, and
have nested in them forests that are alike. -/
def Alike : DocumentSymbol → DocumentSymbol → Prop
  | ⟨name, _, kind, range, _, children⟩, ⟨name', _, kind', range', _, children'⟩ =>
    (kind.name = kind'.name ∧ name = name' ∧
      range.start.line = range'.start.line ∧ range.stop.line = range'.stop.line) ∧
    ForestsAlike children children'

/-- Whether two forests have the same shape and symbols alike. -/
def ForestsAlike : List DocumentSymbol → List DocumentSymbol → Prop
  | [], [] => True
  | [], _ :: _ => False
  | _ :: _, [] => False
  | s :: ss, t :: ts => Alike s t ∧ ForestsAlike ss ts

end

end DocumentSymbol

namespace SymbolsReport

variable {name name' rest rest' s t : Text} {kind kind' : SymbolKind} {range range' : Range}
  {m n : ℕ}

/-! ### Lines -/

/-- What the note on a symbol's lines says in its brackets. -/
def lineNote (range : Range) : Text :=
  if range.start.line = range.stop.line then "Line " ++ (ofNat (range.start.line + 1) ++ ")")
  else "Lines " ++ (ofNat (range.start.line + 1) ++ '-' :: (ofNat (range.stop.line + 1) ++ ")"))

theorem lineSuffix_eq (range : Range) : lineSuffix range = [' '] ++ '(' :: lineNote range := by
  rw [lineSuffix, lineNote]
  split <;> simp

theorem not_mem_lineNote {c : Char} (hdigit : c.isDigit = false) (hc : c ∉ "Lines -)".toList)
    (range : Range) : c ∉ lineNote range := by
  have hnumber := not_mem_ofNat hdigit
  simp only [String.reduceToList, List.mem_cons, List.not_mem_nil, or_false, not_or] at hc
  rw [lineNote]
  split <;> simp [hnumber, hc]

theorem lineNote_inj : lineNote range = lineNote range' ↔
    range.start.line = range'.start.line ∧ range.stop.line = range'.stop.line := by
  have hmark (s t : Text) : "Line ".toList ++ s ≠ "Lines ".toList ++ t := by
    simp
  have hdash := not_mem_ofNat (c := '-') (by decide)
  rw [lineNote, lineNote]
  split
  · next hone =>
    split
    · next hone' =>
      rw [List.append_right_inj, List.append_left_inj, ofNat_inj]
      omega
    · next hmany' => exact iff_of_false (hmark _ _) (by omega)
  · next hmany =>
    split
    · next hone' => exact iff_of_false (hmark _ _).symm (by omega)
    · next hmany' =>
      rw [List.append_right_inj, append_cons_inj (hdash _) (hdash _), List.append_left_inj,
        ofNat_inj, ofNat_inj, Nat.add_right_cancel_iff, Nat.add_right_cancel_iff]

/-- A name and a note on lines can be told apart: the note has the last bracket that opens. -/
theorem name_lineSuffix_inj : name ++ lineSuffix range = name' ++ lineSuffix range' ↔
    name = name' ∧ range.start.line = range'.start.line ∧ range.stop.line = range'.stop.line := by
  have hbracket (range : Range) : '(' ∉ lineNote range :=
    not_mem_lineNote (by decide) (by decide) range
  rw [lineSuffix_eq, lineSuffix_eq, ← List.append_assoc, ← List.append_assoc,
    append_cons_inj_last (hbracket range) (hbracket range'), List.append_left_inj, lineNote_inj]

theorem symbolLine_eq : symbolLine true n name kind range ++ rest = List.replicate (2 * n) ' ' ++
    '[' :: (kind.name ++ ']' :: ' ' :: (name ++ lineSuffix range ++ '\n' :: rest)) := by
  simp [symbolLine, SymbolKind.label]

theorem not_mem_name_lineSuffix (h : '\n' ∉ name) (range : Range) :
    '\n' ∉ name ++ lineSuffix range := by
  have hnote : '\n' ∉ lineNote range := not_mem_lineNote (by decide) (by decide) range
  simp [lineSuffix_eq, h, hnote]

theorem symbolLine_append_inj (h : '\n' ∉ name) (h' : '\n' ∉ name') :
    symbolLine true n name kind range ++ rest = symbolLine true n name' kind' range' ++ rest' ↔
      (kind.name = kind'.name ∧ name = name' ∧ range.start.line = range'.start.line ∧
        range.stop.line = range'.stop.line) ∧ rest = rest' := by
  rw [symbolLine_eq, symbolLine_eq, List.append_right_inj, List.cons_inj_right,
    append_cons_inj kind.not_mem_name kind'.not_mem_name, List.cons_inj_right,
    append_cons_inj (not_mem_name_lineSuffix h range) (not_mem_name_lineSuffix h' range'),
    name_lineSuffix_inj]
  simp only [and_assoc]

/-! ### Forests -/

theorem indent_inj :
    List.replicate m ' ' ++ '[' :: s = List.replicate n ' ' ++ '[' :: t ↔ m = n ∧ s = t := by
  have hblank (k : ℕ) : '[' ∉ List.replicate k ' ' := by
    simp [List.mem_replicate]
  rw [append_cons_inj (hblank m) (hblank n), List.replicate_left_inj]

theorem treeText_eq (n : ℕ) (symbol : DocumentSymbol) (rest : Text) :
    ∃ s, treeText true n symbol ++ rest = List.replicate (2 * n) ' ' ++ '[' :: s := by
  obtain ⟨name, detail, kind, range, selectionRange, children⟩ := symbol
  rw [treeText, List.append_assoc, symbolLine_eq]
  exact ⟨_, rfl⟩

/-- Whether a text is what may follow the lines of symbols nested `n` deep: nothing, or a line that
is indented less. -/
def StartsAbove (n : ℕ) (rest : Text) : Prop :=
  rest = [] ∨ ∃ m < n, ∃ s, rest = List.replicate (2 * m) ' ' ++ '[' :: s

theorem StartsAbove.ne_treeText (h : StartsAbove n rest) (symbol : DocumentSymbol) (t : Text) :
    rest ≠ treeText true n symbol ++ t := by
  obtain ⟨s, hs⟩ := treeText_eq n symbol t
  rw [hs]
  rcases h with rfl | ⟨m, hm, t, rfl⟩
  · simp
  · rw [ne_eq, indent_inj]
    omega

theorem StartsAbove.forestText_append (h : StartsAbove n rest) (forest : List DocumentSymbol) :
    StartsAbove (n + 1) (forestText true n forest ++ rest) := by
  cases forest with
  | nil =>
    rcases h with rfl | ⟨m, hm, s, rfl⟩
    · exact .inl rfl
    · exact .inr ⟨m, Nat.lt_succ_of_lt hm, s, rfl⟩
  | cons symbol forest =>
    obtain ⟨s, hs⟩ := treeText_eq n symbol (forestText true n forest ++ rest)
    rw [forestText, List.append_assoc, hs]
    exact .inr ⟨n, Nat.lt_succ_self n, s, rfl⟩

/-- Whether no symbol among some has a name of several lines. -/
def NamesOnLines (symbols : List DocumentSymbol) : Prop :=
  ∀ s ∈ symbols, '\n' ∉ s.name

instance : DecidablePred NamesOnLines :=
  fun symbols => inferInstanceAs (Decidable (∀ s ∈ symbols, '\n' ∉ s.name))

mutual

theorem treeText_append_inj : ∀ {a b : DocumentSymbol} {n : ℕ} {rest rest' : Text},
    NamesOnLines a.nodes → NamesOnLines b.nodes → StartsAbove (n + 1) rest →
    StartsAbove (n + 1) rest' →
      (treeText true n a ++ rest = treeText true n b ++ rest' ↔ a.Alike b ∧ rest = rest')
  | ⟨name, _, kind, range, _, children⟩, ⟨name', _, kind', range', _, children'⟩, n, rest, rest',
      ha, hb, hrest, hrest' => by
    rw [DocumentSymbol.nodes] at ha hb
    obtain ⟨hname, hbelow⟩ := List.forall_mem_cons.mp ha
    obtain ⟨hname', hbelow'⟩ := List.forall_mem_cons.mp hb
    rw [treeText, treeText, List.append_assoc, List.append_assoc,
      symbolLine_append_inj hname hname', forestText_append_inj hbelow hbelow' hrest hrest',
      DocumentSymbol.Alike]
    exact and_assoc.symm

/-- Where the lines of a forest end is told by the indentation of what follows. -/
theorem forestText_append_inj : ∀ {a b : List DocumentSymbol} {n : ℕ} {rest rest' : Text},
    NamesOnLines (DocumentSymbol.forestNodes a) → NamesOnLines (DocumentSymbol.forestNodes b) →
    StartsAbove n rest → StartsAbove n rest' →
      (forestText true n a ++ rest = forestText true n b ++ rest' ↔
        DocumentSymbol.ForestsAlike a b ∧ rest = rest')
  | [], [], n, rest, rest', _, _, _, _ => by
    rw [forestText, List.nil_append, List.nil_append, DocumentSymbol.ForestsAlike, true_and]
  | [], t :: ts, n, rest, rest', _, _, hrest, _ => by
    rw [forestText, forestText, List.nil_append, List.append_assoc, DocumentSymbol.ForestsAlike,
      false_and, iff_false]
    exact hrest.ne_treeText t _
  | s :: ss, [], n, rest, rest', _, _, _, hrest' => by
    rw [forestText, forestText, List.nil_append, List.append_assoc, DocumentSymbol.ForestsAlike,
      false_and, iff_false]
    exact (hrest'.ne_treeText s _).symm
  | s :: ss, t :: ts, n, rest, rest', ha, hb, hrest, hrest' => by
    rw [DocumentSymbol.forestNodes] at ha hb
    obtain ⟨hfirst, hothers⟩ := List.forall_mem_append.mp ha
    obtain ⟨hfirst', hothers'⟩ := List.forall_mem_append.mp hb
    rw [forestText, forestText, List.append_assoc, List.append_assoc,
      treeText_append_inj hfirst hfirst' (hrest.forestText_append ss) (hrest'.forestText_append ts),
      forestText_append_inj hothers hothers' hrest hrest', DocumentSymbol.ForestsAlike, and_assoc]

end

/-- Two forests are listed as the same text exactly if they have the same shape and, symbol by
symbol, the same kinds, names and lines. -/
theorem forestText_eq_iff {a b : List DocumentSymbol}
    (ha : NamesOnLines (DocumentSymbol.forestNodes a))
    (hb : NamesOnLines (DocumentSymbol.forestNodes b)) :
    forestText true 0 a = forestText true 0 b ↔ DocumentSymbol.ForestsAlike a b := by
  have hinj := forestText_append_inj (n := 0) ha hb (.inl rfl) (.inl rfl)
  rwa [List.append_nil, List.append_nil, and_iff_left rfl] at hinj

/-- A function named as if its lines were noted twice, of a kind without a name, with a class in it
that is named as an indented label. -/
def imitations (number column : ℕ) : List DocumentSymbol :=
  [{ DocumentSymbol.leaf "f (Line 3)" (.unknown number) ⟨⟨2, column⟩, ⟨8, column⟩⟩ with
      children := [.leaf "  [Class] g" .class ⟨⟨4, column⟩, ⟨4, 80⟩⟩] }]

theorem imitations_forestText : NamesOnLines (DocumentSymbol.forestNodes (imitations 27 0)) ∧
    NamesOnLines (DocumentSymbol.forestNodes (imitations 99 4)) ∧
    forestText true 0 (imitations 27 0) = forestText true 0 (imitations 99 4) := by
  have hnames : NamesOnLines (DocumentSymbol.forestNodes (imitations 27 0)) := by
    decide +kernel
  have hnames' : NamesOnLines (DocumentSymbol.forestNodes (imitations 99 4)) := by
    decide +kernel
  refine ⟨hnames, hnames', (forestText_eq_iff hnames hnames').mpr ?_⟩
  have hunknown : (SymbolKind.unknown 27).name = (SymbolKind.unknown 99).name := by
    decide
  simp [imitations, DocumentSymbol.leaf, DocumentSymbol.ForestsAlike, DocumentSymbol.Alike,
    hunknown]

end SymbolsReport

end WorkspaceLink
