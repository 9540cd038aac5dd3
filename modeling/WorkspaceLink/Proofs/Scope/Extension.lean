import WorkspaceLink.Proofs.Scope.Brackets
import WorkspaceLink.Proofs.Scope.Lines

/-! Extension of a range to a closing bracket is by the grammar of brackets, wherever the lines of
the source end: it stops where the grammar says, and it stops nowhere else. -/

namespace WorkspaceLink

namespace Bracket

variable {next : Char} {rest : List Char} {l t : Text} {ls : List Text} {n : Nat} {p : Position}

/-- In lines with numbers from `n` on, the characters up to a place are `t`, and the last of them
stands just before it. -/
def EndsAt (n : Nat) (ls : List Text) (t : Text) (p : Position) : Prop :=
  ∃ before l after, ls = before ++ l :: after ∧ p.line = n + before.length ∧ 0 < p.character ∧
    p.character ≤ l.length ∧ before.flatten ++ l.take p.character = t

theorem endsAt_cons_iff : EndsAt n (l :: ls) t p ↔
    (p.line = n ∧ 0 < p.character ∧ p.character ≤ l.length ∧ l.take p.character = t) ∨
      ∃ u, t = l ++ u ∧ EndsAt (n + 1) ls u p := by
  constructor
  · rintro ⟨before, l', after, heq, hline, hpos, hle, ht⟩
    cases before with
    | nil =>
      obtain ⟨rfl, rfl⟩ := List.cons_eq_cons.mp heq
      exact .inl ⟨hline, hpos, hle, ht⟩
    | cons first before =>
      obtain ⟨rfl, rfl⟩ := List.cons_eq_cons.mp heq
      rw [List.flatten_cons, List.append_assoc] at ht
      rw [List.length_cons] at hline
      exact .inr ⟨_, ht.symm, before, l', after, rfl, by omega, hpos, hle, rfl⟩
  · rintro (⟨hline, hpos, hle, ht⟩ | ⟨u, rfl, before, l', after, rfl, hline, hpos, hle, rfl⟩)
    · exact ⟨[], l, ls, rfl, hline, hpos, hle, ht⟩
    · refine ⟨l :: before, l', after, rfl, ?_, hpos, hle, ?_⟩
      · rw [List.length_cons]
        omega
      · rw [List.flatten_cons, List.append_assoc]

theorem prefix_of_endsAt (h : EndsAt n ls t p) : t <+: ls.flatten := by
  obtain ⟨before, l, after, rfl, -, -, -, rfl⟩ := h
  rw [List.flatten_append, List.flatten_cons, List.prefix_append_right_inj]
  exact (List.take_prefix _ l).trans (List.prefix_append l _)

theorem ne_nil_of_endsAt (h : EndsAt n ls t p) : t ≠ [] := by
  obtain ⟨before, l, after, -, -, hpos, hle, rfl⟩ := h
  refine List.append_ne_nil_of_right_ne_nil _ (List.ne_nil_of_length_pos ?_)
  rw [List.length_take]
  omega

theorem exists_endsAt (ht : t ≠ []) (hbegins : t <+: ls.flatten) : ∃ p, EndsAt n ls t p := by
  induction ls generalizing n t with
  | nil => exact absurd (List.prefix_nil.mp hbegins) ht
  | cons l ls ih =>
    simp only [endsAt_cons_iff]
    rw [List.flatten_cons] at hbegins
    by_cases hle : t.length ≤ l.length
    · have htake : l.take t.length = t :=
        (List.prefix_iff_eq_take.mp (List.prefix_of_prefix_length_le hbegins
          (List.prefix_append l _) hle)).symm
      exact ⟨⟨n, t.length⟩, .inl ⟨rfl, List.length_pos_iff.mpr ht, hle, htake⟩⟩
    · obtain ⟨u, rfl⟩ := List.prefix_of_prefix_length_le (List.prefix_append l _) hbegins
        (Nat.le_of_not_le hle)
      have hu : u ≠ [] := by
        rintro rfl
        simp at hle
      obtain ⟨p, hp⟩ := ih hu ((List.prefix_append_right_inj l).mp hbegins)
      exact ⟨p, .inr ⟨u, rfl, hp⟩⟩

/-- The scan of lines stops just past the character that empties the stack, and at none if the
lines have no such character. -/
theorem closeInLines_eq_some_iff (hclosers : ∀ closer ∈ next :: rest, IsCloser closer) :
    closeInLines next rest n ls = some p ↔ ∃ t, EndsAt n ls t p ∧ Closes (next :: rest) t := by
  induction ls generalizing next rest n with
  | nil => simp [closeInLines, EndsAt]
  | cons l ls ih =>
    rw [closeInLines]
    simp only [endsAt_cons_iff]
    split
    · next column hline =>
      obtain ⟨k, hk, rfl, hcloses⟩ := (closeInLine_eq_inl_iff hclosers).mp hline
      constructor
      · intro heq
        obtain rfl := Option.some.inj heq
        have hpos : 0 < k := by
          refine Nat.pos_of_ne_zero fun hzero => ?_
          rw [hzero] at hcloses
          exact not_closes_nil hcloses
        rw [Nat.zero_add]
        exact ⟨l.take k, .inl ⟨rfl, hpos, hk, rfl⟩, hcloses⟩
      · rintro ⟨t, ⟨hn, -, hle, rfl⟩ | ⟨u, rfl, hu⟩, ht⟩
        · have hstop : closeInLine next rest 0 l = .inl (0 + p.character) :=
            (closeInLine_eq_inl_iff hclosers).mpr ⟨_, hle, rfl, ht⟩
          rw [Sum.inl.inj (hline.symm.trans hstop), Nat.zero_add, ← hn]
        · -- the stack is empty before the end of the line
          have hsplit : l ++ u = l.take k ++ (l.drop k ++ u) := by
            rw [← List.append_assoc, List.take_append_drop]
          rw [hsplit] at ht
          exact absurd (List.append_eq_nil_iff.mp (eq_nil_of_closes_append hcloses ht)).2
            (ne_nil_of_endsAt hu)
    · next next' rest' hline =>
      obtain ⟨hclosers', happend⟩ := closes_append_iff hclosers hline
      rw [ih hclosers']
      constructor
      · rintro ⟨u, hu, hcloses⟩
        exact ⟨l ++ u, .inr ⟨u, rfl, hu⟩, (happend u).mpr hcloses⟩
      · rintro ⟨t, ⟨-, -, hle, rfl⟩ | ⟨u, rfl, hu⟩, ht⟩
        · have hstop : closeInLine next rest 0 l = .inl (0 + p.character) :=
            (closeInLine_eq_inl_iff hclosers).mpr ⟨_, hle, rfl, ht⟩
          cases hline.symm.trans hstop
        · exact ⟨u, hu, (happend u).mp ht⟩

end Bracket

namespace SourceText

/-- The characters of the lines after line `n`, in reading order. -/
def textBelow (source : SourceText) (n : Nat) : Text :=
  (source.lines.drop (n + 1)).flatten

/-- The characters below line `n` are `t` up to a place, and the last of them stands just before
it. -/
structure ReadsTo (source : SourceText) (n : Nat) (t : Text) (p : Position) : Prop where
  below : n < p.line
  within : p.line < source.lineCount
  line : ∃ l, source.line? p.line = some l ∧ 0 < p.character ∧ p.character ≤ l.length ∧
    l[p.character - 1]? = t.getLast? ∧
    (source.slice (n + 1) (p.line - 1)).flatten ++ l.take p.character = t

/-- `body` stands between the bracket at the end of line `n`, blanks after it set aside, and the
bracket that closes it on a later line. -/
structure ClosedBy (source : SourceText) (n : Nat) (closer : Char) (body : Text) : Prop where
  opener : ∃ l o, source.line? n = some l ∧ l.trimEnd.getLast? = some o ∧
    Bracket.closerOf? o = some closer
  interior : Bracket.Interior (fun _ => True) closer body
  followed : body ++ [closer] <+: source.textBelow n

variable {source : SourceText} {n : Nat} {t u : Text} {p : Position} {closer closer' : Char}
  {body body' : Text}

theorem readsTo_iff : source.ReadsTo n t p ↔
    Bracket.EndsAt (n + 1) (source.lines.drop (n + 1)) t p := by
  constructor
  · rintro ⟨hbelow, hwithin, l, hl, hpos, hle, -, rfl⟩
    have hline : (source.lines.drop (n + 1))[p.line - (n + 1)]? = some l := by
      rw [List.getElem?_drop, Nat.add_sub_of_le hbelow]
      exact hl
    obtain ⟨hlt, rfl⟩ := List.getElem?_eq_some_iff.mp hline
    refine ⟨source.slice (n + 1) (p.line - 1), _,
      (source.lines.drop (n + 1)).drop (p.line - (n + 1) + 1), ?_, ?_, hpos, hle, rfl⟩
    · have hcount : p.line - 1 + 1 - (n + 1) = p.line - (n + 1) := by omega
      rw [slice, hcount]
      exact (List.take_append_drop _ _).symm.trans
        (congrArg (_ ++ ·) (List.drop_eq_getElem_cons hlt))
    · rw [length_slice (by omega)]
      omega
  · rintro ⟨before, l, after, heq, hline, hpos, hle, rfl⟩
    have hl : source.line? p.line = some l := by
      rw [line?, hline, ← List.getElem?_drop, heq, List.getElem?_append_right (Nat.le_refl _),
        Nat.sub_self, List.getElem?_cons_zero]
    have hbefore : source.slice (n + 1) (p.line - 1) = before := by
      have hcount : p.line - 1 + 1 - (n + 1) = before.length := by omega
      rw [slice, hcount, heq, List.take_left]
    have hlast : l[p.character - 1]? = (before.flatten ++ l.take p.character).getLast? := by
      have hlt : p.character - 1 < l.length := by omega
      rw [List.getLast?_append, List.getLast?_take, if_neg (Nat.ne_of_gt hpos),
        List.getElem?_eq_getElem hlt]
      rfl
    obtain ⟨hlt, -⟩ := List.getElem?_eq_some_iff.mp hl
    exact ⟨by omega, hlt, l, hl, hpos, hle, hlast, by rw [hbefore]⟩

theorem ReadsTo.text_eq (h : source.ReadsTo n t p) (h' : source.ReadsTo n u p) : t = u := by
  obtain ⟨l, hl, -, -, -, ht⟩ := h.line
  obtain ⟨l', hl', -, -, -, hu⟩ := h'.line
  obtain rfl : l = l' := Option.some.inj (hl.symm.trans hl')
  exact ht.symm.trans hu

theorem trailingCloser?_eq_some_iff : source.trailingCloser? n = some closer ↔
    ∃ l o, source.line? n = some l ∧ l.trimEnd.getLast? = some o ∧
      Bracket.closerOf? o = some closer := by
  simp [trailingCloser?, Option.bind_eq_some_iff]

theorem closes_singleton_iff (hcloser : Bracket.IsCloser closer) : Bracket.Closes [closer] t ↔
    ∃ body, t = body ++ [closer] ∧ Bracket.Interior (fun _ => True) closer body := by
  simp [Bracket.closes_cons_iff, Bracket.closes_nil_iff, hcloser]

/-- At most one text stands between the bracket at the end of a line and the one that closes it. -/
theorem ClosedBy.unique (h : source.ClosedBy n closer body) (h' : source.ClosedBy n closer' body') :
    closer' = closer ∧ body' = body := by
  obtain rfl : closer' = closer := Option.some.inj
    ((trailingCloser?_eq_some_iff.mpr h'.opener).symm.trans
      (trailingCloser?_eq_some_iff.mpr h.opener))
  obtain ⟨-, o, -, -, ho⟩ := h.opener
  have hcloser : Bracket.IsCloser closer' := Bracket.isCloser_of_closerOf? ho
  have hcloses : body' ++ [closer'] = body ++ [closer'] :=
    Bracket.eq_of_closes_prefix ((closes_singleton_iff hcloser).mpr ⟨_, rfl, h'.interior⟩)
      ((closes_singleton_iff hcloser).mpr ⟨_, rfl, h.interior⟩) h'.followed h.followed
  exact ⟨rfl, List.append_cancel_right hcloses⟩

end SourceText

namespace Range

open SourceText

variable {source : SourceText} {r : Range} {closer : Char} {body : Text} {p : Position}

/-- Extended, a range ends just past the characters `t` of the lines below it. Coordinates end at
the last one. -/
def ExtendsPast (source : SourceText) (r : Range) (t : Text) : Prop :=
  ∃ p, source.ReadsTo r.stop.line t p ∧
    r.extendToCloser source = ⟨r.start, ⟨p.line, min p.character lastCoord⟩⟩

theorem ExtendsPast.ne {t : Text} (h : r.ExtendsPast source t) : r.extendToCloser source ≠ r := by
  obtain ⟨p, hp, hstop⟩ := h
  intro hsame
  have hline : r.stop.line = p.line := congrArg (·.stop.line) (hsame.symm.trans hstop)
  exact Nat.ne_of_lt hp.below hline

/-- As long as no line reaches past the last coordinate, the end of the range tells what it is
past. -/
theorem ExtendsPast.text_eq {t u : Text} (hfits : ∀ l ∈ source.lines, l.length ≤ lastCoord)
    (ht : r.ExtendsPast source t) (hu : r.ExtendsPast source u) : t = u := by
  obtain ⟨p, hp, hpstop⟩ := ht
  obtain ⟨q, hq, hqstop⟩ := hu
  have hcoordinate {v : Text} {p : Position} (hp : source.ReadsTo r.stop.line v p) :
      min p.character lastCoord = p.character := by
    obtain ⟨l, hl, -, hle, -⟩ := hp.line
    exact Nat.min_eq_left (Nat.le_trans hle (hfits l (List.mem_of_getElem? hl)))
  rw [hcoordinate hp] at hpstop
  rw [hcoordinate hq] at hqstop
  obtain rfl : p = q := congrArg Range.stop (hpstop.symm.trans hqstop)
  exact hp.text_eq hq

theorem extendToCloser_of_closedBy (h : source.ClosedBy r.stop.line closer body)
    (hp : source.ReadsTo r.stop.line (body ++ [closer]) p) :
    r.extendToCloser source = ⟨r.start, ⟨p.line, min p.character lastCoord⟩⟩ := by
  obtain ⟨-, o, -, -, ho⟩ := h.opener
  have hcloser : Bracket.IsCloser closer := Bracket.isCloser_of_closerOf? ho
  have hscan : Bracket.closeInLines closer [] (r.stop.line + 1)
      (source.lines.drop (r.stop.line + 1)) = some p := by
    rw [Bracket.closeInLines_eq_some_iff (List.forall_mem_singleton.mpr hcloser)]
    exact ⟨_, readsTo_iff.mp hp, (closes_singleton_iff hcloser).mpr ⟨body, rfl, h.interior⟩⟩
  simp only [extendToCloser, trailingCloser?_eq_some_iff.mpr h.opener, hscan]

theorem exists_closedBy_of_ne (h : r.extendToCloser source ≠ r) :
    ∃ closer body, source.ClosedBy r.stop.line closer body := by
  rw [extendToCloser] at h
  split at h
  · exact absurd rfl h
  · next closer htrailing =>
    obtain ⟨l, o, hl, hlast, ho⟩ := trailingCloser?_eq_some_iff.mp htrailing
    have hcloser : Bracket.IsCloser closer := Bracket.isCloser_of_closerOf? ho
    dsimp only at h
    split at h
    · next p hscan =>
      rw [Bracket.closeInLines_eq_some_iff (List.forall_mem_singleton.mpr hcloser)] at hscan
      obtain ⟨t, ht, hcloses⟩ := hscan
      obtain ⟨body, rfl, hbody⟩ := (closes_singleton_iff hcloser).mp hcloses
      exact ⟨closer, body, ⟨l, o, hl, hlast, ho⟩, hbody, Bracket.prefix_of_endsAt ht⟩
    · exact absurd rfl h

theorem extendsPast_of_closedBy (h : source.ClosedBy r.stop.line closer body) :
    r.ExtendsPast source (body ++ [closer]) := by
  have hne : body ++ [closer] ≠ [] := List.append_ne_nil_of_right_ne_nil _ (List.cons_ne_nil _ _)
  obtain ⟨p, hp⟩ := Bracket.exists_endsAt hne h.followed
  exact ⟨p, readsTo_iff.mpr hp, extendToCloser_of_closedBy h (readsTo_iff.mpr hp)⟩

/-- A range that is extended by the grammar of brackets: it changes exactly if a text of the grammar
and a closing bracket follow the bracket at the end of its last line. There is one such text only,
and the new end is just past its closing bracket, on a later line. -/
structure Grammatical (source : SourceText) (r : Range) : Prop where
  changed_iff : r.extendToCloser source ≠ r ↔
    ∃ closer body, source.ClosedBy r.stop.line closer body
  unique : ∀ closer body closer' body', source.ClosedBy r.stop.line closer body →
    source.ClosedBy r.stop.line closer' body' → closer' = closer ∧ body' = body
  extended : ∀ closer body, source.ClosedBy r.stop.line closer body →
    r.ExtendsPast source (body ++ [closer])

/-- A bracket that is closed after `n` characters of the next line. -/
def blockOfLength (n : Nat) : SourceText :=
  .ofContent (Text.ofLines [['('], List.replicate n 'x' ++ [')']])

theorem lines_blockOfLength (n : Nat) :
    (blockOfLength n).lines = [['('], List.replicate n 'x' ++ [')']] := by
  have hlines : ∀ l ∈ [['('], List.replicate n 'x' ++ [')']], '\n' ∉ l := by simp
  have hreturn : '\r' ∉ Text.ofLines [['('], List.replicate n 'x' ++ [')']] := by
    simp [Text.ofLines, List.intercalate_cons_cons]
  rw [blockOfLength, SourceText.ofContent, Text.normalizeNewlines_of_not_mem hreturn,
    Text.lines_ofLines (List.cons_ne_nil _ _) hlines]

theorem line?_blockOfLength (n : Nat) :
    (blockOfLength n).line? 1 = some (List.replicate n 'x' ++ [')']) := by
  rw [line?, lines_blockOfLength]
  rfl

theorem blockOfLength_closedBy (n : Nat) :
    (blockOfLength n).ClosedBy 0 ')' (List.replicate n 'x') := by
  refine ⟨⟨['('], '(', ?_, by decide, rfl⟩, .replicate rfl (by decide) n, ?_⟩
  · rw [line?, lines_blockOfLength]
    rfl
  · rw [textBelow, lines_blockOfLength]
    simp

theorem extendToCloser_blockOfLength {n : Nat} (hlong : lastCoord ≤ n) :
    extendToCloser (blockOfLength n) ⟨⟨0, 0⟩, ⟨0, 1⟩⟩ = ⟨⟨0, 0⟩, ⟨1, lastCoord⟩⟩ := by
  have hreads : (blockOfLength n).ReadsTo 0 (List.replicate n 'x' ++ [')']) ⟨1, n + 1⟩ := by
    refine ⟨Nat.zero_lt_one, ?_, _, line?_blockOfLength n, Nat.succ_pos _, ?_, ?_, ?_⟩
    · rw [lineCount, lines_blockOfLength]
      exact Nat.one_lt_two
    · simp
    · simp
    · rw [List.take_of_length_le (by simp)]
      rfl
  rw [extendToCloser_of_closedBy (blockOfLength_closedBy n) hreads]
  dsimp only
  rw [Nat.min_eq_right (Nat.le_succ_of_le hlong)]

end Range

end WorkspaceLink
