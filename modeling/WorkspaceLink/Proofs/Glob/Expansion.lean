import WorkspaceLink.Proofs.Glob.Braces
import WorkspaceLink.Proofs.Text.Cuts
import WorkspaceLink.Proofs.Text.Offsets

/-! A pattern's first brace group gives way to its alternatives. Each step leaves fewer braces, and
the byte offsets at which it cuts the pattern are all between characters. -/

namespace WorkspaceLink.Glob

/-- What becomes of a pattern in one step. It has no group, or its first group is not closed, or
there is a pattern for each alternative of the group. -/
inductive Expansion where
  | plain
  | unclosed
  | alternatives (patterns : List Text)
deriving DecidableEq

def expansion (pattern : Text) : Expansion :=
  match Text.cut? "\x7b" pattern with
  | none => .plain
  | some (before, rest) =>
    match alternatives? 0 rest with
    | none => .unclosed
    | some (pieces, after) => .alternatives (pieces.map fun piece => before ++ piece ++ after)

variable {pattern before s : Text} {c : Char}

/-! ### One step -/

theorem expansion_of_not_mem (h : '{' ∉ pattern) : expansion pattern = .plain := by
  have hcut : Text.cut? "\x7b" pattern = none := Text.cut?_eq_none h
  rw [expansion, hcut]

theorem expansion_of_unclosed (hbefore : '{' ∉ before) (hs : Unclosed s) :
    expansion (before ++ '{' :: s) = .unclosed := by
  have hcut : Text.cut? "\x7b" (before ++ '{' :: s) = some (before, s) := Text.cut?_append hbefore
  rw [expansion, hcut]
  simp only [(hs 0).1]

theorem expansion_group (alternatives : Alternatives) (hbefore : '{' ∉ before) (rest : Text) :
    expansion (before ++ '{' :: (alternatives.text ++ '}' :: rest)) =
      .alternatives (alternatives.toList.map fun a => before ++ a.text ++ rest) := by
  have hcut : Text.cut? "\x7b" (before ++ '{' :: (alternatives.text ++ '}' :: rest)) =
      some (before, alternatives.text ++ '}' :: rest) :=
    Text.cut?_append hbefore
  rw [expansion, hcut]
  simp only [alternatives.alternatives?_text, List.map_map]
  rfl

/-- A pattern has no group, or a first one, which is not closed or has alternatives. -/
theorem firstGroup_cases (pattern : Text) :
    '{' ∉ pattern ∨
    (∃ before rest, pattern = before ++ '{' :: rest ∧ '{' ∉ before ∧ Unclosed rest) ∨
    ∃ (before rest : Text) (alternatives : Alternatives),
      pattern = before ++ '{' :: (alternatives.text ++ '}' :: rest) ∧ '{' ∉ before := by
  by_cases hmem : '{' ∈ pattern
  · obtain ⟨before, rest, rfl, hbefore⟩ := List.eq_append_cons_of_mem hmem
    rcases exists_alternatives_or_unclosed rest with ⟨alternatives, rest, rfl⟩ | hrest
    · exact .inr (.inr ⟨before, rest, alternatives, rfl, hbefore⟩)
    · exact .inr (.inl ⟨before, rest, rfl, hbefore, hrest⟩)
  · exact .inl hmem

theorem Alternatives.count_text_le (c : Char) : ∀ (alternatives : Alternatives),
    ∀ a ∈ alternatives.toList, a.text.count c ≤ alternatives.text.count c
  | .last b, a, ha => by
    exact Nat.le_of_eq (by rw [List.mem_singleton.mp ha, text])
  | .cons b others, a, ha => by
    rw [text, List.count_append]
    rcases List.mem_cons.mp ha with rfl | ha
    · exact Nat.le_add_right _ _
    · have hle := count_text_le c others a ha
      have htail : others.text.count c ≤ (',' :: others.text).count c := List.count_le_count_cons
      omega

theorem count_lt_of_mem (alternatives : Alternatives) (before rest : Text) :
    ∀ a ∈ alternatives.toList, (before ++ a.text ++ rest).count '{' <
      (before ++ '{' :: (alternatives.text ++ '}' :: rest)).count '{' := by
  intro a ha
  have hle := alternatives.count_text_le '{' a ha
  have htail : rest.count '{' ≤ ('}' :: rest).count '{' := List.count_le_count_cons
  rw [List.count_append, List.count_append, List.count_append, List.count_cons_self,
    List.count_append]
  omega

/-- Each step leaves fewer opening braces. -/
theorem count_lt_of_expansion {patterns : List Text}
    (h : expansion pattern = .alternatives patterns) :
    ∀ q ∈ patterns, q.count '{' < pattern.count '{' := by
  rcases firstGroup_cases pattern with hmem | ⟨before, rest, rfl, hbefore, hrest⟩ |
    ⟨before, rest, alternatives, rfl, hbefore⟩
  · rw [expansion_of_not_mem hmem] at h
    cases h
  · rw [expansion_of_unclosed hbefore hrest] at h
    cases h
  · rw [expansion_group alternatives hbefore] at h
    obtain rfl := Expansion.alternatives.inj h
    intro q hq
    obtain ⟨a, ha, rfl⟩ := List.mem_map.mp hq
    exact count_lt_of_mem alternatives before rest a ha

/-! ### Byte offsets -/

/-- The byte offsets of the separators of a group: the commas between its alternatives and the brace
that closes it, or none if it is not closed. `depth` counts the group and those open in it. -/
def separators? (depth offset : Nat) : Text → Option (List Nat)
  | [] => none
  | c :: s =>
    let next := offset + Text.byteCount [c]
    if c = '{' then separators? (depth + 1) next s
    else if c = '}' then
      if depth = 1 then some [offset] else separators? (depth - 1) next s
    else if c = ',' ∧ depth = 1 then (separators? depth next s).map (offset :: ·)
    else separators? depth next s

/-- What a text has from an offset on between separators, which take one byte each. There is nothing
to be had if one of the cuts is inside a character. -/
def slicesBetween? (s : Text) (start : Nat) : List Nat → Option (List Text)
  | [] => some []
  | stop :: stops => do
    let piece ← s.sliceBytes? start stop
    let pieces ← slicesBetween? s (stop + 1) stops
    some (piece :: pieces)

/-- One step by byte offsets. There is none if one of the cuts is inside a character. -/
def expansionByBytes? (pattern : Text) : Option Expansion :=
  match Text.cut? "\x7b" pattern with
  | none => some .plain
  | some (before, _) => do
    let opening := before.byteCount
    let group ← pattern.sliceBytes? opening pattern.byteCount
    match separators? 0 opening group with
    | none => some .unclosed
    | some stops => do
      let closing ← stops.getLast?
      let front ← pattern.sliceBytes? 0 opening
      let back ← pattern.sliceBytes? (closing + 1) pattern.byteCount
      let pieces ← slicesBetween? pattern (opening + 1) stops
      some (.alternatives (pieces.map fun piece => front ++ piece ++ back))

theorem separators?_open (depth offset : Nat) (s : Text) :
    separators? depth offset ('{' :: s) =
      separators? (depth + 1) (offset + Text.byteCount ['{']) s := by
  rw [separators?]
  exact if_pos rfl

theorem separators?_plain (hc : IsPlain true c) (depth offset : Nat) (s : Text) :
    separators? depth offset (c :: s) = separators? depth (offset + Text.byteCount [c]) s := by
  rw [separators?, if_neg hc.1, if_neg (hc.2 rfl).2, if_neg fun h => (hc.2 rfl).1 h.1]

theorem separators?_close (depth offset : Nat) (s : Text) :
    separators? (depth + 2) offset ('}' :: s) =
      separators? (depth + 1) (offset + Text.byteCount ['}']) s := by
  rw [separators?]
  rfl

theorem separators?_comma (depth offset : Nat) (s : Text) :
    separators? (depth + 2) offset (',' :: s) =
      separators? (depth + 2) (offset + Text.byteCount [',']) s := by
  rw [separators?]
  simp

mutual

theorem Braced.separators?_text (s : Text) (depth offset : Nat) : ∀ a : Braced true,
    separators? (depth + 1) offset (a.text ++ s) =
      separators? (depth + 1) (offset + Text.byteCount a.text) s
  | .nil => rfl
  | .char c hc rest => by
    rw [Braced.text, List.cons_append, separators?_plain hc, rest.separators?_text s depth,
      Text.byteCount_cons c rest.text, Nat.add_assoc]
  | .group alternatives rest => by
    have hcount : Text.byteCount ('{' :: (alternatives.text ++ '}' :: rest.text)) =
        Text.byteCount ['{'] + (Text.byteCount alternatives.text +
          (Text.byteCount ['}'] + Text.byteCount rest.text)) := by
      rw [Text.byteCount_cons, Text.byteCount_append, Text.byteCount_cons '}' rest.text]
    rw [Braced.text, List.cons_append, List.append_assoc, List.cons_append, separators?_open,
      alternatives.separators?_inner (rest.text ++ s) depth, rest.separators?_text s depth, hcount]
    simp only [Nat.add_assoc]

theorem Alternatives.separators?_inner (s : Text) (depth offset : Nat) :
    ∀ alternatives : Alternatives,
      separators? (depth + 2) offset (alternatives.text ++ '}' :: s) = separators? (depth + 1)
        (offset + (Text.byteCount alternatives.text + Text.byteCount ['}'])) s
  | .last a => by
    rw [Alternatives.text, a.separators?_text _ (depth + 1), separators?_close, Nat.add_assoc]
  | .cons a others => by
    rw [Alternatives.text, List.append_assoc, a.separators?_text _ (depth + 1), List.cons_append,
      separators?_comma, others.separators?_inner s depth, Text.byteCount_append,
      Text.byteCount_cons ',' others.text]
    simp only [Nat.add_assoc]

end

/-- A group that is not closed has no separators either way. -/
theorem separators?_isSome (depth offset : Nat) (s : Text) :
    (separators? (depth + 1) offset s).isSome = (alternatives? depth s).isSome := by
  induction s generalizing depth offset with
  | nil => rfl
  | cons c s ih =>
    rcases brace_cases c with rfl | rfl | rfl | hc
    · rw [separators?_open, alternatives?_open, keep, Option.isSome_map]
      exact ih (depth + 1) _
    · cases depth with
      | zero => rfl
      | succ depth =>
        rw [separators?_close, alternatives?_close, keep, Option.isSome_map]
        exact ih depth _
    · cases depth with
      | zero =>
        rw [separators?, alternatives?]
        simp [ih]
      | succ depth =>
        rw [separators?_comma, alternatives?_comma, keep, Option.isSome_map]
        exact ih (depth + 1) _
    · rw [separators?_plain hc, alternatives?_plain hc, keep, Option.isSome_map]
      exact ih depth _

/-- The byte offsets of what ends the alternatives of a group. -/
def Alternatives.stops (offset : Nat) : Alternatives → List Nat
  | .last a => [offset + Text.byteCount a.text]
  | .cons a others =>
    (offset + Text.byteCount a.text) :: others.stops (offset + Text.byteCount a.text + 1)

theorem Alternatives.separators?_text (s : Text) (offset : Nat) : ∀ alternatives : Alternatives,
    separators? 1 offset (alternatives.text ++ '}' :: s) = some (alternatives.stops offset)
  | .last a => by
    rw [text, a.separators?_text, separators?]
    rfl
  | .cons a others => by
    have hnext := others.separators?_text s (offset + Text.byteCount a.text + Text.byteCount [','])
    rw [text, List.append_assoc, a.separators?_text, List.cons_append, separators?]
    simp only [hnext]
    rfl

theorem Alternatives.getLast?_stops (offset : Nat) : ∀ alternatives : Alternatives,
    (alternatives.stops offset).getLast? = some (offset + Text.byteCount alternatives.text)
  | .last a => rfl
  | .cons a others => by
    have hcomma : Text.byteCount [','] = 1 := rfl
    rw [stops, List.getLast?_cons, others.getLast?_stops, text, Text.byteCount_append,
      Text.byteCount_cons ',' others.text, hcomma]
    simp only [Option.getD_some, Nat.add_assoc]

/-- What is between two offsets of a text is found there. -/
theorem sliceBytes?_append (front part back : Text) :
    Text.sliceBytes? (front ++ (part ++ back)) front.byteCount
      (front.byteCount + part.byteCount) = some part := by
  rw [Text.sliceBytes?_eq_some_iff]
  exact ⟨front, back, (List.append_assoc front part back).symm, rfl, Text.byteCount_append _ _⟩

theorem Alternatives.slicesBetween?_stops (back : Text) : ∀ (alternatives : Alternatives)
    (front : Text), slicesBetween? (front ++ (alternatives.text ++ back)) front.byteCount
      (alternatives.stops front.byteCount) = some (alternatives.toList.map Braced.text)
  | .last a, front => by
    rw [text, stops, slicesBetween?, sliceBytes?_append]
    rfl
  | .cons a others, front => by
    -- the other alternatives stand behind the first one and its comma
    have hfront : Text.byteCount (front ++ (a.text ++ [','])) =
        front.byteCount + Text.byteCount a.text + 1 := by
      rw [Text.byteCount_append, Text.byteCount_append, Nat.add_assoc]
      rfl
    have hothers := others.slicesBetween?_stops back (front ++ (a.text ++ [',']))
    rw [hfront] at hothers
    simp only [List.append_assoc, List.singleton_append] at hothers
    rw [text, stops, slicesBetween?, List.append_assoc, sliceBytes?_append, List.cons_append,
      hothers]
    rfl

theorem sliceBytes?_rest (front back : Text) : Text.sliceBytes? (front ++ back) front.byteCount
    (Text.byteCount (front ++ back)) = some back := by
  have hslice := sliceBytes?_append front back []
  rwa [List.append_nil, ← Text.byteCount_append] at hslice

theorem byteCount_concat_brace (s : Text) :
    Text.byteCount (s ++ ['{']) = s.byteCount + 1 ∧ Text.byteCount (s ++ ['}']) = s.byteCount + 1 :=
  ⟨Text.byteCount_append _ _, Text.byteCount_append _ _⟩

theorem expansionByBytes?_group (alternatives : Alternatives) (hbefore : '{' ∉ before)
    (rest : Text) : expansionByBytes? (before ++ '{' :: (alternatives.text ++ '}' :: rest)) =
      some (.alternatives (alternatives.toList.map fun a => before ++ a.text ++ rest)) := by
  have hcut : Text.cut? "\x7b" (before ++ '{' :: (alternatives.text ++ '}' :: rest)) =
      some (before, alternatives.text ++ '}' :: rest) :=
    Text.cut?_append hbefore
  have hseparators : separators? 0 before.byteCount ('{' :: (alternatives.text ++ '}' :: rest)) =
      some (alternatives.stops (before.byteCount + 1)) := by
    rw [separators?_open]
    exact alternatives.separators?_text rest _
  have hopening := (byteCount_concat_brace before).1
  have hclosing : Text.byteCount (before ++ ['{'] ++ alternatives.text ++ ['}']) =
      before.byteCount + 1 + Text.byteCount alternatives.text + 1 := by
    rw [(byteCount_concat_brace _).2, Text.byteCount_append, hopening]
  -- the parts that are cut out, each with what stands before it
  have hfront := sliceBytes?_append [] before ('{' :: (alternatives.text ++ '}' :: rest))
  have hpieces := alternatives.slicesBetween?_stops ('}' :: rest) (before ++ ['{'])
  have hback := sliceBytes?_rest (before ++ ['{'] ++ alternatives.text ++ ['}']) rest
  have hzero : Text.byteCount [] = 0 := rfl
  rw [hzero, Nat.zero_add, List.nil_append] at hfront
  rw [hopening] at hpieces
  rw [hclosing] at hback
  simp only [List.append_assoc, List.cons_append, List.nil_append] at hpieces hback
  rw [expansionByBytes?, hcut]
  simp only [sliceBytes?_rest, bind, Option.bind, hseparators, alternatives.getLast?_stops, hfront,
    hpieces, hback, List.map_map]
  rfl

/-- A step by byte offsets cuts between characters only, and is the step by characters. -/
theorem expansionByBytes?_eq (pattern : Text) :
    expansionByBytes? pattern = some (expansion pattern) := by
  rcases firstGroup_cases pattern with hmem | ⟨before, rest, rfl, hbefore, hrest⟩ |
    ⟨before, rest, alternatives, rfl, hbefore⟩
  · have hcut : Text.cut? "\x7b" pattern = none := Text.cut?_eq_none hmem
    rw [expansionByBytes?, hcut, expansion_of_not_mem hmem]
  · have hcut : Text.cut? "\x7b" (before ++ '{' :: rest) = some (before, rest) :=
      Text.cut?_append hbefore
    have hseparators : separators? 0 before.byteCount ('{' :: rest) = none := by
      rw [separators?_open, ← Option.isNone_iff_eq_none, ← Option.not_isSome, separators?_isSome,
        (hrest 0).1]
      rfl
    rw [expansionByBytes?, hcut, expansion_of_unclosed hbefore hrest]
    simp only [sliceBytes?_rest, bind, Option.bind, hseparators]
  · rw [expansionByBytes?_group alternatives hbefore, expansion_group alternatives hbefore]

end WorkspaceLink.Glob
