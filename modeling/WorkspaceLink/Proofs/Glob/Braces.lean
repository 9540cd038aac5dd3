import WorkspaceLink.Glob.Pattern

/-! How a pattern is read as text with brace groups in it. Every pattern whose braces are closed has
such a reading, and a group that is not closed is none wherever it stands. -/

namespace WorkspaceLink.Glob

/-- Whether a character is text. Commas and closing braces are text outside groups only. -/
def IsPlain (inGroup : Bool) (c : Char) : Prop :=
  c ≠ '{' ∧ (inGroup = true → c ≠ ',' ∧ c ≠ '}')

mutual

/-- A pattern, or an alternative of a group, as text with groups in it. -/
inductive Braced : Bool → Type where
  | nil {inGroup} : Braced inGroup
  | char {inGroup} (c : Char) (hc : IsPlain inGroup c) (rest : Braced inGroup) : Braced inGroup
  | group {inGroup} (alternatives : Alternatives) (rest : Braced inGroup) : Braced inGroup

/-- The alternatives of a group, of which there is at least one. -/
inductive Alternatives : Type where
  | last (a : Braced true) : Alternatives
  | cons (a : Braced true) (others : Alternatives) : Alternatives

end

mutual

def Braced.text {inGroup : Bool} : Braced inGroup → Text
  | .nil => []
  | .char c _ rest => c :: rest.text
  | .group alternatives rest => '{' :: (alternatives.text ++ '}' :: rest.text)

/-- What stands between the braces of a group. -/
def Alternatives.text : Alternatives → Text
  | .last a => a.text
  | .cons a others => a.text ++ ',' :: others.text

end

mutual

/-- The texts that come of choosing one alternative in each group. -/
def Braced.choices {inGroup : Bool} : Braced inGroup → List Text
  | .nil => [[]]
  | .char c _ rest => rest.choices.map (c :: ·)
  | .group alternatives rest => alternatives.choices.flatMap fun q => rest.choices.map (q ++ ·)

/-- The texts that come of choosing an alternative and one in each group in it. -/
def Alternatives.choices : Alternatives → List Text
  | .last a => a.choices
  | .cons a others => a.choices ++ others.choices

end

/-- How many groups are open at the end of a text if so many are open at its beginning. A closing
brace closes the innermost of them, and stands for itself if there is none. -/
def openGroups (depth : Nat) : Text → Nat
  | [] => depth
  | c :: s =>
    if c = '{' then openGroups (depth + 1) s
    else if c = '}' then openGroups (depth - 1) s
    else openGroups depth s

variable {inGroup : Bool} {c : Char} {s q before : Text} {depth : Nat}

theorem IsPlain.outside (h : IsPlain true c) (inGroup : Bool) : IsPlain inGroup c :=
  ⟨h.1, fun _ => h.2 rfl⟩

def Alternatives.toList : Alternatives → List (Braced true)
  | .last a => [a]
  | .cons a others => a :: others.toList

/-- An alternative in front of what follows its group. -/
def Braced.append : Braced true → Braced inGroup → Braced inGroup
  | .nil, rest => rest
  | .char c hc a, rest => .char c (hc.outside inGroup) (append a rest)
  | .group alternatives a, rest => .group alternatives (append a rest)

/-- The alternatives with something put in front of the first of them. -/
def Alternatives.mapFirst (f : Braced true → Braced true) : Alternatives → Alternatives
  | .last a => .last (f a)
  | .cons a others => .cons (f a) others

theorem Braced.text_append : ∀ (a : Braced true) (rest : Braced inGroup),
    (a.append rest).text = a.text ++ rest.text
  | .nil, _ => by rw [append, text, List.nil_append]
  | .char _ _ a, rest => by rw [append, text, text, text_append a rest, List.cons_append]
  | .group _ a, rest => by
    rw [append, text, text, text_append a rest, List.cons_append, List.append_assoc,
      List.cons_append]

theorem Braced.choices_append : ∀ (a : Braced true) (rest : Braced inGroup),
    (a.append rest).choices = a.choices.flatMap fun q => rest.choices.map (q ++ ·)
  | .nil, _ => by simp [append, choices]
  | .char _ _ a, rest => by
    rw [append, choices, choices, choices_append a rest, List.map_flatMap, List.flatMap_map]
    simp only [List.map_map, List.cons_append]
    rfl
  | .group _ a, rest => by
    rw [append, choices, choices, choices_append a rest, List.flatMap_assoc]
    simp only [List.map_flatMap, List.flatMap_map, List.map_map, List.append_assoc]
    rfl

theorem Alternatives.choices_eq : ∀ alternatives : Alternatives,
    alternatives.choices = alternatives.toList.flatMap Braced.choices
  | .last a => by simp [choices, toList]
  | .cons a others => by rw [choices, toList, List.flatMap_cons, choices_eq others]

/-- A group is chosen from by putting one of its alternatives in its place. -/
theorem Braced.choices_group (alternatives : Alternatives) (rest : Braced inGroup) :
    (Braced.group alternatives rest).choices =
      alternatives.toList.flatMap fun a => (a.append rest).choices := by
  rw [choices, alternatives.choices_eq, List.flatMap_assoc]
  simp only [choices_append]

theorem Alternatives.length_text_le : ∀ (alternatives : Alternatives), ∀ a ∈ alternatives.toList,
    a.text.length ≤ alternatives.text.length
  | .last b, a, ha => by
    exact Nat.le_of_eq (by rw [List.mem_singleton.mp ha, text])
  | .cons b others, a, ha => by
    rw [text, List.length_append, List.length_cons]
    rcases List.mem_cons.mp ha with rfl | ha
    · omega
    · have hle := length_text_le others a ha
      omega

mutual

theorem Braced.brace_not_mem {inGroup : Bool} : ∀ (p : Braced inGroup), ∀ q ∈ p.choices, '{' ∉ q
  | .nil, q, hq => by
    rw [List.mem_singleton.mp hq]
    exact List.not_mem_nil
  | .char c hc rest, q, hq => by
    obtain ⟨r, hr, rfl⟩ := List.mem_map.mp hq
    rw [List.mem_cons, not_or]
    exact ⟨hc.1.symm, rest.brace_not_mem r hr⟩
  | .group alternatives rest, q, hq => by
    obtain ⟨a, ha, hq⟩ := List.mem_flatMap.mp hq
    obtain ⟨r, hr, rfl⟩ := List.mem_map.mp hq
    rw [List.mem_append, not_or]
    exact ⟨alternatives.brace_not_mem a ha, rest.brace_not_mem r hr⟩

theorem Alternatives.brace_not_mem : ∀ (alternatives : Alternatives),
    ∀ q ∈ alternatives.choices, '{' ∉ q
  | .last a, q, hq => a.brace_not_mem q hq
  | .cons a others, q, hq => by
    rcases List.mem_append.mp hq with hq | hq
    · exact a.brace_not_mem q hq
    · exact others.brace_not_mem q hq

end

/-! ### Open groups -/

mutual

theorem Braced.openGroups_text (s : Text) (depth : Nat) : ∀ a : Braced true,
    openGroups depth (a.text ++ s) = openGroups depth s
  | .nil => rfl
  | .char c hc rest => by
    rw [Braced.text, List.cons_append, openGroups, if_neg hc.1, if_neg (hc.2 rfl).2,
      rest.openGroups_text s depth]
  | .group alternatives rest => by
    rw [Braced.text, List.cons_append, List.append_assoc, List.cons_append, openGroups, if_pos rfl,
      alternatives.openGroups_text (rest.text ++ s) depth, rest.openGroups_text s depth]

theorem Alternatives.openGroups_text (s : Text) (depth : Nat) : ∀ alternatives : Alternatives,
    openGroups (depth + 1) (alternatives.text ++ '}' :: s) = openGroups depth s
  | .last a => by
    rw [Alternatives.text, a.openGroups_text ('}' :: s) (depth + 1)]
    rfl
  | .cons a others => by
    rw [Alternatives.text, List.append_assoc, a.openGroups_text _ (depth + 1), List.cons_append]
    exact others.openGroups_text s depth

end

/-- Outside groups no brace closes anything. -/
theorem openGroups_append_of_not_mem (h : '{' ∉ before) :
    openGroups 0 (before ++ s) = openGroups 0 s := by
  induction before with
  | nil => rfl
  | cons c before ih =>
    rw [List.mem_cons, not_or] at h
    rw [List.cons_append, openGroups, if_neg (Ne.symm h.1), Nat.zero_sub, ite_self, ih h.2]

theorem Braced.openGroups_eq_zero : ∀ p : Braced false, openGroups 0 p.text = 0
  | .nil => rfl
  | .char c hc rest => by
    rw [text, openGroups, if_neg hc.1, Nat.zero_sub, ite_self, rest.openGroups_eq_zero]
  | .group alternatives rest => by
    rw [text, openGroups, if_pos rfl, alternatives.openGroups_text, rest.openGroups_eq_zero]

/-! ### Reading a group -/

/-- A text put in front of the first alternative. -/
def keep (front : Text) (r : Option (List Text × Text)) : Option (List Text × Text) :=
  r.map fun (pieces, rest) => (pieces.modifyHead (front ++ ·), rest)

theorem keep_keep (front back : Text) (r : Option (List Text × Text)) :
    keep front (keep back r) = keep (front ++ back) r := by
  obtain - | ⟨pieces, rest⟩ := r
  · rfl
  · cases pieces <;> simp [keep]

theorem keep_nil (r : Option (List Text × Text)) : keep [] r = r := by
  obtain - | ⟨pieces, rest⟩ := r
  · rfl
  · cases pieces <;> rfl

theorem alternatives?_open (depth : Nat) (s : Text) :
    alternatives? depth ('{' :: s) = keep ['{'] (alternatives? (depth + 1) s) := by
  rw [alternatives?]
  exact if_pos rfl

theorem alternatives?_close (depth : Nat) (s : Text) :
    alternatives? (depth + 1) ('}' :: s) = keep ['}'] (alternatives? depth s) := by
  rw [alternatives?]
  rfl

theorem alternatives?_comma (depth : Nat) (s : Text) :
    alternatives? (depth + 1) (',' :: s) = keep [','] (alternatives? (depth + 1) s) := by
  rw [alternatives?]
  rfl

theorem alternatives?_plain (hc : IsPlain true c) (depth : Nat) (s : Text) :
    alternatives? depth (c :: s) = keep [c] (alternatives? depth s) := by
  rw [alternatives?]
  dsimp only
  rw [if_neg hc.1, if_neg (hc.2 rfl).2, if_neg fun h => (hc.2 rfl).1 h.1]
  rfl

mutual

theorem Braced.alternatives?_text (s : Text) (depth : Nat) : ∀ a : Braced true,
    alternatives? depth (a.text ++ s) = keep a.text (alternatives? depth s)
  | .nil => (keep_nil _).symm
  | .char c hc rest => by
    rw [Braced.text, List.cons_append, alternatives?_plain hc, rest.alternatives?_text s depth,
      keep_keep]
    rfl
  | .group alternatives rest => by
    rw [Braced.text, List.cons_append, List.append_assoc, List.cons_append, alternatives?_open,
      alternatives.alternatives?_inner (rest.text ++ s) depth, rest.alternatives?_text s depth,
      keep_keep, keep_keep]
    simp only [List.cons_append, List.nil_append, List.append_assoc]

/-- An inner group belongs to the alternative that it stands in. -/
theorem Alternatives.alternatives?_inner (s : Text) (depth : Nat) : ∀ alternatives : Alternatives,
    alternatives? (depth + 1) (alternatives.text ++ '}' :: s) =
      keep (alternatives.text ++ ['}']) (alternatives? depth s)
  | .last a => by
    rw [Alternatives.text, a.alternatives?_text _ (depth + 1), alternatives?_close, keep_keep]
  | .cons a others => by
    rw [Alternatives.text, List.append_assoc, a.alternatives?_text _ (depth + 1), List.cons_append,
      alternatives?_comma, others.alternatives?_inner s depth, keep_keep, keep_keep]
    simp only [List.cons_append, List.nil_append, List.append_assoc]

end

theorem Alternatives.alternatives?_text (s : Text) : ∀ alternatives : Alternatives,
    alternatives? 0 (alternatives.text ++ '}' :: s) =
      some (alternatives.toList.map Braced.text, s)
  | .last a => by
    rw [text, a.alternatives?_text, alternatives?]
    simp [keep, toList]
  | .cons a others => by
    rw [text, List.append_assoc, a.alternatives?_text, List.cons_append, alternatives?]
    simp [keep, toList, others.alternatives?_text s]

/-! ### Groups that are not closed -/

/-- What follows the opening brace of a group that is not closed. -/
def Unclosed (s : Text) : Prop :=
  ∀ depth, alternatives? depth s = none ∧ depth < openGroups (depth + 1) s

theorem unclosed_nil : Unclosed [] :=
  fun depth => ⟨rfl, Nat.lt_succ_self depth⟩

theorem Unclosed.plain (hc : IsPlain true c) (h : Unclosed s) : Unclosed (c :: s) := by
  intro depth
  rw [alternatives?_plain hc, (h depth).1, openGroups, if_neg hc.1, if_neg (hc.2 rfl).2]
  exact ⟨rfl, (h depth).2⟩

theorem Unclosed.comma (h : Unclosed s) : Unclosed (',' :: s) := by
  intro depth
  refine ⟨?_, (h depth).2⟩
  rw [alternatives?]
  simp [(h depth).1]

/-- A group is not closed if one in it is not. -/
theorem Unclosed.inner (h : Unclosed s) : Unclosed ('{' :: s) := by
  intro depth
  rw [alternatives?_open, (h (depth + 1)).1, openGroups, if_pos rfl]
  exact ⟨rfl, Nat.lt_of_succ_lt (h (depth + 1)).2⟩

theorem Unclosed.after (inner : Alternatives) (h : Unclosed s) :
    Unclosed ('{' :: (inner.text ++ '}' :: s)) := by
  intro depth
  rw [alternatives?_open, inner.alternatives?_inner, (h depth).1, openGroups, if_pos rfl,
    inner.openGroups_text]
  exact ⟨rfl, (h depth).2⟩

theorem brace_cases (c : Char) : c = '{' ∨ c = '}' ∨ c = ',' ∨ IsPlain true c := by
  by_cases hopen : c = '{'
  · exact .inl hopen
  · by_cases hclose : c = '}'
    · exact .inr (.inl hclose)
    · by_cases hcomma : c = ','
      · exact .inr (.inr (.inl hcomma))
      · exact .inr (.inr (.inr ⟨hopen, fun _ => ⟨hcomma, hclose⟩⟩))

theorem Alternatives.text_char (hc : IsPlain true c) (alternatives : Alternatives) :
    (alternatives.mapFirst (.char c hc)).text = c :: alternatives.text := by
  cases alternatives <;> simp [mapFirst, text, Braced.text]

theorem Alternatives.text_group (alternatives inner : Alternatives) :
    (alternatives.mapFirst (.group inner)).text =
      '{' :: (inner.text ++ '}' :: alternatives.text) := by
  cases alternatives <;> simp [mapFirst, text, Braced.text]

/-- After an opening brace there are the alternatives of a group, or the group is not closed. -/
theorem exists_alternatives_or_unclosed (s : Text) :
    (∃ (alternatives : Alternatives) (rest : Text), s = alternatives.text ++ '}' :: rest) ∨
      Unclosed s := by
  induction hn : s.length using Nat.strongRecOn generalizing s with
  | _ n ih =>
    cases s with
    | nil => exact .inr unclosed_nil
    | cons c s =>
      rw [List.length_cons] at hn
      have hs := ih s.length (by omega) s rfl
      rcases brace_cases c with rfl | rfl | rfl | hc
      · rcases hs with ⟨inner, after, rfl⟩ | hs
        · -- an inner group is closed, and the outer one is still open after it
          rw [List.length_append, List.length_cons] at hn
          rcases ih after.length (by omega) after rfl with ⟨alternatives, rest, rfl⟩ | hafter
          · refine .inl ⟨alternatives.mapFirst (.group inner), rest, ?_⟩
            rw [alternatives.text_group, List.cons_append, List.append_assoc, List.cons_append]
          · exact .inr (hafter.after inner)
        · exact .inr hs.inner
      · exact .inl ⟨.last .nil, s, rfl⟩
      · rcases hs with ⟨alternatives, rest, rfl⟩ | hs
        · exact .inl ⟨.cons .nil alternatives, rest, rfl⟩
        · exact .inr hs.comma
      · rcases hs with ⟨alternatives, rest, rfl⟩ | hs
        · refine .inl ⟨alternatives.mapFirst (.char c hc), rest, ?_⟩
          rw [alternatives.text_char, List.cons_append]
        · exact .inr (hs.plain hc)

/-- A pattern can be read exactly if no group is open at its end. -/
theorem openGroups_eq_zero_iff : openGroups 0 s = 0 ↔ ∃ p : Braced false, p.text = s := by
  constructor
  · intro h
    induction hn : s.length using Nat.strongRecOn generalizing s with
    | _ n ih =>
      cases s with
      | nil => exact ⟨.nil, rfl⟩
      | cons c s =>
        rw [List.length_cons] at hn
        by_cases hopen : c = '{'
        · subst hopen
          rw [openGroups, if_pos rfl] at h
          rcases exists_alternatives_or_unclosed s with ⟨alternatives, rest, rfl⟩ | hs
          · rw [alternatives.openGroups_text] at h
            rw [List.length_append, List.length_cons] at hn
            obtain ⟨p, rfl⟩ := ih rest.length (by omega) h rfl
            exact ⟨.group alternatives p, rfl⟩
          · have hlt := (hs 0).2
            omega
        · -- outside groups all other characters are text
          rw [openGroups, if_neg hopen, Nat.zero_sub, ite_self] at h
          obtain ⟨p, rfl⟩ := ih s.length (by omega) h rfl
          exact ⟨.char c ⟨hopen, fun hfalse => by cases hfalse⟩ p, rfl⟩
  · rintro ⟨p, rfl⟩
    exact p.openGroups_eq_zero

end WorkspaceLink.Glob
