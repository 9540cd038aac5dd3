import WorkspaceLink.Proofs.Wire.Documents

/-!
Symbols are read back as they were read, whether as a tree or as a flat list, and so is every tree
and every flat list of symbols that can be sent. Kinds that are not known keep their numbers.
-/

namespace WorkspaceLink

open Json Json.Reader

namespace SymbolKind

/-- The number of a kind is the number that it was read from. -/
theorem toNumber_ofNumber (n : Nat) : (ofNumber n).toNumber = n := by
  have hnamed : ∀ k < named.length, (ofNumber (k + 1)).toNumber = k + 1 := by decide
  cases n with
  | zero => rfl
  | succ k =>
    by_cases hk : k < named.length
    · exact hnamed k hk
    · rw [ofNumber, List.getElem?_eq_none (by omega)]
      rfl

/-- Whether a kind is one that can be sent: it goes by its number. -/
def Fits (k : SymbolKind) : Prop :=
  k.toNumber < 256 ∧ ofNumber k.toNumber = k

instance : DecidablePred Fits :=
  fun _ => inferInstanceAs (Decidable (_ ∧ _))

theorem readsBack {k : SymbolKind} (hk : k.Fits) : ReadsBack reader toJson k :=
  natBelow_map_readsBack hk.1 hk.2

theorem yields : Yields reader Fits := by
  intro levels j k h
  obtain ⟨n, hn, rfl⟩ := map_eq_ok_iff.mp h
  rw [Fits, toNumber_ofNumber]
  exact ⟨natBelow_lt hn, rfl⟩

end SymbolKind

namespace DocumentSymbol

theorem allToJson_eq (symbols : List DocumentSymbol) : allToJson symbols = symbols.map toJson := by
  induction symbols with
  | nil => rfl
  | cons s symbols ih => rw [allToJson, ih, List.map_cons]

/-- The members written for a symbol; its children are one that may be absent. -/
def members (s : DocumentSymbol) : List (String × Json) :=
  [("name", .string s.name)] ++ optionalMember "detail" s.detail .string ++
    [("kind", s.kind.toJson), ("range", s.range.toJson),
      ("selectionRange", s.selectionRange.toJson)] ++
    optionalMember "children" (if s.children.isEmpty then none else some s.children)
      fun symbols => .list (symbols.map toJson)

theorem toJson_eq (s : DocumentSymbol) : s.toJson = .record s.members := by
  cases s with
  | mk name detail kind range selectionRange children =>
    rw [toJson, members, allToJson_eq]
    cases children <;> rfl

/-! ### Reading to a depth -/

/-- The names of the fields of a symbol. -/
abbrev fieldNames : List String :=
  ["name", "detail", "kind", "range", "selectionRange", "children"]

theorem put_congr {child child' : Reader DocumentSymbol} {levels : Nat}
    (h : 0 < levels → child (levels - 1) = child' (levels - 1)) :
    put child levels = put child' levels := by
  funext name f v
  simp only [put, list_congr h]

theorem readerTo_congr {n m levels : Nat}
    (h : 1 < levels → readerTo n (levels - 2) = readerTo m (levels - 2)) :
    readerTo (n + 1) levels = readerTo (m + 1) levels := by
  funext j
  have hfields : fields fieldNames (put (readerTo n)) {} levels j =
      fields fieldNames (put (readerTo m)) {} levels j :=
    fields_congr fun _ => put_congr fun _ => h (by omega)
  simp only [readerTo, hfields]

/-- A depth that the levels of nesting do not allow for is as good as any other. -/
theorem readerTo_eq_reader {n levels : Nat} (h : levels < n) :
    readerTo n levels = reader levels := by
  induction levels using Nat.strongRecOn generalizing n with
  | ind levels ih =>
    obtain ⟨n, rfl⟩ := Nat.exists_eq_succ_of_ne_zero (by omega : n ≠ 0)
    apply readerTo_congr
    intro hlevels
    rw [ih (levels - 2) (by omega) (by omega), ih (levels - 2) (by omega) (by omega)]

theorem reader_eq (levels : Nat) (j : Json) : reader levels j = do
    let f ← fields fieldNames (put reader) {} levels j
    return ⟨← required f.name, f.detail, ← required f.kind, ← required f.range, f.selectionRange,
      f.children⟩ := by
  have hfields : fields fieldNames (put (readerTo levels)) {} levels j =
      fields fieldNames (put reader) {} levels j :=
    fields_congr fun _ => put_congr fun _ => readerTo_eq_reader (by omega)
  change readerTo (levels + 1) levels j = _
  simp only [readerTo, hfields]

/-- Whether a symbol is one that can be sent, with all symbols nested in it. -/
inductive Fits : DocumentSymbol → Prop
  | mk {s : DocumentSymbol} (kind : s.kind.Fits) (range : s.range.Fits)
      (selectionRange : s.selectionRange.Fits) (children : ∀ c ∈ s.children, Fits c) : Fits s

structure Fields.Fit (f : Fields) : Prop where
  kind : ∀ k ∈ f.kind, k.Fits
  range : ∀ r ∈ f.range, r.Fits
  selectionRange : f.selectionRange.Fits
  children : ∀ s ∈ f.children, s.Fits

theorem put_fit {child : Reader DocumentSymbol} {levels : Nat}
    (hchild : 0 < levels → ∀ v s, child (levels - 1) v = .ok s → s.Fits)
    {name : String} {f f' : Fields} {v : Json} (hf : f.Fit)
    (h : put child levels name f v = .ok f') : f'.Fit := by
  unfold put at h
  split at h <;> obtain ⟨a, ha, rfl⟩ := bind_pure_eq_ok_iff.mp h
  · exact { hf with }
  · exact { hf with }
  · exact { hf with kind := SymbolKind.yields.given ha }
  · exact { hf with range := Range.yields.given ha }
  · exact { hf with selectionRange := Range.yields _ _ _ ha }
  · refine { hf with children := fun s hs => ?_ }
    obtain ⟨hlevels, w, hw⟩ := exists_of_mem_list ha hs
    exact hchild hlevels w s hw

theorem members_names_sublist (s : DocumentSymbol) :
    (s.members.map Prod.fst).Sublist fieldNames := by
  simp only [members, List.map_append]
  change List.Sublist _ (["name"] ++ ["detail"] ++ ["kind", "range", "selectionRange"] ++
    ["children"])
  apply List.Sublist.append _ optionalMember_names_sublist
  apply List.Sublist.append _ (List.Sublist.refl ["kind", "range", "selectionRange"])
  exact (List.Sublist.refl ["name"]).append optionalMember_names_sublist

/-- What is written for a symbol fills in all its fields. -/
theorem fill_members {s : DocumentSymbol} {levels : Nat}
    (hdepth : ∀ m ∈ s.members, m.2.depth ≤ levels)
    (hkind : s.kind.Fits) (hrange : s.range.Fits) (hselectionRange : s.selectionRange.Fits)
    (hchildren : ∀ c ∈ s.children, ReadsBack reader toJson c) :
    fill (put reader levels) s.members {} =
      .ok ⟨some s.name, s.detail, some s.kind, some s.range, s.selectionRange, s.children⟩ := by
  simp only [members, List.forall_mem_append, List.forall_mem_cons,
    forall_mem_optionalMember] at hdepth
  obtain ⟨⟨⟨-, hdetail⟩, hkindDepth, hrangeDepth, hselectionDepth, -⟩, hchildrenDepth⟩ := hdepth
  have hgivenName : fill (put reader levels) [("name", .string s.name)] {} =
      .ok ⟨some s.name, none, none, none, .zero, []⟩ :=
    fill_cons rfl fill_nil
  have hgivenDetail : fill (put reader levels) (optionalMember "detail" s.detail .string)
      ⟨some s.name, none, none, none, .zero, []⟩ =
        .ok ⟨some s.name, s.detail, none, none, .zero, []⟩ :=
    fill_optionalMember (fun d => (⟨some s.name, d, none, none, .zero, []⟩ : Fields)) rfl
      fun d hd => bind_pure_ok ((text_readsBack d).optional nofun (hdetail d hd))
  have hgivenRanges : fill (put reader levels) [("kind", s.kind.toJson),
      ("range", s.range.toJson), ("selectionRange", s.selectionRange.toJson)]
      ⟨some s.name, s.detail, none, none, .zero, []⟩ =
        .ok ⟨some s.name, s.detail, some s.kind, some s.range, s.selectionRange, []⟩ := by
    refine fill_cons (bind_pure_ok (SymbolKind.readsBack hkind _ hkindDepth)) ?_
    refine fill_cons (bind_pure_ok (Range.readsBack hrange _ hrangeDepth)) ?_
    refine fill_cons (bind_pure_ok (Range.readsBack hselectionRange _ hselectionDepth)) ?_
    exact fill_nil
  apply fill_append (fill_append (fill_append hgivenName hgivenDetail) hgivenRanges)
  -- No children are written as no member, and read as no children.
  cases hnil : s.children with
  | nil => rfl
  | cons c cs =>
    rw [hnil] at hchildren hchildrenDepth
    refine fill_cons (bind_pure_ok (list_readsBack hchildren _ ?_)) fill_nil
    exact hchildrenDepth (c :: cs) rfl

theorem readsBack {s : DocumentSymbol} (hs : s.Fits) : ReadsBack reader toJson s := by
  induction hs with
  | @mk s hkind hrange hselectionRange _ hchildren =>
    intro levels hdepth
    rw [toJson_eq] at hdepth ⊢
    obtain ⟨hlevels, hmembers⟩ := depth_record_le_iff.mp hdepth
    have hfields := fields_record (by decide) s.members_names_sublist hlevels
      (fill_members hmembers hkind hrange hselectionRange hchildren)
    rw [reader_eq, hfields]
    cases s
    rfl

theorem yields : Yields reader Fits := by
  intro levels
  -- The children of a symbol are read with two levels less than the symbol.
  induction levels using Nat.strongRecOn with
  | ind levels ih =>
    intro j s h
    simp only [reader_eq, bind_eq_ok_iff, required_eq_ok_iff] at h
    obtain ⟨f, hf, name, -, kind, hkind, range, hrange, h⟩ := h
    cases h
    have hfit : f.Fit := by
      apply fields_preserves ⟨nofun, nofun, Range.zero_fits, nofun⟩ _ hf
      intro hlevels name f v f' hf
      exact put_fit (fun _ => ih (levels - 1 - 1) (by omega)) hf
    exact .mk (hfit.kind _ hkind) (hfit.range _ hrange) hfit.selectionRange hfit.children

theorem stableFormat : StableFormat reader toJson Fits :=
  .of yields fun _ => readsBack

/-! ### What is written -/

mutual

theorem toJson_whole : (s : DocumentSymbol) → s.toJson.whole = true
  | ⟨name, detail, kind, range, selectionRange, children⟩ => by
    have hchildren := allToJson_whole children
    cases detail <;> cases h : children.isEmpty <;>
      simp [toJson, optionalMember, whole_record, whole_list, whole, SymbolKind.toJson, nat,
        Range.toJson, Position.toJson, hchildren, h]

theorem allToJson_whole : (symbols : List DocumentSymbol) →
    (allToJson symbols).all whole = true
  | [] => rfl
  | s :: symbols => by
    rw [allToJson, List.all_cons, toJson_whole s, allToJson_whole symbols]
    rfl

end

/-- Fields of other names leave the range as it is. -/
theorem put_range {child : Reader DocumentSymbol} {levels : Nat} {name : String} {f f' : Fields}
    {v : Json} (hname : name ≠ "range") (h : put child levels name f v = .ok f') :
    f'.range = f.range := by
  unfold put at h
  split at h <;> obtain ⟨a, ha, rfl⟩ := bind_pure_eq_ok_iff.mp h
  case h_4 => exact absurd rfl hname
  all_goals rfl

/-- An object without a range is no symbol of a tree. -/
theorem reader_ne_ok {levels : Nat} {members : List (String × Json)}
    (h : ∀ m ∈ members, m.1 ≠ "range") (s : DocumentSymbol) :
    reader levels (.record members) ≠ .ok s := by
  intro hs
  simp only [reader_eq, bind_eq_ok_iff, required_eq_ok_iff] at hs
  obtain ⟨f, hf, -, -, -, -, range, hrange, -⟩ := hs
  -- The range is not there at the start, and no member given puts one in.
  have hnone : f.range = none := by
    apply fields_record_preserves (P := fun f => f.range = none) rfl _ hf
    intro m hm f f' hf h'
    exact (put_range (h m hm) h').trans hf
  rw [hnone] at hrange
  cases hrange

end DocumentSymbol

namespace SymbolInformation

/-- Whether a symbol is one that can be sent. -/
def Fits (s : SymbolInformation) : Prop :=
  s.kind.Fits ∧ s.location.Fits

instance : DecidablePred Fits :=
  fun _ => inferInstanceAs (Decidable (_ ∧ _))

structure Fields.Fit (f : Fields) : Prop where
  kind : ∀ k ∈ f.kind, k.Fits
  location : ∀ l ∈ f.location, l.Fits

theorem put_fit {levels : Nat} {name : String} {f f' : Fields} {v : Json} (hf : f.Fit)
    (h : put levels name f v = .ok f') : f'.Fit := by
  unfold put at h
  split at h <;> obtain ⟨a, ha, rfl⟩ := bind_pure_eq_ok_iff.mp h
  · exact { hf with }
  · exact { hf with kind := SymbolKind.yields.given ha }
  · exact { hf with location := Location.yields.given ha }
  · exact { hf with }

theorem readsBack {s : SymbolInformation} (hs : s.Fits) : ReadsBack reader toJson s := by
  intro levels hdepth
  obtain ⟨hlevels, hmembers⟩ := depth_record_le_iff.mp hdepth
  simp only [List.forall_mem_append, List.forall_mem_cons, forall_mem_optionalMember] at hmembers
  obtain ⟨⟨-, hkindDepth, hlocationDepth, -⟩, hcontainer⟩ := hmembers
  refine bind_eq_ok_iff.mpr ⟨⟨some s.name, some s.kind, some s.location, s.containerName⟩,
    fields_record (by decide) ?_ hlevels ?_, rfl⟩
  · rw [List.map_append]
    exact (List.Sublist.refl ["name", "kind", "location"]).append optionalMember_names_sublist
  have hgiven : fill (put (levels - 1))
      [("name", .string s.name), ("kind", s.kind.toJson), ("location", s.location.toJson)] {} =
        .ok ⟨some s.name, some s.kind, some s.location, none⟩ := by
    refine fill_cons rfl ?_
    refine fill_cons (bind_pure_ok (SymbolKind.readsBack hs.1 _ hkindDepth)) ?_
    refine fill_cons (bind_pure_ok (Location.readsBack hs.2 _ hlocationDepth)) ?_
    exact fill_nil
  apply fill_append hgiven
  exact fill_optionalMember
    (fun c => (⟨some s.name, some s.kind, some s.location, c⟩ : Fields)) rfl fun c hc =>
      bind_pure_ok ((text_readsBack c).optional nofun (hcontainer c hc))

theorem yields : Yields reader Fits := by
  intro levels j s h
  simp only [reader, bind_eq_ok_iff, required_eq_ok_iff] at h
  obtain ⟨f, hf, name, -, kind, hkind, location, hlocation, h⟩ := h
  cases h
  have hfit : f.Fit := fields_preserves ⟨nofun, nofun⟩ (fun _ _ _ _ _ => put_fit) hf
  exact ⟨hfit.kind _ hkind, hfit.location _ hlocation⟩

theorem stableFormat : StableFormat reader toJson Fits :=
  .of yields fun _ => readsBack

theorem toJson_whole (s : SymbolInformation) : s.toJson.whole = true := by
  cases h : s.containerName <;>
    simp [toJson, optionalMember, whole_record, whole, SymbolKind.toJson, nat, Location.toJson,
      DocumentUri.toJson, Range.toJson, Position.toJson, h]

/-- What is written for a symbol of a flat list is not read as a symbol of a tree. -/
theorem documentSymbol_reader_toJson_ne (s : SymbolInformation) (levels : Nat)
    (t : DocumentSymbol) : DocumentSymbol.reader levels s.toJson ≠ .ok t := by
  apply DocumentSymbol.reader_ne_ok
  simp only [List.forall_mem_append, List.forall_mem_cons, forall_mem_optionalMember]
  exact ⟨⟨by decide, by decide, by decide, nofun⟩, fun _ _ => by decide⟩

end SymbolInformation

namespace SymbolResponse

/-- Whether a response is one that can be sent and is not mistaken for another: a flat list without
any symbol is read as a tree. -/
def Fits : SymbolResponse → Prop
  | .nested symbols => ∀ s ∈ symbols, s.Fits
  | .flat symbols => symbols ≠ [] ∧ ∀ s ∈ symbols, s.Fits

/-- A tree comes back as a tree. -/
theorem nested_readsBack {symbols : List DocumentSymbol} (h : ∀ s ∈ symbols, s.Fits) :
    ReadsBack reader toJson (.nested symbols) := by
  intro levels hdepth
  rw [toJson, DocumentSymbol.allToJson_eq] at hdepth ⊢
  have hwhole : (Json.list (symbols.map DocumentSymbol.toJson)).whole = true := by
    rw [whole_list, ← DocumentSymbol.allToJson_eq]
    exact DocumentSymbol.allToJson_whole symbols
  apply firstOf_first hwhole hdepth
  rw [list_readsBack (fun s hs => DocumentSymbol.readsBack (h s hs)) levels hdepth]
  rfl

/-- A flat list comes back as a flat list, as none of its symbols is read as one of a tree. -/
theorem flat_readsBack {symbols : List SymbolInformation} (hne : symbols ≠ [])
    (h : ∀ s ∈ symbols, s.Fits) : ReadsBack reader toJson (.flat symbols) := by
  intro levels hdepth
  rw [toJson] at hdepth ⊢
  have hwhole : (Json.list (symbols.map SymbolInformation.toJson)).whole = true := by
    rw [whole_list, List.all_map, List.all_eq_true]
    exact fun s _ => s.toJson_whole
  apply firstOf_second hwhole hdepth
  · intro response h'
    obtain ⟨trees, htrees, -⟩ := map_eq_ok_iff.mp h'
    obtain ⟨-, items, hitems, hread⟩ := list_eq_ok_iff.mp htrees
    cases hitems
    obtain ⟨s, symbols, rfl⟩ := List.exists_cons_of_ne_nil hne
    cases trees with
    | nil => cases hread
    | cons t trees => exact s.documentSymbol_reader_toJson_ne _ t (List.cons_eq_cons.mp hread).1
  · rw [list_readsBack (fun s hs => SymbolInformation.readsBack (h s hs)) levels hdepth]
    rfl

theorem yields : Yields reader Fits := by
  intro levels j response h
  obtain h | ⟨hfirst, h⟩ := firstOf_pair_ok h
  · obtain ⟨symbols, hsymbols, rfl⟩ := map_eq_ok_iff.mp h
    exact DocumentSymbol.yields.list levels j symbols hsymbols
  · obtain ⟨symbols, hsymbols, rfl⟩ := map_eq_ok_iff.mp h
    refine ⟨?_, SymbolInformation.yields.list levels j symbols hsymbols⟩
    rintro rfl
    exact hfirst (.nested []) (map_eq_ok_iff.mpr ⟨[], list_nil hsymbols, rfl⟩)

theorem stableFormat : StableFormat reader toJson Fits := by
  refine .of yields fun response h => ?_
  cases response with
  | nested symbols => exact nested_readsBack h
  | flat symbols => exact flat_readsBack h.1 h.2

end SymbolResponse

end WorkspaceLink
