import WorkspaceLink.Proofs.Wire.Documents

/-!
Diagnostics and hover texts are read back as they were read, and so are all others that can be
sent.
-/

namespace WorkspaceLink

open Json Json.Reader

namespace Severity

theorem readsBack (s : Severity) : ReadsBack reader toJson s :=
  natBelow_filterMap_readsBack (by cases s <;> decide) (by cases s <;> rfl)

end Severity

namespace DiagnosticCode

theorem toJson_ne_null (c : DiagnosticCode) : c.toJson ≠ .null := by
  cases c <;> exact Json.noConfusion

/-- Whether a code is one that can be sent. -/
def Fits : DiagnosticCode → Prop
  | .number n => -(integerLimit : Int) ≤ n ∧ n < integerLimit
  | .string _ => True

/-- A number comes back as a number and a text as a text. -/
theorem readsBack {c : DiagnosticCode} (hc : c.Fits) : ReadsBack reader toJson c := by
  intro levels hdepth
  cases c with
  | number n =>
    apply firstOf_first rfl hdepth
    exact map_eq_ok_iff.mpr ⟨n, intBetween_eq_ok_iff.mpr ⟨rfl, hc⟩, rfl⟩
  | string s => exact firstOf_second rfl hdepth nofun rfl

theorem yields : Yields reader Fits := by
  intro levels j code h
  obtain h | ⟨-, h⟩ := firstOf_pair_ok h
  · obtain ⟨n, hn, rfl⟩ := map_eq_ok_iff.mp h
    exact (intBetween_eq_ok_iff.mp hn).2
  · obtain ⟨s, -, rfl⟩ := map_eq_ok_iff.mp h
    exact trivial

end DiagnosticCode

namespace Diagnostic

/-- Whether a diagnostic is one that can be sent. -/
structure Fits (d : Diagnostic) : Prop where
  range : d.range.Fits
  code : ∀ c ∈ d.code, c.Fits

structure Fields.Fit (f : Fields) : Prop where
  range : ∀ r ∈ f.range, r.Fits
  code : ∀ c ∈ f.code, c.Fits

theorem put_fit {levels : Nat} {name : String} {f f' : Fields} {v : Json} (hf : f.Fit)
    (h : put levels name f v = .ok f') : f'.Fit := by
  unfold put at h
  split at h <;> obtain ⟨a, ha, rfl⟩ := bind_pure_eq_ok_iff.mp h
  · exact { hf with range := Range.yields.given ha }
  · exact { hf with }
  · exact { hf with code := DiagnosticCode.yields.of_optional ha }
  · exact { hf with }
  · exact { hf with }

/-- The members written for a diagnostic. -/
def members (d : Diagnostic) : List (String × Json) :=
  [("range", d.range.toJson)] ++ optionalMember "severity" d.severity Severity.toJson ++
    optionalMember "code" d.code DiagnosticCode.toJson ++
    optionalMember "source" d.source .string ++ [("message", .string d.message)]

theorem members_names_sublist (d : Diagnostic) :
    (d.members.map Prod.fst).Sublist ["range", "severity", "code", "source", "message"] := by
  simp only [members, List.map_append]
  change List.Sublist _ (["range"] ++ ["severity"] ++ ["code"] ++ ["source"] ++ ["message"])
  apply List.Sublist.append _ (List.Sublist.refl ["message"])
  apply List.Sublist.append _ optionalMember_names_sublist
  apply List.Sublist.append _ optionalMember_names_sublist
  exact (List.Sublist.refl ["range"]).append optionalMember_names_sublist

/-- What is written for a diagnostic fills in all its fields. -/
theorem fill_members {d : Diagnostic} {levels : Nat} (hdepth : ∀ m ∈ d.members, m.2.depth ≤ levels)
    (hd : d.Fits) :
    fill (put levels) d.members {} =
      .ok ⟨some d.range, d.severity, d.code, d.source, some d.message⟩ := by
  simp only [members, List.forall_mem_append, List.forall_mem_cons,
    forall_mem_optionalMember] at hdepth
  obtain ⟨⟨⟨⟨⟨hrangeDepth, -⟩, hseverityDepth⟩, hcodeDepth⟩, hsourceDepth⟩, -⟩ := hdepth
  have hgivenRange : fill (put levels) [("range", d.range.toJson)] {} =
      .ok ⟨some d.range, none, none, none, none⟩ :=
    fill_cons (bind_pure_ok (Range.readsBack hd.range _ hrangeDepth)) fill_nil
  have hgivenSeverity : fill (put levels) (optionalMember "severity" d.severity Severity.toJson)
      ⟨some d.range, none, none, none, none⟩ = .ok ⟨some d.range, d.severity, none, none, none⟩ :=
    fill_optionalMember (fun s => (⟨some d.range, s, none, none, none⟩ : Fields)) rfl fun s hs =>
      bind_pure_ok (s.readsBack.optional nofun (hseverityDepth s hs))
  have hgivenCode : fill (put levels) (optionalMember "code" d.code DiagnosticCode.toJson)
      ⟨some d.range, d.severity, none, none, none⟩ =
        .ok ⟨some d.range, d.severity, d.code, none, none⟩ :=
    fill_optionalMember (fun c => (⟨some d.range, d.severity, c, none, none⟩ : Fields)) rfl
      fun c hc => bind_pure_ok
        ((DiagnosticCode.readsBack (hd.code c hc)).optional c.toJson_ne_null (hcodeDepth c hc))
  have hgivenSource : fill (put levels) (optionalMember "source" d.source .string)
      ⟨some d.range, d.severity, d.code, none, none⟩ =
        .ok ⟨some d.range, d.severity, d.code, d.source, none⟩ :=
    fill_optionalMember (fun s => (⟨some d.range, d.severity, d.code, s, none⟩ : Fields)) rfl
      fun s hs => bind_pure_ok ((text_readsBack s).optional nofun (hsourceDepth s hs))
  apply fill_append (fill_append (fill_append (fill_append hgivenRange hgivenSeverity) hgivenCode)
    hgivenSource)
  exact fill_cons rfl fill_nil

theorem readsBack {d : Diagnostic} (hd : d.Fits) : ReadsBack reader toJson d := by
  intro levels hdepth
  obtain ⟨hlevels, hmembers⟩ := depth_record_le_iff.mp hdepth
  have hfields := fields_record (by decide) d.members_names_sublist hlevels
    (fill_members hmembers hd)
  exact bind_eq_ok_iff.mpr ⟨_, hfields, rfl⟩

theorem yields : Yields reader Fits := by
  intro levels j d h
  simp only [reader, bind_eq_ok_iff, required_eq_ok_iff] at h
  obtain ⟨f, hf, range, hrange, message, -, h⟩ := h
  cases h
  have hfit : f.Fit := fields_preserves ⟨nofun, nofun⟩ (fun _ _ _ _ _ => put_fit) hf
  exact ⟨hfit.range _ hrange, hfit.code⟩

theorem stableFormat : StableFormat reader toJson Fits :=
  .of yields fun _ => readsBack

end Diagnostic

namespace MarkupContent

/-- The two texts can be anything. -/
theorem readsBack (m : MarkupContent) : ReadsBack reader toJson m := by
  intro levels hdepth
  obtain ⟨hlevels, -⟩ := depth_record_le_iff.mp hdepth
  refine bind_eq_ok_iff.mpr ⟨⟨m.kind, some m.value⟩, fields_record (by decide) ?_ hlevels ?_, rfl⟩
  · exact List.Sublist.refl _
  · exact fill_cons rfl (fill_cons rfl fill_nil)

end MarkupContent

namespace Hover

/-- Whether a hover text is one that can be sent. -/
def Fits (h : Hover) : Prop :=
  ∀ r ∈ h.range, r.Fits

def Fields.Fit (f : Fields) : Prop :=
  ∀ r ∈ f.range, r.Fits

theorem put_fit {levels : Nat} {name : String} {f f' : Fields} {v : Json} (hf : f.Fit)
    (h : put levels name f v = .ok f') : f'.Fit := by
  unfold put at h
  split at h <;> obtain ⟨a, ha, rfl⟩ := bind_pure_eq_ok_iff.mp h
  · exact hf
  · exact Range.yields.of_optional ha

theorem readsBack {h : Hover} (hh : h.Fits) : ReadsBack reader toJson h := by
  intro levels hdepth
  obtain ⟨hlevels, hmembers⟩ := depth_record_le_iff.mp hdepth
  simp only [List.forall_mem_append, List.forall_mem_cons, forall_mem_optionalMember] at hmembers
  obtain ⟨⟨hcontentsDepth, -⟩, hrangeDepth⟩ := hmembers
  refine bind_eq_ok_iff.mpr ⟨⟨some h.contents, h.range⟩,
    fields_record (by decide) ?_ hlevels ?_, rfl⟩
  · rw [List.map_append]
    exact (List.Sublist.refl ["contents"]).append optionalMember_names_sublist
  have hgivenContents : fill (put (levels - 1)) [("contents", h.contents.toJson)] {} =
      .ok ⟨some h.contents, none⟩ :=
    fill_cons (bind_pure_ok (h.contents.readsBack _ hcontentsDepth)) fill_nil
  apply fill_append hgivenContents
  exact fill_optionalMember (fun r => (⟨some h.contents, r⟩ : Fields)) rfl fun r hr =>
    bind_pure_ok ((Range.readsBack (hh r hr)).optional nofun (hrangeDepth r hr))

theorem yields : Yields reader Fits := by
  intro levels j h hread
  simp only [reader, bind_eq_ok_iff, required_eq_ok_iff] at hread
  obtain ⟨f, hf, contents, -, hread⟩ := hread
  cases hread
  have hfit : f.Fit := fields_preserves nofun (fun _ _ _ _ _ => put_fit) hf
  exact hfit

theorem stableFormat : StableFormat reader toJson Fits :=
  .of yields fun _ => readsBack

end Hover

end WorkspaceLink
