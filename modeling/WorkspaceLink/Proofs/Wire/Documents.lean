import WorkspaceLink.Proofs.Wire.ReadsBack

/-!
What servers say about documents is read back as it was read, if its coordinates are some that can
be sent, and only such coordinates are read.
-/

namespace WorkspaceLink

open Json Json.Reader

namespace Position

structure Fields.Fit (f : Fields) : Prop where
  line : ∀ n ∈ f.line, n < coordBound
  character : ∀ n ∈ f.character, n < coordBound

theorem put_fit {levels : Nat} {name : String} {f f' : Fields} {v : Json} (hf : f.Fit)
    (h : put levels name f v = .ok f') : f'.Fit := by
  unfold put at h
  split at h <;> obtain ⟨n, hn, rfl⟩ := bind_pure_eq_ok_iff.mp h
  · exact { hf with line := (natBelow_yields _).given hn }
  · exact { hf with character := (natBelow_yields _).given hn }

theorem readsBack {p : Position} (hp : p.Fits) : ReadsBack reader toJson p := by
  intro levels hdepth
  obtain ⟨hlevels, -⟩ := depth_record_le_iff.mp hdepth
  have hfields : fields ["line", "character"] put {} levels p.toJson =
      .ok ⟨some p.line, some p.character⟩ := by
    refine fields_record (by decide) ?_ hlevels ?_
    · exact List.Sublist.refl _
    refine fill_cons (bind_pure_ok (natBelow_nat hp.1 _)) ?_
    refine fill_cons (bind_pure_ok (natBelow_nat hp.2 _)) ?_
    exact fill_nil
  exact bind_eq_ok_iff.mpr ⟨_, hfields, rfl⟩

theorem yields : Yields reader Fits := by
  intro levels j p h
  simp only [reader, bind_eq_ok_iff, required_eq_ok_iff] at h
  obtain ⟨f, hf, line, hline, character, hcharacter, h⟩ := h
  cases h
  have hfit : f.Fit := fields_preserves ⟨nofun, nofun⟩ (fun _ _ _ _ _ => put_fit) hf
  exact ⟨hfit.line _ hline, hfit.character _ hcharacter⟩

end Position

namespace Range

/-- Whether a range is one that can be sent. -/
def Fits (r : Range) : Prop :=
  r.start.Fits ∧ r.stop.Fits

instance : DecidablePred Fits :=
  fun _ => inferInstanceAs (Decidable (_ ∧ _))

theorem zero_fits : Fits zero := by
  decide

structure Fields.Fit (f : Fields) : Prop where
  start : ∀ p ∈ f.start, p.Fits
  stop : ∀ p ∈ f.stop, p.Fits

theorem put_fit {levels : Nat} {name : String} {f f' : Fields} {v : Json} (hf : f.Fit)
    (h : put levels name f v = .ok f') : f'.Fit := by
  unfold put at h
  split at h <;> obtain ⟨p, hp, rfl⟩ := bind_pure_eq_ok_iff.mp h
  · exact { hf with start := Position.yields.given hp }
  · exact { hf with stop := Position.yields.given hp }

theorem readsBack {r : Range} (hr : r.Fits) : ReadsBack reader toJson r := by
  intro levels hdepth
  obtain ⟨hlevels, hmembers⟩ := depth_record_le_iff.mp hdepth
  simp only [List.forall_mem_cons] at hmembers
  have hfields : fields ["start", "end"] put {} levels r.toJson =
      .ok ⟨some r.start, some r.stop⟩ := by
    refine fields_record (by decide) ?_ hlevels ?_
    · exact List.Sublist.refl _
    refine fill_cons (bind_pure_ok (Position.readsBack hr.1 _ hmembers.1)) ?_
    refine fill_cons (bind_pure_ok (Position.readsBack hr.2 _ hmembers.2.1)) ?_
    exact fill_nil
  exact bind_eq_ok_iff.mpr ⟨_, hfields, rfl⟩

theorem yields : Yields reader Fits := by
  intro levels j r h
  simp only [reader, bind_eq_ok_iff, required_eq_ok_iff] at h
  obtain ⟨f, hf, start, hstart, stop, hstop, h⟩ := h
  cases h
  have hfit : f.Fit := fields_preserves ⟨nofun, nofun⟩ (fun _ _ _ _ _ => put_fit) hf
  exact ⟨hfit.start _ hstart, hfit.stop _ hstop⟩

end Range

namespace DocumentUri

theorem readsBack (u : DocumentUri) : ReadsBack reader toJson u :=
  fun _ _ => rfl

end DocumentUri

namespace Location

/-- Whether a location is one that can be sent. -/
def Fits (l : Location) : Prop :=
  l.range.Fits

instance : DecidablePred Fits :=
  fun l => inferInstanceAs (Decidable l.range.Fits)

def Fields.Fit (f : Fields) : Prop :=
  ∀ r ∈ f.range, r.Fits

theorem put_fit {levels : Nat} {name : String} {f f' : Fields} {v : Json} (hf : f.Fit)
    (h : put levels name f v = .ok f') : f'.Fit := by
  unfold put at h
  split at h <;> obtain ⟨a, ha, rfl⟩ := bind_pure_eq_ok_iff.mp h
  · exact hf
  · exact Range.yields.given ha

theorem readsBack {l : Location} (hl : l.Fits) : ReadsBack reader toJson l := by
  intro levels hdepth
  obtain ⟨hlevels, hmembers⟩ := depth_record_le_iff.mp hdepth
  simp only [List.forall_mem_cons] at hmembers
  have hfields : fields ["uri", "range"] put {} levels l.toJson =
      .ok ⟨some l.uri, some l.range⟩ := by
    refine fields_record (by decide) ?_ hlevels ?_
    · exact List.Sublist.refl _
    refine fill_cons (bind_pure_ok (l.uri.readsBack _ hmembers.1)) ?_
    refine fill_cons (bind_pure_ok (Range.readsBack hl _ hmembers.2.1)) ?_
    exact fill_nil
  exact bind_eq_ok_iff.mpr ⟨_, hfields, rfl⟩

theorem yields : Yields reader Fits := by
  intro levels j l h
  simp only [reader, bind_eq_ok_iff, required_eq_ok_iff] at h
  obtain ⟨f, hf, uri, -, range, hrange, h⟩ := h
  cases h
  have hfit : f.Fit := fields_preserves nofun (fun _ _ _ _ _ => put_fit) hf
  exact hfit _ hrange

theorem stableFormat : StableFormat reader toJson Fits :=
  .of yields fun _ => readsBack

end Location

end WorkspaceLink
