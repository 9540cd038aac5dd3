import WorkspaceLink.Proofs.Wire.ReadsBack
import WorkspaceLink.Wire.Watching

/-!
Watch registrations and settings are read back as they were read, and so are all that can be
written. Of a mask the bits that mean nothing are dropped once; settings that were not given are
written with their defaults.
-/

namespace WorkspaceLink

open Json Json.Reader

namespace WatchMask

theorem bits_lt (m : WatchMask) : m.bits < 256 := by
  obtain ⟨create, change, delete⟩ := m
  cases create <;> cases change <;> cases delete <;> decide

theorem readsBack (m : WatchMask) : ReadsBack reader toJson m :=
  natBelow_map_readsBack m.bits_lt (ofBits_bits m)

/-- The bits of a number are the three lowest. -/
theorem bits_ofBits (n : Nat) : (ofBits n).bits = n % 8 := by
  simp only [bits, ofBits, Nat.toNat_testBit]
  omega

end WatchMask

namespace GlobSpec

/-- The two texts can be anything. -/
theorem readsBack (g : GlobSpec) : ReadsBack reader toJson g := by
  intro levels hdepth
  obtain ⟨hlevels, hmembers⟩ := depth_record_le_iff.mp hdepth
  simp only [List.forall_mem_append, List.forall_mem_cons, forall_mem_optionalMember] at hmembers
  refine bind_eq_ok_iff.mpr ⟨⟨g.base, some g.pattern⟩, fields_record (by decide) ?_ hlevels ?_, rfl⟩
  · rw [List.map_append]
    exact optionalMember_names_sublist.append (.refl ["pattern"])
  have hgivenBase : fill (put (levels - 1)) (optionalMember "basePath" g.base .string) {} =
      .ok ⟨g.base, none⟩ :=
    fill_optionalMember (fun b => (⟨b, none⟩ : Fields)) rfl fun b hb =>
      bind_pure_ok ((text_readsBack b).optional nofun (hmembers.1 b hb))
  apply fill_append hgivenBase
  exact fill_cons rfl fill_nil

end GlobSpec

namespace WatchRegistration

/-- Texts and mask can be anything. -/
theorem readsBack (r : WatchRegistration) : ReadsBack reader toJson r := by
  intro levels hdepth
  obtain ⟨hlevels, hmembers⟩ := depth_record_le_iff.mp hdepth
  simp only [List.forall_mem_append, List.forall_mem_cons, forall_mem_optionalMember] at hmembers
  obtain ⟨⟨hglobDepth, -⟩, hkindDepth⟩ := hmembers
  refine bind_eq_ok_iff.mpr ⟨⟨some r.glob, r.kind⟩, fields_record (by decide) ?_ hlevels ?_, rfl⟩
  · rw [List.map_append]
    exact (List.Sublist.refl ["globPattern"]).append optionalMember_names_sublist
  have hgivenGlob : fill (put (levels - 1)) [("globPattern", r.glob.toJson)] {} =
      .ok ⟨some r.glob, none⟩ :=
    fill_cons (bind_pure_ok (r.glob.readsBack _ hglobDepth)) fill_nil
  apply fill_append hgivenGlob
  exact fill_optionalMember (fun m => (⟨some r.glob, m⟩ : Fields)) rfl fun m hm =>
    bind_pure_ok (m.readsBack.optional nofun (hkindDepth m hm))

theorem stableFormat : StableFormat reader toJson fun _ => True :=
  .of (fun _ _ _ _ => trivial) fun r _ => r.readsBack

end WatchRegistration

namespace WatchSettings

/-- The numbers are small enough to be written and read. -/
structure Fits (s : WatchSettings) : Prop where
  debounceMs : s.debounceMs < wordBound
  openBatchSize : s.openBatchSize < wordBound
  openBatchPauseMs : s.openBatchPauseMs < wordBound

theorem default_fits : Fits .default := by
  constructor <;> decide

theorem put_fits {levels : Nat} {name : String} {s s' : WatchSettings} {v : Json} (hs : s.Fits)
    (h : put levels name s v = .ok s') : s'.Fits := by
  unfold put at h
  split at h <;> obtain ⟨a, ha, rfl⟩ := bind_pure_eq_ok_iff.mp h
  · exact { hs with debounceMs := natBelow_lt ha }
  · exact { hs with openBatchSize := natBelow_lt ha }
  · exact { hs with openBatchPauseMs := natBelow_lt ha }
  · exact { hs with }
  · exact { hs with }

theorem readsBack {s : WatchSettings} (hs : s.Fits) : ReadsBack reader toJson s := by
  intro levels hdepth
  obtain ⟨hlevels, -⟩ := depth_record_le_iff.mp hdepth
  refine fields_record (by decide) ?_ hlevels ?_
  · exact List.Sublist.refl _
  refine fill_cons (bind_pure_ok (natBelow_nat hs.debounceMs _)) ?_
  refine fill_cons (bind_pure_ok (natBelow_nat hs.openBatchSize _)) ?_
  refine fill_cons (bind_pure_ok (natBelow_nat hs.openBatchPauseMs _)) ?_
  exact fill_cons rfl (fill_cons rfl fill_nil)

theorem yields : Yields reader Fits :=
  fun _ _ _ h => fields_preserves default_fits (fun _ _ _ _ _ => put_fits) h

end WatchSettings

namespace ExclusionSettings

def Fits (s : ExclusionSettings) : Prop :=
  s.maxFileSize < wordBound

theorem default_fits : Fits .default := by
  unfold Fits
  decide

theorem put_fits {levels : Nat} {name : String} {s s' : ExclusionSettings} {v : Json}
    (hs : s.Fits) (h : put levels name s v = .ok s') : s'.Fits := by
  unfold put at h
  split at h <;> obtain ⟨a, ha, rfl⟩ := bind_pure_eq_ok_iff.mp h
  case h_4 => exact natBelow_lt ha
  all_goals exact hs

theorem readsBack {s : ExclusionSettings} (hs : s.Fits) : ReadsBack reader toJson s := by
  intro levels hdepth
  obtain ⟨hlevels, hmembers⟩ := depth_record_le_iff.mp hdepth
  simp only [List.forall_mem_cons] at hmembers
  obtain ⟨hdirs, hextensions, hbinaryExtensions, -⟩ := hmembers
  have hlist (texts : List Text) : ReadsBack (list text) (fun as => .list (as.map .string)) texts :=
    list_readsBack fun s _ => text_readsBack s
  refine fields_record (by decide) ?_ hlevels ?_
  · exact List.Sublist.refl _
  refine fill_cons (bind_pure_ok (hlist s.dirs _ hdirs)) ?_
  refine fill_cons (bind_pure_ok (hlist s.extensions _ hextensions)) ?_
  refine fill_cons (bind_pure_ok (hlist s.binaryExtensions _ hbinaryExtensions)) ?_
  refine fill_cons (bind_pure_ok (natBelow_nat hs _)) ?_
  exact fill_cons rfl fill_nil

theorem yields : Yields reader Fits :=
  fun _ _ _ h => fields_preserves default_fits (fun _ _ _ _ _ => put_fits) h

end ExclusionSettings

namespace RenderSettings

/-- The numbers are small enough to be written and read. -/
structure Fits (s : RenderSettings) : Prop where
  maxLines : s.maxLines < wordBound
  headLines : s.headLines < wordBound
  tailLines : s.tailLines < wordBound
  contextLines : s.contextLines < wordBound
  fallbackContextLines : s.fallbackContextLines < coordBound
  referencesPerLine : s.referencesPerLine < wordBound

theorem default_fits : Fits .default := by
  constructor <;> decide

theorem put_fits {levels : Nat} {name : String} {s s' : RenderSettings} {v : Json} (hs : s.Fits)
    (h : put levels name s v = .ok s') : s'.Fits := by
  unfold put at h
  split at h <;> obtain ⟨a, ha, rfl⟩ := bind_pure_eq_ok_iff.mp h
  · exact { hs with maxLines := natBelow_lt ha }
  · exact { hs with headLines := natBelow_lt ha }
  · exact { hs with tailLines := natBelow_lt ha }
  · exact { hs with contextLines := natBelow_lt ha }
  · exact { hs with fallbackContextLines := natBelow_lt ha }
  · exact { hs with referencesPerLine := natBelow_lt ha }

theorem readsBack {s : RenderSettings} (hs : s.Fits) : ReadsBack reader toJson s := by
  intro levels hdepth
  obtain ⟨hlevels, -⟩ := depth_record_le_iff.mp hdepth
  refine fields_record (by decide) ?_ hlevels ?_
  · exact List.Sublist.refl _
  refine fill_cons (bind_pure_ok (natBelow_nat hs.maxLines _)) ?_
  refine fill_cons (bind_pure_ok (natBelow_nat hs.headLines _)) ?_
  refine fill_cons (bind_pure_ok (natBelow_nat hs.tailLines _)) ?_
  refine fill_cons (bind_pure_ok (natBelow_nat hs.contextLines _)) ?_
  refine fill_cons (bind_pure_ok (natBelow_nat hs.fallbackContextLines _)) ?_
  refine fill_cons (bind_pure_ok (natBelow_nat hs.referencesPerLine _)) ?_
  exact fill_nil

theorem yields : Yields reader Fits :=
  fun _ _ _ h => fields_preserves default_fits (fun _ _ _ _ _ => put_fits) h

end RenderSettings

namespace Settings

/-- The numbers are small enough to be written and read. -/
structure Fits (s : Settings) : Prop where
  watch : s.watch.Fits
  exclude : s.exclude.Fits
  render : s.render.Fits

theorem default_fits : Fits .default where
  watch := WatchSettings.default_fits
  exclude := ExclusionSettings.default_fits
  render := RenderSettings.default_fits

theorem put_fits {levels : Nat} {name : String} {s s' : Settings} {v : Json} (hs : s.Fits)
    (h : put levels name s v = .ok s') : s'.Fits := by
  unfold put at h
  split at h <;> obtain ⟨a, ha, rfl⟩ := bind_pure_eq_ok_iff.mp h
  · exact { hs with watch := WatchSettings.yields _ _ _ ha }
  · exact { hs with exclude := ExclusionSettings.yields _ _ _ ha }
  · exact { hs with render := RenderSettings.yields _ _ _ ha }

theorem readsBack {s : Settings} (hs : s.Fits) : ReadsBack reader toJson s := by
  intro levels hdepth
  obtain ⟨hlevels, hmembers⟩ := depth_record_le_iff.mp hdepth
  simp only [List.forall_mem_cons] at hmembers
  obtain ⟨hwatch, hexclude, hrender, -⟩ := hmembers
  refine fields_record (by decide) ?_ hlevels ?_
  · exact List.Sublist.refl _
  refine fill_cons (bind_pure_ok (WatchSettings.readsBack hs.watch _ hwatch)) ?_
  refine fill_cons (bind_pure_ok (ExclusionSettings.readsBack hs.exclude _ hexclude)) ?_
  refine fill_cons (bind_pure_ok (RenderSettings.readsBack hs.render _ hrender)) ?_
  exact fill_nil

theorem yields : Yields reader Fits :=
  fun _ _ _ h => fields_preserves default_fits (fun _ _ _ _ _ => put_fits) h

theorem stableFormat : StableFormat reader toJson Fits :=
  .of yields fun _ => readsBack

end Settings

end WorkspaceLink
