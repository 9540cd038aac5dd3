import WorkspaceLink.Proofs.Report.References

/-!
The order in which a client lists symbols and references. The references report is the same for all
of them, as whatever depends on the order is sorted first.
-/

namespace WorkspaceLink

namespace Position

/-- Sorting forgets in what order positions were given. -/
theorem sort_congr {ps qs : List Position} (h : ps.Perm qs) : sort ps = sort qs := by
  have hperm : (sort ps).Perm (sort qs) := (sort_perm ps).trans (h.trans (sort_perm qs).symm)
  apply hperm.eq_of_pairwise _ (sort_ascending ps) (sort_ascending qs)
  intro a b _ _ hab hba
  exact le_antisymm hab hba

end Position

/-- Two answers that list the same items, in any order, or that fail for the same reason. -/
inductive SameItems {α : Type} :
    Except ClientError (List α) → Except ClientError (List α) → Prop where
  | listed {as bs : List α} (h : as.Perm bs) : SameItems (.ok as) (.ok bs)
  | failed (e : ClientError) : SameItems (.error e) (.error e)

namespace SameItems

variable {α β : Type} {x y : Except ClientError (List α)}

theorem perm (h : SameItems x y) : (x.toOption.getD []).Perm (y.toOption.getD []) := by
  cases h with
  | listed hperm => exact hperm
  | failed e => exact .rfl

theorem map_eq {f g : List α → β} (h : SameItems x y) (hfg : ∀ {as bs}, as.Perm bs → f as = g bs) :
    (x.mapError ReportError.client).map f = (y.mapError ReportError.client).map g := by
  cases h with
  | listed hperm => exact congrArg Except.ok (hfg hperm)
  | failed e => rfl

end SameItems

/-- Clients that tell the same of definitions, references and documents each time they are asked,
but may list symbols and references in different orders. -/
structure LanguageClient.SameButOrder (client client' : LanguageClient) : Prop where
  symbols : ∀ name n,
    SameItems (client.workspaceSymbolsAnswer name n) (client'.workspaceSymbolsAnswer name n)
  references : ∀ uri p n,
    SameItems (client.referencesAnswer uri p n) (client'.referencesAnswer uri p n)
  outline : ∀ uri n, client.documentSymbolsAnswer uri n = client'.documentSymbolsAnswer uri n

namespace ReferencesReport

variable {client client' : LanguageClient} {files : FileTree} {settings : RenderSettings}
  {name : Text} {symbols symbols' : List SymbolInformation}
  {references references' places places' : List Location}

theorem definitions_perm (h : symbols.Perm symbols') :
    (definitions name symbols).Perm (definitions name symbols') := by
  -- both list the same places once each, and so do any two lists of the definitions of a name
  have hplaces : Defines name symbols (definitions name symbols') := by
    refine ⟨nodup_eraseDups _, fun d => ?_⟩
    rw [(defines_definitions name symbols').mem_iff]
    simp only [h.mem_iff]
  exact (defines_definitions name symbols).perm hplaces

theorem referencesOf_perm (h : client.SameButOrder client') (hplaces : places.Perm places') :
    (referencesOf client places).Perm (referencesOf client' places') :=
  gathered_perm (fun uri p n => (h.references uri p n).perm) hplaces

theorem uris_congr (h : references.Perm references') : uris references = uris references' := by
  have hperm : (uris references).Perm (uris references') := by
    apply (List.perm_ext_iff_of_nodup (nodup_uris references) (nodup_uris references')).mpr
    intro uri
    rw [mem_uris_iff, mem_uris_iff]
    simp only [h.mem_iff]
  apply hperm.eq_of_pairwise _ (uris_ascending references) (uris_ascending references')
  intro a b _ _ hab hba
  -- two URIs cannot each come before the other
  change compare a.text b.text = .lt at hab
  change compare b.text a.text = .lt at hba
  rw [Std.OrientedOrd.eq_swap, hba] at hab
  cases hab

theorem sectionOf_congr (h : client.SameButOrder client') (hperm : references.Perm references')
    (uri : DocumentUri) : sectionOf client files settings references uri =
      sectionOf client' files settings references' uri := by
  have hpositions : positionsIn uri references = positionsIn uri references' :=
    Position.sort_congr ((hperm.filter _).map _)
  rw [sectionOf, sectionOf, hpositions, symbolsOf, symbolsOf, h.outline]

/-- Symbols and references in another order make the same report. -/
theorem ofSymbols_congr (h : client.SameButOrder client') (hsymbols : symbols.Perm symbols') :
    ofSymbols client files settings name symbols =
      ofSymbols client' files settings name symbols' := by
  -- only counts, the URIs and the sections are shown, and none of them tells of an order
  have hplaces : (definitions name symbols).Perm (definitions name symbols') :=
    definitions_perm hsymbols
  have hreferences := referencesOf_perm h hplaces
  have hsections : sectionOf client files settings
        (referencesOf client (definitions name symbols)) =
      sectionOf client' files settings (referencesOf client' (definitions name symbols')) :=
    funext fun uri => sectionOf_congr h hreferences uri
  rw [ofSymbols, ofSymbols, hplaces.isEmpty_eq, hplaces.length_eq, hreferences.isEmpty_eq,
    hreferences.length_eq, uris_congr hreferences, hsections]

theorem result_make_congr (h : client.SameButOrder client') :
    (make client files settings name).run.result =
      (make client' files settings name).run.result := by
  rw [result_make_eq, result_make_eq]
  exact (h.symbols name 0).map_eq fun hperm => ofSymbols_congr h hperm

/-- The text of the report does not tell in what order the client listed symbols and references. -/
theorem text_make_congr (h : client.SameButOrder client') (files : FileTree)
    (settings : RenderSettings) (numbered : Bool) (name : Text) :
    (make client files settings name).run.result.map (text settings numbered) =
      (make client' files settings name).run.result.map (text settings numbered) :=
  congrArg (Except.map (text settings numbered)) (result_make_congr h)

end ReferencesReport

/-! ### Lists the other way round -/

theorem sameItems_reverse {α : Type} (x : Except ClientError (List α)) :
    SameItems x (x.map List.reverse) := by
  cases x with
  | ok as => exact .listed as.reverse_perm.symm
  | error e => exact .failed e

/-- A client that lists symbols and references the other way round. -/
def LanguageClient.reversed (client : LanguageClient) : LanguageClient :=
  { client with
    workspaceSymbolsAnswer := fun name n => (client.workspaceSymbolsAnswer name n).map List.reverse
    referencesAnswer := fun uri p n => (client.referencesAnswer uri p n).map List.reverse }

theorem LanguageClient.sameButOrder_reversed (client : LanguageClient) :
    client.SameButOrder client.reversed where
  symbols _ _ := sameItems_reverse _
  references _ _ _ := sameItems_reverse _
  outline _ _ := rfl

namespace ReferencesReport

/-- A client that knows two definitions of a name, each with references of its own, and a third that
starts where the first does, for which it fails to answer the same request again. -/
def threePlacesClient : LanguageClient :=
  { serveClient with
    workspaceSymbolsAnswer := fun _ _ => .ok
      [⟨"Serve", .function, servePlace, none⟩,
        ⟨"Serve", .method, ⟨⟨"file:///b.go"⟩, ⟨⟨1, 5⟩, ⟨1, 10⟩⟩⟩, none⟩,
        ⟨"Serve", .method, ⟨⟨"file:///a.go"⟩, ⟨⟨4, 5⟩, ⟨6, 1⟩⟩⟩, none⟩]
    referencesAnswer := fun uri _ n =>
      if n ≠ 0 then .error (.unavailable "gone")
      else if uri = ⟨"file:///a.go"⟩ then .ok serveReferences
      else .ok [⟨⟨"file:///b.go"⟩, ⟨⟨9, 1⟩, ⟨9, 6⟩⟩⟩, ⟨⟨"file:///a.go"⟩, ⟨⟨1, 2⟩, ⟨1, 7⟩⟩⟩] }

theorem threePlaces_congr : threePlacesClient.SameButOrder threePlacesClient.reversed ∧
    (make threePlacesClient .empty .default "Serve").run.result.map (text .default true) =
      (make threePlacesClient.reversed .empty .default "Serve").run.result.map
        (text .default true) := by
  have hsame := threePlacesClient.sameButOrder_reversed
  exact ⟨hsame, text_make_congr hsame .empty .default true "Serve"⟩

end ReferencesReport

end WorkspaceLink
