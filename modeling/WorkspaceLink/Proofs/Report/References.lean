import Mathlib.Algebra.BigOperators.Group.List.Lemmas
import Mathlib.Algebra.GroupWithZero.Nat
import WorkspaceLink.Proofs.Report.Positions
import WorkspaceLink.Proofs.Report.Requests
import WorkspaceLink.Proofs.Scope.Conservation
import WorkspaceLink.Report.References

/-!
The references report tells all that the client found: every reference is counted in the section of
its file, and every reference that has a scope is listed there once.
-/

namespace WorkspaceLink

/-! ### Lists without duplicates -/

theorem nodup_eraseDups {α : Type} [BEq α] [LawfulBEq α] : (as : List α) → as.eraseDups.Nodup
  | [] => by simp
  | a :: as => by
    rw [List.eraseDups_cons, List.nodup_cons]
    refine ⟨?_, nodup_eraseDups _⟩
    simp
termination_by as => as.length
decreasing_by exact Nat.lt_succ_of_le (List.length_filter_le _ _)

/-- Each element has one key, so the elements counted key by key are all of them. -/
theorem sum_length_filter {α β : Type} [DecidableEq β] {key : α → β} {keys : List β} {as : List α}
    (hnodup : keys.Nodup) (hkeys : ∀ k, k ∈ keys ↔ ∃ a ∈ as, key a = k) :
    (keys.map fun k => (as.filter (key · = k)).length).sum = as.length := by
  have hperm : keys.Perm (as.map key).dedup := by
    apply (List.perm_ext_iff_of_nodup hnodup (List.nodup_dedup _)).mpr
    intro k
    rw [hkeys, List.mem_dedup, List.mem_map]
  have hcount (k : β) : (as.filter (key · = k)).length = (as.map key).count k := by
    rw [List.count, List.countP_map, List.countP_eq_length_filter]
    rfl
  calc (keys.map fun k => (as.filter (key · = k)).length).sum
    _ = (keys.map fun k => (as.map key).count k).sum := by simp only [hcount]
    _ = ((as.map key).dedup.map fun k => (as.map key).count k).sum := (hperm.map _).sum_eq
    _ = (as.map key).length := List.sum_map_count_dedup_eq_length _
    _ = as.length := List.length_map _

/-! ### Orders -/

namespace Position

theorem leBool_iff {a b : Position} : leBool a b = true ↔ a ≤ b := by
  rw [le_def, leBool]
  change ((compare a.line b.line).then (compare a.character b.character)).isLE = true ↔ _
  rw [Ordering.isLE_then_iff_or, Nat.compare_eq_lt, Nat.compare_eq_eq, Nat.isLE_compare]

theorem sort_ascending (ps : List Position) : (sort ps).Pairwise (· ≤ ·) := by
  have hsorted : (sort ps).Pairwise fun a b => leBool a b = true := by
    apply List.pairwise_mergeSort
    · intro a b c hab hbc
      rw [leBool_iff, le_def] at *
      omega
    · intro a b
      rw [Bool.or_eq_true, leBool_iff, leBool_iff, le_def, le_def]
      omega
  exact hsorted.imp leBool_iff.mp

theorem sort_perm (ps : List Position) : (sort ps).Perm ps :=
  List.mergeSort_perm ps leBool

end Position

namespace ReferencesReport

theorem nodup_uris (references : List Location) : (uris references).Nodup :=
  (List.mergeSort_perm _ _).nodup_iff.mpr (nodup_eraseDups _)

theorem mem_uris_iff {references : List Location} {uri : DocumentUri} :
    uri ∈ uris references ↔ ∃ l ∈ references, l.uri = uri := by
  rw [uris, List.mem_mergeSort, List.mem_eraseDups, List.mem_map]

theorem uris_ascending (references : List Location) :
    (uris references).Pairwise fun a b => compare a b = .lt := by
  have hsorted : (uris references).Pairwise fun a b => (compare a b).isLE = true := by
    apply List.pairwise_mergeSort
    · intro a b c hab hbc
      exact Std.TransOrd.isLE_trans (α := Text) hab hbc
    · intro a b
      change ((compare a.text b.text).isLE || (compare b.text a.text).isLE) = true
      rw [Std.OrientedOrd.eq_swap (a := b.text)]
      cases compare a.text b.text <;> rfl
  apply (hsorted.and (nodup_uris references)).imp
  intro a b ⟨hle, hne⟩
  cases hab : compare a b with
  | lt => rfl
  | eq =>
    have htext : a.text = b.text := Std.LawfulEqOrd.eq_of_compare hab
    exact absurd (congrArg DocumentUri.mk htext) hne
  | gt =>
    rw [hab] at hle
    cases hle

/-! ### Pieces -/

/-- A list in pieces of a length, but for the last, which may be shorter. -/
structure Pieces {α : Type} (length : Nat) (as : List α) (pieces : List (List α)) : Prop where
  flatten : pieces.flatten = as
  bounds : ∀ piece ∈ pieces, piece ≠ [] ∧ piece.length ≤ length
  full : ∀ piece ∈ pieces.dropLast, piece.length = length

theorem pieces_chunks {α : Type} {n fuel : Nat} {as : List α} (h : as.length ≤ fuel) :
    Pieces (n + 1) as (chunks n fuel as) := by
  induction fuel generalizing as with
  | zero =>
    obtain rfl : as = [] := List.length_eq_zero_iff.mp (by omega)
    exact ⟨rfl, nofun, nofun⟩
  | succ fuel ih =>
    cases as with
    | nil => exact ⟨rfl, nofun, nofun⟩
    | cons a as =>
      rw [List.length_cons] at h
      have hrest : Pieces (n + 1) (as.drop n) (chunks n fuel (as.drop n)) := by
        apply ih
        rw [List.length_drop]
        omega
      rw [chunks]
      refine ⟨?_, ?_, ?_⟩
      · rw [List.flatten_cons, hrest.flatten, List.cons_append, List.take_append_drop]
      · refine List.forall_mem_cons.mpr ⟨⟨List.cons_ne_nil _ _, ?_⟩, hrest.bounds⟩
        rw [List.length_cons, List.length_take]
        omega
      · by_cases hlast : chunks n fuel (as.drop n) = []
        · rw [hlast]
          nofun
        · rw [List.dropLast_cons_of_ne_nil hlast]
          refine List.forall_mem_cons.mpr ⟨?_, hrest.full⟩
          -- There is another piece only if the first is full.
          have hlong : n < as.length := by
            by_contra hshort
            apply hlast
            rw [List.drop_eq_nil_of_le (by omega)]
            cases fuel <;> rfl
          rw [List.length_cons, List.length_take]
          omega

/-! ### The report -/

/-- The symbols of a document, none if the client does not give them. -/
def symbolsOf (client : LanguageClient) (uri : DocumentUri) : List DocumentSymbol :=
  ((client.documentSymbolsAnswer uri 0).toOption.getD .empty).toForest

/-- The request for the references to what is defined at a place. -/
def placeQuery (d : Location) : Query :=
  .references d.uri d.range.start

/-- The references to the definitions of a name, in the order of the answers. Definitions that start
at the same position get one answer after another to the same request. -/
def gathered (answer : DocumentUri → Position → Nat → List Location) (places : List Location) :
    List Location :=
  (counted placeQuery [] places).flatMap fun (d, n) => answer d.uri d.range.start n

section Gathered

variable {answer answer' : DocumentUri → Position → Nat → List Location}
  {places places' : List Location}

/-- The references that answer a request for the n-th time. -/
def answerTo (answer : DocumentUri → Position → Nat → List Location) : Query × Nat → List Location
  | (.references uri p, n) => answer uri p n
  | _ => []

theorem gathered_eq : gathered answer places =
    (counted id [] (places.map placeQuery)).flatMap (answerTo answer) := by
  rw [counted_map, List.flatMap_map]
  rfl

/-- Places in another order make the same requests as often, and get the same answers. -/
theorem gathered_perm (h : ∀ uri p n, (answer uri p n).Perm (answer' uri p n))
    (hplaces : places.Perm places') :
    (gathered answer places).Perm (gathered answer' places') := by
  have hrequests := counted_perm (hplaces.map placeQuery) []
  rw [gathered_eq, gathered_eq]
  apply List.Perm.trans _ (hrequests.flatMap_right _)
  apply List.Perm.flatMap_left
  rintro ⟨query, n⟩ -
  cases query with
  | references uri p => exact h uri p n
  | _ => exact .rfl

end Gathered

/-- The references that a client gives, none for a request that fails. -/
def referencesOf (client : LanguageClient) (places : List Location) : List Location :=
  gathered (fun uri p n => (client.referencesAnswer uri p n).toOption.getD []) places

/-- The section of a file. -/
def sectionOf (client : LanguageClient) (files : FileTree) (settings : RenderSettings)
    (references : List Location) (uri : DocumentUri) : FileSection :=
  ⟨uri, (positionsIn uri references).length,
    groupReferences (symbolsOf client uri) (sourceOf? files uri) (positionsIn uri references)
      settings⟩

variable {client : LanguageClient} {files : FileTree} {settings : RenderSettings} {name : Text}
  {symbols : List SymbolInformation}

/-- The report on a name, made from the symbols that go by it. -/
def ofSymbols (client : LanguageClient) (files : FileTree) (settings : RenderSettings) (name : Text)
    (symbols : List SymbolInformation) : ReferencesReport :=
  let found := definitions name symbols
  let references := referencesOf client found
  if found.isEmpty then .undefined name
  else if references.isEmpty then .unused name found.length
  else .used name references.length
    ((uris references).map (sectionOf client files settings references))

/-- Each file is asked about once, so its section is made from the first answer. -/
theorem after_sections (references : List Location) {asked : List Query}
    (h : ∀ uri, .documentSymbols uri ∉ asked) :
    ((Asked.each (section? client files settings references) (uris references)).after asked).1 =
      (uris references).map (sectionOf client files settings references) := by
  have hsections := Asked.after_each (f := section? client files settings references)
    .documentSymbols
    (fun uri n => ⟨uri, (positionsIn uri references).length, groupReferences
      (((client.documentSymbolsAnswer uri n).toOption.getD .empty).toForest) (sourceOf? files uri)
      (positionsIn uri references) settings⟩)
    (fun _ _ => rfl) (uris references) asked
  have hnodup : ((uris references).map Query.documentSymbols).Nodup :=
    (List.nodup_map_iff fun _ _ => Query.documentSymbols.inj).mpr (nodup_uris references)
  rw [hsections, counted_of_nodup hnodup fun uri _ => h uri, List.map_map]
  rfl

/-- The report fails only with the request for the symbols that go by the name. -/
theorem result_make_eq : (make client files settings name).run.result =
    ((client.workspaceSymbolsAnswer name 0).mapError .client).map
      (ofSymbols client files settings name) := by
  rw [Asked.result, make, Reporting.after_need_bind]
  apply congrArg (Except.bind _)
  funext symbols
  have hasked : ((client.workspaceSymbols name).after []).2 = [.workspaceSymbols name] := rfl
  -- No references were asked for before, so the requests count from zero.
  have hanswers := Asked.after_each
    (f := fun d : Location => Reporting.try? (client.references d.uri d.range.start)) placeQuery
    (fun d n => (client.referencesAnswer d.uri d.range.start n).toOption) (fun _ _ => rfl)
    (definitions name symbols) [.workspaceSymbols name]
  have hcounted : counted placeQuery [.workspaceSymbols name] (definitions name symbols) =
      counted placeQuery [] (definitions name symbols) :=
    counted_of_not_mem fun d _ => by simp [placeQuery]
  have hreferences : (((counted placeQuery [] (definitions name symbols)).map fun (d, n) =>
      (client.referencesAnswer d.uri d.range.start n).toOption).flatMap (·.getD [])) =
        referencesOf client (definitions name symbols) := by
    rw [List.flatMap_map]
    rfl
  change _ = Except.ok (ofSymbols client files settings name symbols)
  rw [hasked, ofSymbols]
  by_cases hplaces : (definitions name symbols).isEmpty = true
  · rw [if_pos hplaces, if_pos hplaces]
    rfl
  rw [if_neg hplaces, if_neg hplaces, Reporting.after_lift_bind, hanswers, hcounted, hreferences]
  by_cases hunused : (referencesOf client (definitions name symbols)).isEmpty = true
  · rw [if_pos hunused, if_pos hunused]
    rfl
  rw [if_neg hunused, if_neg hunused, Reporting.after_lift_bind, after_sections]
  · rfl
  · simp [placeQuery]

/-- The report on a name with references counts them together and has a section for each file. -/
theorem result_make (hsymbols : client.workspaceSymbolsAnswer name 0 = .ok symbols)
    {references : List Location}
    (hreferences : referencesOf client (definitions name symbols) = references)
    (hused : references ≠ []) :
    (make client files settings name).run.result = .ok (.used name references.length
      ((uris references).map (sectionOf client files settings references))) := by
  have hplaces : ¬(definitions name symbols).isEmpty = true := by
    rw [List.isEmpty_iff]
    intro hplaces
    rw [hplaces] at hreferences
    exact hused hreferences.symm
  have hempty : ¬references.isEmpty = true := by rwa [List.isEmpty_iff]
  have hreport : ofSymbols client files settings name symbols = .used name references.length
      ((uris references).map (sectionOf client files settings references)) := by
    rw [ofSymbols, hreferences, if_neg hplaces, if_neg hempty]
  rw [result_make_eq, hsymbols, ← hreport]
  rfl

/-- The places where a name is defined, each once and in any order: those of the symbols of exactly
this name, except where the server knows no range. -/
structure Defines (name : Text) (symbols : List SymbolInformation) (places : List Location) :
    Prop where
  nodup : places.Nodup
  mem_iff : ∀ d, d ∈ places ↔
    ∃ s ∈ symbols, s.name = name ∧ s.location.range ≠ .zero ∧ s.location = d

theorem defines_definitions (name : Text) (symbols : List SymbolInformation) :
    Defines name symbols (definitions name symbols) := by
  refine ⟨nodup_eraseDups _, fun d => ?_⟩
  rw [definitions, List.mem_eraseDups, List.mem_map]
  simp only [List.mem_filter, Bool.and_eq_true, decide_eq_true_eq, Bool.not_eq_true',
    Range.isZero, beq_eq_false_iff_ne, and_assoc]

/-- Two lists of the places of a definition differ in their order only. -/
theorem Defines.perm {places places' : List Location} (h : Defines name symbols places)
    (h' : Defines name symbols places') : places.Perm places' := by
  apply (List.perm_ext_iff_of_nodup h.nodup h'.nodup).mpr
  intro d
  rw [h.mem_iff, h'.mem_iff]

/-- A client that answers all that the report asks it. -/
structure Answers (client : LanguageClient) (name : Text) (symbols : List SymbolInformation)
    (references : DocumentUri → Position → Nat → List Location)
    (outline : DocumentUri → SymbolResponse) : Prop where
  symbols : client.workspaceSymbolsAnswer name 0 = .ok symbols
  references : ∀ uri p n, client.referencesAnswer uri p n = .ok (references uri p n)
  outline : ∀ uri, client.documentSymbolsAnswer uri 0 = .ok (outline uri)

/-- Whether a reference has a scope: that of a symbol around it or, if its file can be read and has
its line, that of the lines near it. -/
def hasScope (symbols : List DocumentSymbol) (source : Option SourceText) (p : Position) : Bool :=
  (DocumentSymbol.enclosing? p symbols).isSome || source.any fun source => p.line < source.lineCount

theorem isSome_key? (symbols : List DocumentSymbol) (source : Option SourceText) (p : Position) :
    (Scope.key? symbols source settings p).isSome = hasScope symbols source p := by
  rw [Scope.key?, hasScope]
  cases DocumentSymbol.enclosing? p symbols with
  | some s => rfl
  | none =>
    cases source with
    | none => rfl
    | some source =>
      by_cases h : p.line < source.lineCount <;> simp [h]

/-- The text of a scope, or of the parts of it that are shown. -/
def block (settings : RenderSettings) (numbered : Bool) (s : Scope) : Text :=
  (Window.format numbered
    (Window.render settings s.text (coordSucc s.id.startLine) s.highlights)).indented

/-- A section that tells all about the references in its file: how many they are, and where those
are that have a scope, scope by scope in ascending order, in lines of limited length. -/
structure CompleteSection (settings : RenderSettings) (numbered : Bool)
    (outline : DocumentUri → SymbolResponse) (files : FileTree) (references : List Location)
    (f : FileSection) : Prop where
  count : f.count = (references.filter (·.uri = f.uri)).length
  listed : (f.scopes.flatMap (·.references)).Perm
    (((references.filter (·.uri = f.uri)).map (·.range.start)).filter
      (hasScope (outline f.uri).toForest (sourceOf? files f.uri)))
  ascending : ∀ s ∈ f.scopes, s.references.Pairwise (· ≤ ·)
  printed : ∃ pieces : Scope → List (List Position),
    (∀ s ∈ f.scopes, Pieces (max settings.referencesPerLine 1) s.references (pieces s)) ∧
      sectionText settings numbered f =
        Text.ofLines (("File: " ++ f.uri.toPath ++ " (" ++ .ofNat f.count ++ " references)") ::
          f.scopes.flatMap fun s =>
            s.header :: (pieces s).map referenceLine ++ [block settings numbered s])

/-- Sections that tell all about some references, one for each file, by ascending URIs. -/
structure CompleteSections (settings : RenderSettings) (numbered : Bool)
    (outline : DocumentUri → SymbolResponse) (files : FileTree) (references : List Location)
    (sections : List FileSection) : Prop where
  total : (sections.map (·.count)).sum = references.length
  uris : ∀ uri, uri ∈ sections.map (·.uri) ↔ ∃ l ∈ references, l.uri = uri
  ascending : (sections.map (·.uri)).Pairwise fun a b => compare a b = .lt
  each : ∀ f ∈ sections, CompleteSection settings numbered outline files references f

variable {references references' : List Location} {outline : DocumentUri → SymbolResponse}
  {numbered : Bool}

theorem length_positionsIn (uri : DocumentUri) (references : List Location) :
    (positionsIn uri references).length = (references.filter (·.uri = uri)).length := by
  rw [positionsIn, (Position.sort_perm _).length_eq, List.length_map]

theorem completeSection_sectionOf
    (houtline : ∀ uri, client.documentSymbolsAnswer uri 0 = .ok (outline uri)) (uri : DocumentUri) :
    CompleteSection settings numbered outline files references
      (sectionOf client files settings references uri) := by
  have hsymbols : symbolsOf client uri = (outline uri).toForest := by
    rw [symbolsOf, houtline]
    rfl
  have hgrouped : Scope.GroupedBy (Scope.key? (outline uri).toForest (sourceOf? files uri) settings)
      (positionsIn uri references) (sectionOf client files settings references uri).scopes := by
    rw [← hsymbols]
    exact Scope.groupedBy_groupReferences
  refine ⟨length_positionsIn uri references, ?_, ?_, ?_⟩
  · have htotal := hgrouped.total
    simp only [isSome_key?] at htotal
    exact htotal.trans ((Position.sort_perm _).filter _)
  -- A scope keeps the order of the positions that are grouped, and these are sorted.
  · intro s hs
    rw [hgrouped.exact s hs]
    exact (Position.sort_ascending _).filter _
  · refine ⟨fun s => chunks (max settings.referencesPerLine 1 - 1) s.references.length s.references,
      fun s _ => ?_, rfl⟩
    have hlength : max settings.referencesPerLine 1 - 1 + 1 = max settings.referencesPerLine 1 := by
      omega
    exact hlength ▸ pieces_chunks (Nat.le_refl _)

theorem completeSections_sectionOf
    (houtline : ∀ uri, client.documentSymbolsAnswer uri 0 = .ok (outline uri)) :
    CompleteSections settings numbered outline files references
      ((uris references).map (sectionOf client files settings references)) := by
  have huris : ((uris references).map (sectionOf client files settings references)).map (·.uri) =
      uris references := by
    rw [List.map_map]
    exact List.map_id _
  refine ⟨?_, ?_, ?_, ?_⟩
  · rw [List.map_map]
    have hcount : (fun f : FileSection => f.count) ∘ sectionOf client files settings references =
        fun uri => (references.filter (·.uri = uri)).length :=
      funext fun uri => length_positionsIn uri references
    rw [hcount]
    exact sum_length_filter (nodup_uris references) fun uri => mem_uris_iff
  · intro uri
    rw [huris]
    exact mem_uris_iff
  · rw [huris]
    exact uris_ascending references
  · intro f hf
    obtain ⟨uri, -, rfl⟩ := List.mem_map.mp hf
    exact completeSection_sectionOf houtline uri

/-- In what order the references were found makes no difference to what a report must tell. -/
theorem CompleteSections.of_perm {sections : List FileSection} (hperm : references.Perm references')
    (h : CompleteSections settings numbered outline files references sections) :
    CompleteSections settings numbered outline files references' sections where
  total := h.total.trans hperm.length_eq
  uris uri := (h.uris uri).trans (by simp only [hperm.mem_iff])
  ascending := h.ascending
  each f hf :=
    { count := (h.each f hf).count.trans (hperm.filter _).length_eq
      listed := (h.each f hf).listed.trans (((hperm.filter _).map _).filter _)
      ascending := (h.each f hf).ascending
      printed := (h.each f hf).printed }

/-- The report tells all about the references to the places where a name is defined. The lines that
list them tell them as they are. -/
theorem make_complete {references : DocumentUri → Position → Nat → List Location}
    {places : List Location} (hclient : Answers client name symbols references outline)
    (hplaces : Defines name symbols places) (hused : gathered references places ≠ [])
    (files : FileTree) (settings : RenderSettings) (numbered : Bool) :
    (∃ sections, (make client files settings name).run.result =
        .ok (.used name (gathered references places).length sections) ∧
      CompleteSections settings numbered outline files (gathered references places) sections ∧
      text settings numbered (.used name (gathered references places).length sections) =
        Text.ofLines ["Symbol: " ++ name ++ " (" ++ .ofNat (gathered references places).length ++
            " references in " ++ .ofNat sections.length ++ " files)",
          Text.joined "\n\n" (sections.map (sectionText settings numbered))]) ∧
    ∀ piece piece' : List Position, (∀ p ∈ piece, p.Fits) → (∀ p ∈ piece', p.Fits) →
      (referenceLine piece = referenceLine piece' ↔ piece = piece') := by
  refine ⟨?_, fun piece piece' => referenceLine_inj⟩
  -- The places are asked about in the order of the symbols, which need not be the order given.
  have hperm : (gathered references (definitions name symbols)).Perm (gathered references places) :=
    gathered_perm (fun _ _ _ => .rfl) ((defines_definitions name symbols).perm hplaces)
  have hreferences : referencesOf client (definitions name symbols) =
      gathered references (definitions name symbols) := by
    rw [referencesOf]
    congr 1
    funext uri p n
    rw [hclient.references]
    rfl
  have hfound : gathered references (definitions name symbols) ≠ [] := by
    intro hnone
    rw [hnone] at hperm
    exact hused hperm.nil_eq.symm
  refine ⟨_, ?_, (completeSections_sectionOf hclient.outline).of_perm hperm, rfl⟩
  rw [result_make hclient.symbols hreferences hfound, hperm.length_eq]

/-! ### A name defined once and reported twice -/

/-- The definition, in a file `a.go`. -/
def servePlace : Location :=
  ⟨⟨"file:///a.go"⟩, ⟨⟨4, 5⟩, ⟨4, 10⟩⟩⟩

/-- A reference in the same file and two in another. -/
def serveReferences : List Location :=
  [⟨⟨"file:///b.go"⟩, ⟨⟨10, 1⟩, ⟨10, 6⟩⟩⟩, ⟨⟨"file:///a.go"⟩, ⟨⟨2, 17⟩, ⟨2, 22⟩⟩⟩,
    ⟨⟨"file:///b.go"⟩, ⟨⟨9, 1⟩, ⟨9, 6⟩⟩⟩]

def serveSymbols : List SymbolInformation :=
  [⟨"Serve", .function, servePlace, none⟩, ⟨"ServeHTTP", .method, servePlace, none⟩,
    ⟨"Serve", .function, servePlace, none⟩]

def serveOutline (_ : DocumentUri) : SymbolResponse :=
  .nested [.leaf "main" .function ⟨⟨8, 0⟩, ⟨11, 1⟩⟩]

def serveClient : LanguageClient where
  openAnswer _ _ := .ok ()
  documentSymbolsAnswer uri _ := .ok (serveOutline uri)
  workspaceSymbolsAnswer _ _ := .ok serveSymbols
  referencesAnswer _ _ _ := .ok serveReferences
  diagnosticsAnswer _ _ := .ok []
  hoverAnswer _ _ _ := .ok none

theorem serve_complete :
    Answers serveClient "Serve" serveSymbols (fun _ _ _ => serveReferences) serveOutline ∧
      Defines "Serve" serveSymbols [servePlace] ∧
      ∃ sections, (make serveClient .empty .default "Serve").run.result =
          .ok (.used "Serve" 3 sections) ∧
        CompleteSections .default true serveOutline .empty serveReferences sections := by
  have hclient : Answers serveClient "Serve" serveSymbols (fun _ _ _ => serveReferences)
      serveOutline := ⟨rfl, fun _ _ _ => rfl, fun _ => rfl⟩
  have hplaces : Defines "Serve" serveSymbols [servePlace] := by
    have hfound : definitions "Serve" serveSymbols = [servePlace] := by decide
    rw [← hfound]
    exact defines_definitions _ _
  obtain ⟨⟨sections, hresult, hsections, -⟩, -⟩ :=
    make_complete hclient hplaces (by decide) .empty .default true
  exact ⟨hclient, hplaces, sections, hresult, hsections⟩

end ReferencesReport

end WorkspaceLink
