import WorkspaceLink.Proofs.Report.References
import WorkspaceLink.Report.Diagnostics

/-!
Requests that fail, each time that they are made or only sometimes. A report fails only with a
request that it cannot do without. Any other request that fails takes away what it was to bring and
nothing else: the report is that of a client that has nothing to tell there.
-/

namespace WorkspaceLink

open DefinitionReport (goesBy)

/-- The request made to find the definition of a symbol. -/
def SymbolInformation.query (s : SymbolInformation) : Query :=
  .documentSymbols s.location.uri

namespace LanguageClient

variable (client : LanguageClient) (files : FileTree) (name : Text)

/-- A client that lists no references, and no symbols of a document, each time that another fails
to. -/
def lenient : LanguageClient :=
  { client with
    documentSymbolsAnswer := fun uri n =>
      (client.documentSymbolsAnswer uri n).tryCatch fun _ => .ok .empty
    referencesAnswer := fun uri p n =>
      (client.referencesAnswer uri p n).tryCatch fun _ => .ok [] }

/-- Whether a request for the symbols of a document is answered and its file can be read. -/
def knows (uri : DocumentUri) (n : Nat) : Bool :=
  (client.documentSymbolsAnswer uri n).isOk && (ReferencesReport.sourceOf? files uri).isSome

/-- The symbols without those that go by a name and whose own request fails, or whose file cannot be
read. Some requests may have been made before. -/
def known : List Query → List SymbolInformation → List SymbolInformation
  | _, [] => []
  | asked, s :: ss =>
    if goesBy name s then
      if client.knows files s.location.uri (asked.count s.query) then
        s :: known (asked ++ [s.query]) ss
      else known (asked ++ [s.query]) ss
    else s :: known asked ss

/-- The symbols that go by a name and are known, with the numbers of their requests. -/
def knownRequests (symbols : List SymbolInformation) : List (SymbolInformation × Nat) :=
  (counted SymbolInformation.query [] (symbols.filter (goesBy name))).filter fun (s, n) =>
    client.knows files s.location.uri n

/-- A client that does not tell of the symbols that another tells of and does not know. To the
requests for those that are left it gives the same answers. -/
def ofKnown : LanguageClient :=
  let requests := client.knownRequests files name
    ((client.workspaceSymbolsAnswer name 0).toOption.getD [])
  { client with
    workspaceSymbolsAnswer := fun name n =>
      (client.workspaceSymbolsAnswer name n).map (client.known files name [])
    documentSymbolsAnswer := fun uri n => client.documentSymbolsAnswer uri
      (((requests.filter (·.1.query = .documentSymbols uri))[n]?.map Prod.snd).getD 0) }

end LanguageClient

/-! ### Answers -/

theorem getD_tryCatch {α : Type} (x : Except ClientError α) (a : α) :
    (x.tryCatch fun _ => .ok a).toOption.getD a = x.toOption.getD a := by
  cases x <;> rfl

/-- A report that is made from one answer fails for the same reason as the answer. -/
theorem map_eq_error_iff {α β : Type} {x : Except ClientError α} {f : α → β} {e : ReportError} :
    (x.mapError ReportError.client).map f = .error e ↔
      ∃ cause, e = .client cause ∧ x = .error cause := by
  cases x with
  | ok a => simp [Except.mapError, Except.map]
  | error cause => simp [Except.mapError, Except.map, eq_comm]

variable {client : LanguageClient} {files : FileTree} {settings : RenderSettings} {name : Text}
  {symbols : List SymbolInformation}

/-! ### References -/

namespace ReferencesReport

theorem symbolsOf_lenient : symbolsOf client.lenient = symbolsOf client := by
  funext uri
  rw [symbolsOf, symbolsOf, LanguageClient.lenient, getD_tryCatch]

theorem referencesOf_lenient : referencesOf client.lenient = referencesOf client := by
  funext places
  rw [referencesOf, referencesOf, LanguageClient.lenient]
  simp only [getD_tryCatch]

theorem ofSymbols_lenient : ofSymbols client.lenient files settings name symbols =
    ofSymbols client files settings name symbols := by
  have hsections : sectionOf client.lenient files settings = sectionOf client files settings := by
    funext references uri
    rw [sectionOf, sectionOf, symbolsOf_lenient]
  rw [ofSymbols, ofSymbols, referencesOf_lenient, hsections]

theorem result_make_lenient : (make client.lenient files settings name).run.result =
    (make client files settings name).run.result := by
  have hreport : ofSymbols client.lenient files settings name =
      ofSymbols client files settings name := funext fun _ => ofSymbols_lenient
  rw [result_make_eq, result_make_eq, hreport]
  rfl

end ReferencesReport

/-! ### Definitions -/

namespace DefinitionReport

/-- The definition of a symbol, from an answer to the request for the symbols of its document. -/
def found? (files : FileTree) (s : SymbolInformation) (answer : Except ClientError SymbolResponse) :
    Option FoundDefinition := do
  let response ← answer.toOption
  let source ← ReferencesReport.sourceOf? files s.location.uri
  let definition ← (source.definitionAt response.toForest s.location.range.start).toOption
  return ⟨s, definition⟩

/-- The definition of a symbol, from the answer with a number. -/
def foundBy? (client : LanguageClient) (files : FileTree) (request : SymbolInformation × Nat) :
    Option FoundDefinition :=
  found? files request.1 (client.documentSymbolsAnswer request.1.location.uri request.2)

/-- The report on a name, made from the symbols that the client tells of. -/
def ofSymbols (client : LanguageClient) (files : FileTree) (name : Text)
    (symbols : List SymbolInformation) : DefinitionReport :=
  ⟨name, (counted SymbolInformation.query [] (symbols.filter (goesBy name))).filterMap
    (foundBy? client files)⟩

theorem result_make_eq : (make client files name).run.result =
    ((client.workspaceSymbolsAnswer name 0).mapError .client).map
      (ofSymbols client files name) := by
  rw [Asked.result, make, Reporting.after_need_bind]
  apply congrArg (Except.bind _)
  funext symbols
  have hasked : ((client.workspaceSymbols name).after []).2 = [.workspaceSymbols name] := rfl
  have hloaded := Asked.after_each (f := load client files) SymbolInformation.query
    (fun s n => foundBy? client files (s, n)) (fun _ _ => rfl) (symbols.filter (goesBy name))
    [.workspaceSymbols name]
  have hcounted : counted SymbolInformation.query [.workspaceSymbols name]
      (symbols.filter (goesBy name)) =
        counted SymbolInformation.query [] (symbols.filter (goesBy name)) :=
    counted_of_not_mem fun s _ => by simp [SymbolInformation.query]
  change _ = Except.ok (ofSymbols client files name symbols)
  rw [hasked, Reporting.after_lift_bind, hloaded, hcounted, ofSymbols]
  change Except.ok (DefinitionReport.mk name _) = _
  rw [List.filterMap_map]
  rfl

/-- A symbol that is not known has no definition to show. -/
theorem foundBy?_eq_none {s : SymbolInformation} {n : Nat}
    (h : ¬client.knows files s.location.uri n = true) : foundBy? client files (s, n) = none := by
  rw [LanguageClient.knows, Bool.and_eq_true, not_and_or] at h
  rw [foundBy?, found?]
  cases hanswer : client.documentSymbolsAnswer s.location.uri n with
  | error e => rfl
  | ok response =>
    rw [hanswer] at h
    have hsource : ReferencesReport.sourceOf? files s.location.uri = none := by
      simpa [Except.isOk, Except.toBool] using h
    rw [hsource]
    rfl

/-- Requests for symbols that are not known make no difference to the report. -/
theorem ofSymbols_eq : ofSymbols client files name symbols =
    ⟨name, (client.knownRequests files name symbols).filterMap (foundBy? client files)⟩ := by
  rw [ofSymbols, LanguageClient.knownRequests, List.filterMap_filter]
  congr 1
  apply List.filterMap_congr
  rintro ⟨s, n⟩ -
  by_cases hknown : client.knows files s.location.uri n = true
  · rw [if_pos hknown]
  · rw [if_neg hknown, foundBy?_eq_none hknown]

/-- The symbols that are left and go by the name are those whose requests are known. -/
theorem filter_known (asked : List Query) : (client.known files name asked symbols).filter
    (goesBy name) =
      ((counted SymbolInformation.query asked (symbols.filter (goesBy name))).filter
        fun (s, n) => client.knows files s.location.uri n).map Prod.fst := by
  -- a symbol that is left out has been asked about all the same, so the requests made go on
  induction symbols generalizing asked with
  | nil => rfl
  | cons s ss ih =>
    rw [LanguageClient.known]
    by_cases hname : goesBy name s = true
    · rw [if_pos hname, List.filter_cons_of_pos hname, counted]
      by_cases hknown : client.knows files s.location.uri (asked.count s.query) = true
      · rw [if_pos hknown, List.filter_cons_of_pos hname, ih,
          List.filter_cons_of_pos (by exact hknown)]
        rfl
      · rw [if_neg hknown, ih, List.filter_cons_of_neg (by exact hknown)]
    · rw [if_neg hname, List.filter_cons_of_neg hname, List.filter_cons_of_neg hname, ih]

/-- What is found by a request for a symbol that is left is found by the request that was known. -/
theorem foundBy?_ofKnown (hsymbols : client.workspaceSymbolsAnswer name 0 = .ok symbols) :
    foundBy? (client.ofKnown files name) files =
      (fun (s, number) => foundBy? client files (s, Option.getD number 0)) ∘ fun (s, n) =>
        (s, ((client.knownRequests files name symbols).filter fun request =>
          request.1.query = s.query)[n]?.map Prod.snd) := by
  funext ⟨s, n⟩
  rw [foundBy?, LanguageClient.ofKnown, hsymbols]
  rfl

theorem ofSymbols_ofKnown (hsymbols : client.workspaceSymbolsAnswer name 0 = .ok symbols) :
    ofSymbols (client.ofKnown files name) files name (client.known files name [] symbols) =
      ofSymbols client files name symbols := by
  -- the requests for the symbols that are left are the known ones, numbered again
  have hrequests : counted SymbolInformation.query []
      ((client.known files name [] symbols).filter (goesBy name)) =
        counted SymbolInformation.query []
          ((client.knownRequests files name symbols).map Prod.fst) :=
    congrArg _ (filter_known [])
  have hfound : ofSymbols client files name symbols =
      ⟨name, (client.knownRequests files name symbols).filterMap (foundBy? client files)⟩ :=
    ofSymbols_eq
  rw [hfound, ofSymbols, hrequests, foundBy?_ofKnown hsymbols, ← List.filterMap_map,
    map_counted_getElem?, List.filterMap_map]
  rfl

theorem result_make_ofKnown : (make (client.ofKnown files name) files name).run.result =
    (make client files name).run.result := by
  have hanswer : (client.ofKnown files name).workspaceSymbolsAnswer name 0 =
      (client.workspaceSymbolsAnswer name 0).map (client.known files name []) := rfl
  rw [result_make_eq, result_make_eq, hanswer]
  cases hsymbols : client.workspaceSymbolsAnswer name 0 with
  | error e => rfl
  | ok symbols => exact congrArg Except.ok (ofSymbols_ofKnown hsymbols)

end DefinitionReport

/-! ### Diagnostics -/

namespace DiagnosticsReport

variable {path : Path} {includeContext numbered : Bool}

/-- The text of the report on a file that some diagnostics are about. -/
def ofDiagnostics (c : Context) (path : Path) (diagnostics : List Diagnostic) : Text :=
  if diagnostics.isEmpty then "No diagnostics found for " ++ path
  else Text.terminated
    (("Diagnostics for " ++ path ++ " (" ++ .ofNat diagnostics.length ++ " issues)") ::
      (diagnostics.mapIdx fun i d => entryLines c (i + 1) d).flatten)

/-- What the report on a file is made of, apart from the diagnostics. -/
def contextFor (client : LanguageClient) (files : FileTree) (path : Path)
    (includeContext numbered : Bool) : Context :=
  ⟨(SourceText.read files path).toOption,
    if includeContext then some (ReferencesReport.symbolsOf client (.ofPath path)) else none,
    numbered⟩

theorem result_make_eq : (make client files path includeContext numbered).run.result = do
    (client.openAnswer path 0).mapError .client
    let diagnostics ← (client.diagnosticsAnswer (.ofPath path) 0).mapError .client
    return ofDiagnostics (contextFor client files path includeContext numbered) path
      diagnostics := by
  rw [Asked.result, make, Reporting.after_need_bind]
  apply congrArg (Except.bind _)
  funext _
  rw [Reporting.after_need_bind]
  apply congrArg (Except.bind _)
  funext diagnostics
  change _ = Except.ok (ofDiagnostics _ path diagnostics)
  rw [ofDiagnostics]
  by_cases hempty : diagnostics.isEmpty = true
  · rw [if_pos hempty, if_pos hempty]
    rfl
  rw [if_neg hempty, if_neg hempty]
  cases includeContext <;> rfl

/-- Without any symbols, diagnostics are shown as they are without asking for symbols. -/
theorem context?_of_no_symbols (source : Option SourceText) (d : Diagnostic) :
    context? ⟨source, some [], numbered⟩ d = context? ⟨source, none, numbered⟩ d := by
  cases source <;> rfl

theorem result_make_of_no_symbols {cause : ClientError}
    (h : client.documentSymbolsAnswer (.ofPath path) 0 = .error cause) :
    (make client files path true numbered).run.result =
      (make client files path false numbered).run.result := by
  have hsymbols : ReferencesReport.symbolsOf client (.ofPath path) = [] := by
    rw [ReferencesReport.symbolsOf, h]
    rfl
  -- an answer that failed counts as one without symbols, so no diagnostic is shown with a symbol
  have hshown (d : Diagnostic) : context? (contextFor client files path true numbered) d =
      context? (contextFor client files path false numbered) d := by
    have hcontext : contextFor client files path true numbered =
        ⟨(SourceText.read files path).toOption, some [], numbered⟩ := by
      rw [contextFor, hsymbols]
      rfl
    rw [hcontext]
    exact context?_of_no_symbols _ d
  have htext : ofDiagnostics (contextFor client files path true numbered) path =
      ofDiagnostics (contextFor client files path false numbered) path := by
    funext diagnostics
    simp only [ofDiagnostics, entryLines, hshown]
  rw [result_make_eq, result_make_eq, htext]

theorem result_make_eq_error_iff {e : ReportError} :
    (make client files path includeContext numbered).run.result = .error e ↔
      ∃ cause, e = .client cause ∧ (client.openAnswer path 0 = .error cause ∨
        client.openAnswer path 0 = .ok () ∧
          client.diagnosticsAnswer (.ofPath path) 0 = .error cause) := by
  rw [result_make_eq]
  cases client.openAnswer path 0 with
  | error cause => simp [Except.mapError, bind, Except.bind, eq_comm]
  | ok opened =>
    cases client.diagnosticsAnswer (.ofPath path) 0 with
    | error cause => simp [Except.mapError, bind, Except.bind, eq_comm]
    | ok diagnostics => simp [Except.mapError, bind, Except.bind, pure, Except.pure]

end DiagnosticsReport

/-! ### All three -/

/-- How failing requests show in the reports made with a client: only those fail a report that it
cannot do without, and the others show as if there were nothing to tell. -/
structure Tolerant (client : LanguageClient) (files : FileTree) : Prop where
  references : ∀ settings name,
    (ReferencesReport.make client files settings name).run.result =
      (ReferencesReport.make client.lenient files settings name).run.result
  references_error : ∀ settings name e,
    (ReferencesReport.make client files settings name).run.result = .error e ↔
      ∃ cause, e = .client cause ∧ client.workspaceSymbolsAnswer name 0 = .error cause
  definitions : ∀ name, (DefinitionReport.make client files name).run.result =
    (DefinitionReport.make (client.ofKnown files name) files name).run.result
  definitions_error : ∀ name e, (DefinitionReport.make client files name).run.result = .error e ↔
    ∃ cause, e = .client cause ∧ client.workspaceSymbolsAnswer name 0 = .error cause
  diagnostics : ∀ path numbered cause,
    client.documentSymbolsAnswer (.ofPath path) 0 = .error cause →
      (DiagnosticsReport.make client files path true numbered).run.result =
        (DiagnosticsReport.make client files path false numbered).run.result
  diagnostics_error : ∀ path includeContext numbered e,
    (DiagnosticsReport.make client files path includeContext numbered).run.result = .error e ↔
      ∃ cause, e = .client cause ∧ (client.openAnswer path 0 = .error cause ∨
        client.openAnswer path 0 = .ok () ∧
          client.diagnosticsAnswer (.ofPath path) 0 = .error cause)

/-- Reports tolerate the failure of every request that they can do without. -/
theorem reports_tolerant (client : LanguageClient) (files : FileTree) : Tolerant client files where
  references settings name := ReferencesReport.result_make_lenient.symm
  references_error settings name e := by
    rw [ReferencesReport.result_make_eq]
    exact map_eq_error_iff
  definitions name := DefinitionReport.result_make_ofKnown.symm
  definitions_error name e := by
    rw [DefinitionReport.result_make_eq]
    exact map_eq_error_iff
  diagnostics path numbered cause h := DiagnosticsReport.result_make_of_no_symbols h
  diagnostics_error path includeContext numbered e := DiagnosticsReport.result_make_eq_error_iff

/-- Two methods of one name, in a file `a.go`. -/
def runMethods : SymbolInformation × SymbolInformation :=
  (⟨"Server.run", .method, ⟨.ofPath "/a.go", ⟨⟨0, 0⟩, ⟨0, 4⟩⟩⟩, none⟩,
    ⟨"Client.run", .method, ⟨.ofPath "/a.go", ⟨⟨1, 0⟩, ⟨1, 4⟩⟩⟩, none⟩)

/-- A client that knows of a diagnostic and of no symbols of a document when it is first asked, as
it is still at work then. -/
def indexingClient : LanguageClient :=
  { ReferencesReport.serveClient with
    workspaceSymbolsAnswer := fun _ _ => .ok [runMethods.1, runMethods.2]
    documentSymbolsAnswer := fun uri n =>
      if n = 0 then .error (.unavailable "indexing") else .ok (ReferencesReport.serveOutline uri)
    diagnosticsAnswer := fun _ _ => .ok [⟨⟨⟨9, 1⟩, ⟨9, 6⟩⟩, some .warning, none, none, "unused"⟩] }

/-- Of the two methods the first is not known, though the same request is answered for the other. -/
theorem indexingClient_tolerant :
    let files : FileTree := ⟨.dir [("a.go", .file .empty)]⟩
    indexingClient.documentSymbolsAnswer (.ofPath "/a.go") 0 = .error (.unavailable "indexing") ∧
      (indexingClient.ofKnown files "run").workspaceSymbolsAnswer "run" 0 = .ok [runMethods.2] ∧
      (DefinitionReport.make indexingClient files "run").run.result =
        (DefinitionReport.make (indexingClient.ofKnown files "run") files "run").run.result ∧
      (DiagnosticsReport.make indexingClient files "/a.go" true true).run.result =
        (DiagnosticsReport.make indexingClient files "/a.go" false true).run.result := by
  intro files
  have htolerant := reports_tolerant indexingClient files
  refine ⟨rfl, ?_, htolerant.definitions "run", htolerant.diagnostics "/a.go" true _ rfl⟩
  decide +kernel

end WorkspaceLink
