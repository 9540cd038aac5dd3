import WorkspaceLink.ClientError
import WorkspaceLink.Diagnostic
import WorkspaceLink.Scope.SourceText
import WorkspaceLink.Symbol

/-!
The language client that reports are made from: the requests that it answers, and computations
that keep account of the requests they make. A request may be answered anew each time it is made.
-/

namespace WorkspaceLink

inductive Query where
  | openFile (path : Text)
  | documentSymbols (uri : DocumentUri)
  | workspaceSymbols (name : Text)
  | references (uri : DocumentUri) (position : Position)
  | diagnostics (uri : DocumentUri)
  | hover (uri : DocumentUri) (position : Position)
deriving DecidableEq

/-- A computation that makes requests: what it comes to, and all requests made by then, from those
made before it. -/
structure Asked (α : Type) where
  after : List Query → α × List Query

namespace Asked

variable {α β : Type}

instance : Monad Asked where
  pure a := ⟨fun asked => (a, asked)⟩
  bind x f := ⟨fun asked => (f (x.after asked).1).after (x.after asked).2⟩

/-- What a computation comes to if no request was made before it. -/
def result (x : Asked α) : α :=
  (x.after []).1

/-- The requests that it makes then, in order. -/
def queries (x : Asked α) : List Query :=
  (x.after []).2

/-- Makes a request. The answers are numbered: the first is to the request made for the first time,
the next to the same request made again. -/
def ask (q : Query) (answers : Nat → α) : Asked α :=
  ⟨fun asked => (answers (asked.count q), asked ++ [q])⟩

/-- Does the same for each element of a list in turn. -/
def each (f : α → Asked β) : List α → Asked (List β)
  | [] => pure []
  | a :: as => do return (← f a) :: (← each f as)

@[simp]
theorem after_pure (a : α) (asked : List Query) : (pure a : Asked α).after asked = (a, asked) :=
  rfl

@[simp]
theorem after_bind (x : Asked α) (f : α → Asked β) (asked : List Query) :
    (x >>= f).after asked = (f (x.after asked).1).after (x.after asked).2 :=
  rfl

end Asked

/-- A language client, by the answers that it gives to a request each time that it is made. -/
structure LanguageClient where
  openAnswer : Text → Nat → Except ClientError Unit
  documentSymbolsAnswer : DocumentUri → Nat → Except ClientError SymbolResponse
  workspaceSymbolsAnswer : Text → Nat → Except ClientError (List SymbolInformation)
  referencesAnswer : DocumentUri → Position → Nat → Except ClientError (List Location)
  diagnosticsAnswer : DocumentUri → Nat → Except ClientError (List Diagnostic)
  hoverAnswer : DocumentUri → Position → Nat → Except ClientError (Option Hover)

namespace LanguageClient

variable (client : LanguageClient)

def openFile (path : Text) : Asked (Except ClientError Unit) :=
  .ask (.openFile path) (client.openAnswer path)

def documentSymbols (uri : DocumentUri) : Asked (Except ClientError SymbolResponse) :=
  .ask (.documentSymbols uri) (client.documentSymbolsAnswer uri)

/-- Asks for the symbols of the workspace that go by a name. -/
def workspaceSymbols (name : Text) : Asked (Except ClientError (List SymbolInformation)) :=
  .ask (.workspaceSymbols name) (client.workspaceSymbolsAnswer name)

/-- Asks for the references to what stands at a position, without its declaration. -/
def references (uri : DocumentUri) (p : Position) : Asked (Except ClientError (List Location)) :=
  .ask (.references uri p) (client.referencesAnswer uri p)

def diagnostics (uri : DocumentUri) : Asked (Except ClientError (List Diagnostic)) :=
  .ask (.diagnostics uri) (client.diagnosticsAnswer uri)

def hover (uri : DocumentUri) (p : Position) : Asked (Except ClientError (Option Hover)) :=
  .ask (.hover uri p) (client.hoverAnswer uri p)

end LanguageClient

inductive ReportError where
  | client (error : ClientError)
  | scope (error : ScopeError)
deriving DecidableEq

namespace ReportError

def message : ReportError → Text
  | client error => error.message
  | scope error => error.message

/-- Whether the report may succeed when it is asked for again. -/
def isRecoverable : ReportError → Bool
  | client error => error.isRecoverable
  | scope _ => true

end ReportError

abbrev Reporting := ExceptT ReportError Asked

/-- A request that the report depends on. -/
def Reporting.need {α : Type} (x : Asked (Except ClientError α)) : Reporting α :=
  ExceptT.mk do return (← x).mapError .client

/-- A request that the report can do without. -/
def Reporting.try? {α : Type} (x : Asked (Except ClientError α)) : Asked (Option α) := do
  return (← x).toOption

namespace Reporting

variable {α β : Type}

theorem after_lift_bind (x : Asked α) (f : α → Reporting β) (asked : List Query) :
    (ExceptT.lift x >>= f).run.after asked = (f (x.after asked).1).run.after (x.after asked).2 :=
  rfl

/-- With a request that it depends on a report fails or, if it is answered, goes on. -/
theorem after_need_bind (x : Asked (Except ClientError α)) (f : α → Reporting β)
    (asked : List Query) : ((need x >>= f).run.after asked).1 =
      ((x.after asked).1.mapError .client).bind fun a => ((f a).run.after (x.after asked).2).1 := by
  change ((ExceptT.bindCont f ((x.after asked).1.mapError .client)).after (x.after asked).2).1 = _
  cases (x.after asked).1 <;> rfl

end Reporting

end WorkspaceLink
