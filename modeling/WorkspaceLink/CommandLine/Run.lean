import WorkspaceLink.CommandLine.Invocation
import WorkspaceLink.Report.References
import WorkspaceLink.Report.Symbols
import WorkspaceLink.Scope.Definition
import WorkspaceLink.SettingsFile
import WorkspaceLink.Watch.OpenWalk

/-!
Runs of the program on a file system. No server is asked: symbols come from a file, and a watched
workspace has a client that accepts every call.
-/

namespace WorkspaceLink

/-- Where the program runs. -/
structure Host where
  files : FileTree
  dir : Path
  environment : Text → Option Text := fun _ => none

/-- A path as seen from the working directory. The empty path leads nowhere. -/
def Host.locate (host : Host) (path : Path) : Path :=
  if path.isEmpty then [] else Path.join host.dir path

inductive RunError where
  | settings (path : Path)
  | symbols (path : Path)
  | source (error : ScopeError)
  | missing (path : Path)
  | report (error : ReportError)
  | watch (error : WatchError)

def RunError.message : RunError → Text
  | settings path => "Failed to load config from " ++ path
  | symbols path => "Failed to load symbols from " ++ path
  | source error => error.message
  | missing path => "File does not exist: " ++ path
  | report error => error.message
  | watch error => error.message

/-- A client that serves one answer to all requests for symbols and has nothing else to say. -/
def LanguageClient.offline (symbols : SymbolResponse) : LanguageClient where
  openAnswer _ _ := .ok ()
  documentSymbolsAnswer _ _ := .ok symbols
  workspaceSymbolsAnswer _ _ := .ok []
  referencesAnswer _ _ _ := .ok []
  diagnosticsAnswer _ _ := .ok []
  hoverAnswer _ _ _ := .ok none

/-- A workspace being watched, after the files found at the start have been opened. -/
structure WatchSession where
  watcher : Watcher
  state : WatchState
  patterns : Nat
  stats : Option OpenStats

/-- What a run comes to. -/
inductive Outcome where
  | printed (text : Text)
  | watching (session : WatchSession)
  | failed (error : RunError)
  | misused (error : UsageError)

namespace Host

variable (host : Host)

def settings (inv : Invocation) : Except RunError Settings := do
  let s ← match inv.config with
    | some path => (Settings.load host.files (host.locate path)).mapError fun _ => .settings path
    | none => .ok .default
  .ok { s with watch.verbose := s.watch.verbose || inv.verbose }

def loadSymbols (path : Path) : Except RunError SymbolResponse := do
  let text ← (host.files.readText (host.locate path)).mapError fun _ => .symbols path
  (Json.parse SymbolResponse.reader text).mapError fun _ => .symbols path

def loadSource (path : Path) : Except RunError SourceText :=
  (SourceText.readAs host.files path (host.locate path)).mapError .source

/-- The definition around a position as it is printed, or why there is none. -/
def definitionText (source : SourceText) (forest : List DocumentSymbol) (numbered : Bool)
    (p : Position) : Text :=
  let mark : Text := "L" ++ Text.ofNat (coordSucc p.line) ++ ": "
  match source.definitionAt forest p with
  | .error e => mark ++ e.message ++ ['\n']
  | .ok d =>
    let first := coordSucc d.range.start.line
    let last := coordSucc d.range.stop.line
    mark ++ "lines " ++ Text.ofNat first ++ "-" ++ Text.ofNat last ++ ['\n'] ++
      if numbered then d.text.numbered first else d.text ++ ['\n']

def scopeText (settings : RenderSettings) (numbered : Bool) (s : Scope) : Text :=
  let window := Window.render settings s.text (coordSucc s.id.startLine) s.highlights
  Text.terminated [s.header, (Window.format numbered window).indented]

/-- Prints the scopes around positions in a file, or the whole definitions. -/
def printScopes (settings : Settings) (file symbols : Path) (positions : List Position)
    (whole numbered : Bool) : Except RunError Text := do
  let forest := (← host.loadSymbols symbols).toForest
  let source ← host.loadSource file
  if whole then return positions.flatMap (definitionText source forest numbered)
  let scopes := groupReferences forest (some source) (Position.sort positions) settings.render
  return "File: " ++ file ++ " (" ++ Text.ofNat positions.length ++ " positions)\n" ++
    scopes.flatMap (scopeText settings.render numbered)

/-- Prints the symbols of a file, which must be there. -/
def printSymbols (file symbols : Path) (numbered : Bool) : Except RunError Text := do
  let response ← host.loadSymbols symbols
  if host.files.exists? (host.locate file) then
    match (SymbolsReport.make (.offline response) file numbered).run.result with
    | .ok text => return text.trimEnd ++ ['\n']
    | .error e => throw (.report e)
  else throw (.missing file)

/-- Starts to watch a workspace: the patterns are registered relative to its root, and the files
that they match are opened. -/
def watch (settings : Settings) (workspace : Path) (patterns : List Text) :
    Except RunError WatchSession := do
  let w ← match Watcher.ofRoot host.files (host.locate workspace) settings with
    | .ok w => .ok w
    | .error (.pathNotFound _) => .error (.watch (.pathNotFound workspace))
    | .error e => .error (.watch e)
  let registrations := patterns.map fun pattern => ⟨⟨some w.root, pattern⟩, none⟩
  let state := WatchState.start w { files := host.files } none
  let (state, stats) := state.register w "cli" registrations
  return ⟨w, state, patterns.length, stats⟩

def perform (inv : Invocation) : Except RunError Outcome := do
  let settings ← host.settings inv
  match inv.command with
  | .watch workspace patterns => return .watching (← host.watch settings workspace patterns)
  | .scope file symbols positions whole numbered =>
    return .printed (← host.printScopes settings file symbols positions whole numbered)
  | .symbols file symbols numbered => return .printed (← host.printSymbols file symbols numbered)

/-- The name and version of the program or of one of its commands. -/
def versionText (command : Option CommandName) : Text :=
  let name : Text := match command with
    | none => "lsp-bridge"
    | some c => "lsp-bridge-" ++ c.name
  name ++ " 0.1.0\n"

def usageText : Text :=
  Text.terminated (["Usage: lsp-bridge [--config <CONFIG>] [--verbose] [--no-color] <COMMAND>", "",
    "Commands:",
    "  watch    [--workspace <WORKSPACE>] [--pattern <PATTERNS>]...",
    "  scope    --file <FILE> --symbols <SYMBOLS> --at <LINE[:COLUMN]>... [--definition] " ++
      "[--no-line-numbers]",
    "  symbols  --file <FILE> --symbols <SYMBOLS> [--no-line-numbers]"].map String.toList)

def run (args : List Text) : Outcome :=
  match Invocation.ofArguments host.environment args with
  | .error (.version command) => .printed (versionText command)
  | .error .help => .printed usageText
  | .error (.misuse e) => .misused e
  | .ok inv =>
    match host.perform inv with
    | .ok outcome => outcome
    | .error e => .failed e

end Host

end WorkspaceLink
