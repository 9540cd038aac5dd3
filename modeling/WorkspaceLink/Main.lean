import WorkspaceLink.CommandLine.Run
import WorkspaceLink.Watch.Snapshot

/-!
The program: it loads the files that the arguments name, runs, and prints what came of it. A
watched workspace is looked at ten times a second until the program is interrupted.
-/

namespace WorkspaceLink

/-- The paths that an invocation reads. -/
def Invocation.paths (inv : Invocation) : List Path :=
  inv.config.toList ++
    match inv.command with
    | .watch workspace _ => [workspace]
    | .scope file symbols _ _ _ => [file, symbols]
    | .symbols file symbols _ => [file, symbols]

namespace Program

/-- A file tree with what stands at a path of the system; a directory with all of its entries but
hidden directories. Links are not followed. -/
partial def load (t : FileTree) (path : String) : IO FileTree := do
  let path ← IO.FS.realPath path
  if ← path.isDir then
    let mut t := t.makeDir path.toString
    for entry in ← path.readDir do
      match (← entry.path.symlinkMetadata).type with
      | .symlink =>
        t ← (return t.makeLink entry.path.toString (← IO.FS.realPath entry.path).toString) <|>
          pure t
      | .dir =>
        unless entry.fileName.startsWith "." do t ← load t entry.path.toString <|> pure t
      | _ => t ← load t entry.path.toString <|> pure t
    return t
  else
    return t.write path.toString (← IO.FS.readBinFile path)

/-- The time of a file's last change and its size as one number. -/
def stamp (path : String) : IO Nat := do
  let info ← (← IO.FS.realPath path).metadata
  return (info.modified.sec.toNat * 1000000000 + info.modified.nsec.toNat) * wordBound +
    info.byteSize.toNat

/-- A look at the files and directories of a loaded tree. -/
def look (t : FileTree) (root : Path) : IO Snapshot := do
  let entries := (t.walk? (fun _ => false) root).getD []
  let listed ← entries.mapM fun (path, kind) => do
    if kind = .dir then return (path, 0)
    return (path, ← (stamp (String.ofList path) <|> pure 0))
  return listed.mergeSort fun a b => (compare a.1 b.1).isLE

def log (line : Text) : IO Unit :=
  IO.eprintln ("INFO " ++ String.ofList line)

def logCalls (calls : List (Nat × WatchCall)) : IO Unit :=
  for (_, call) in calls do
    match call with
    | .open path => log ("didOpen path=" ++ path)
    | .change path => log ("didChange path=" ++ path)
    | .watched uri change =>
      log ("didChangeWatchedFiles uri=" ++ uri.text ++ " change=" ++ change.name)

/-- The time between two looks at a workspace, in milliseconds. -/
def pause : Nat := 100

/-- Watches a workspace for ever. -/
partial def follow (w : Watcher) (state : WatchState) (seen : Snapshot) : IO Unit := do
  IO.sleep pause.toUInt32
  let files ← load .empty (String.ofList w.root)
  let now ← look files w.root
  let before := state.client.calls.length
  let state := ({ state with files }.deliver w (seen.events now)).advance pause
  logCalls (state.client.calls.drop before)
  follow w state now

/-- Logs what was opened at the start and then watches. -/
def watch (session : WatchSession) : IO Unit := do
  let w := session.watcher
  log ("Starting watcher root=" ++ w.root ++ " patterns=" ++ Text.ofNat session.patterns)
  logCalls session.state.client.calls
  if let some stats := session.stats then
    log ("Initial open complete scanned=" ++ Text.ofNat stats.scanned ++ " matched=" ++
      Text.ofNat stats.matched ++ " opened=" ++ Text.ofNat stats.opened ++ " failed=" ++
      Text.ofNat stats.failed)
  follow w session.state (← look session.state.files w.root)

/-- The files that arguments name, and where they are. -/
def host (args : List String) : IO Host := do
  let dir ← IO.currentDir
  let config ← IO.getEnv "LSP_BRIDGE_CONFIG"
  let workspace ← IO.getEnv "LSP_BRIDGE_WORKSPACE"
  let environment (name : Text) : Option Text :=
    if name = "LSP_BRIDGE_CONFIG".toList then config.map String.toList
    else if name = "LSP_BRIDGE_WORKSPACE".toList then workspace.map String.toList
    else none
  let mut files := FileTree.empty.makeDir dir.toString
  if let .ok inv := Invocation.ofArguments environment (args.map String.toList) then
    for path in inv.paths do
      files ← (load files (String.ofList path) <|> pure files)
  return ⟨files, dir.toString, environment⟩

/-- Runs the program with its arguments and gives its exit code. -/
def run (args : List String) : IO UInt32 := do
  match (← host args).run (args.map String.toList) with
  | .printed text =>
    IO.print (String.ofList text)
    return 0
  | .watching session =>
    watch session
    return 0
  | .failed error =>
    IO.eprintln ("Error: " ++ String.ofList error.message)
    return 1
  | .misused error =>
    IO.eprintln ("error: " ++ String.ofList error.message)
    return 2

end Program

end WorkspaceLink

def main (args : List String) : IO UInt32 :=
  WorkspaceLink.Program.run args
