import WorkspaceLink.Text.Basic
import WorkspaceLink.Text.Blank
import WorkspaceLink.Text.Decimal
import WorkspaceLink.Text.Utf8
import WorkspaceLink.Text.Quoted
import WorkspaceLink.DocumentUri
import WorkspaceLink.Symbol
import WorkspaceLink.Diagnostic
import WorkspaceLink.Watch.Registration
import WorkspaceLink.Settings
import WorkspaceLink.Json.Reader
import WorkspaceLink.Wire.Watching
import WorkspaceLink.Scope.Definition
import WorkspaceLink.Scope.Grouping
import WorkspaceLink.Scope.Window
import WorkspaceLink.Glob.Pattern
import WorkspaceLink.Path
import WorkspaceLink.Exclusion
import WorkspaceLink.Watch.OpenWalk
import WorkspaceLink.Report.Diagnostics
import WorkspaceLink.Report.Hover
import WorkspaceLink.Report.Symbols
import WorkspaceLink.CommandLine.Run
import WorkspaceLink.Main
import WorkspaceLink.Watch.Run
import WorkspaceLink.Proofs.Debouncer.Table
import WorkspaceLink.Proofs.Debouncer.Run
import WorkspaceLink.Proofs.Debouncer.Generations
import WorkspaceLink.Proofs.Debouncer.TrailingEdge
import WorkspaceLink.Proofs.Watcher.Step
import WorkspaceLink.Proofs.Watcher.Run
import WorkspaceLink.Proofs.Watcher.Writes
import WorkspaceLink.Proofs.Watcher.Authorised
import WorkspaceLink.Proofs.Watcher.Deletion
import WorkspaceLink.Proofs.Watcher.SmallSteps
import WorkspaceLink.Watch.Loop
import WorkspaceLink.Proofs.Watcher.Loop
import WorkspaceLink.Proofs.Watcher.Prompt
import WorkspaceLink.Proofs.Watcher.Stopped
import WorkspaceLink.Proofs.Watcher.Independence
import WorkspaceLink.Proofs.Watcher.Answers
import WorkspaceLink.Proofs.Watcher.Failures
import WorkspaceLink.Proofs.Path.PlainTree
import WorkspaceLink.Proofs.Debouncer.Queue
import WorkspaceLink.Proofs.Debouncer.GenerationSafety
import WorkspaceLink.Proofs.Debouncer.Interleaving
import WorkspaceLink.Proofs.Exclusion.Names
import WorkspaceLink.Proofs.Exclusion.Walk
import WorkspaceLink.Proofs.Scope.Grouping
import WorkspaceLink.Proofs.Scope.Attribution
import WorkspaceLink.Proofs.Watcher.Coverage
import WorkspaceLink.Proofs.Exclusion.Trees
import WorkspaceLink.Proofs.Scope.Lines
import WorkspaceLink.Proofs.Scope.Conservation
import WorkspaceLink.Proofs.Scope.Enclosing
import WorkspaceLink.Proofs.Scope.Window
import WorkspaceLink.Proofs.Scope.Visibility
import WorkspaceLink.Proofs.Glob.BaseDirectory
import WorkspaceLink.Proofs.Scope.Flattening
import WorkspaceLink.Proofs.Scope.Narrowest
import WorkspaceLink.Proofs.Watcher.Registrations
import WorkspaceLink.Proofs.Uri.Escapes
import WorkspaceLink.Proofs.Wire.Formats
import WorkspaceLink.Proofs.Report.References
import WorkspaceLink.Proofs.Report.Reordering
import WorkspaceLink.Proofs.Report.Failures
import WorkspaceLink.Proofs.Scope.Brackets
import WorkspaceLink.Proofs.Scope.Extension
import WorkspaceLink.Proofs.Scope.Angles
import WorkspaceLink.Proofs.Text.Offsets
import WorkspaceLink.Proofs.Scope.Slicing
import WorkspaceLink.Proofs.Scope.Extraction
import WorkspaceLink.Proofs.Scope.Definition
import WorkspaceLink.Proofs.Glob.Braces
import WorkspaceLink.Proofs.Glob.Alternation
import WorkspaceLink.Proofs.Glob.DoubleStar
import WorkspaceLink.Proofs.Glob.Level
import WorkspaceLink.Proofs.Glob.Malformed
import WorkspaceLink.Proofs.Path.Joined
import WorkspaceLink.Proofs.Exclusion.Roots
import WorkspaceLink.Proofs.Watcher.OpenWalk
import WorkspaceLink.Proofs.Uri.Spellings
import WorkspaceLink.Proofs.Report.Symbols
import WorkspaceLink.Proofs.Report.Diagnostics
import WorkspaceLink.Proofs.Scope.WordSize
import WorkspaceLink.Proofs.Scope.Numbering
