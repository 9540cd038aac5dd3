import WorkspaceLink.ClientError
import WorkspaceLink.Text.Utf8

/-!
Failures of the workspace watcher.
-/

namespace WorkspaceLink

inductive WatchError where
  | eventSource (cause : Text)
  | pathNotFound (path : Text)
  | walk (cause : Text)
  /-- A path is no text. -/
  | nonUtf8Path (path : List UInt8)
  | client (error : ClientError)
  | io (cause : Text)
deriving DecidableEq

namespace WatchError

def message : WatchError → Text
  | eventSource cause => "notify watcher error: " ++ cause
  | pathNotFound path => "path does not exist: " ++ path
  | walk cause => "workspace walk failed: " ++ cause
  | nonUtf8Path path => "path is not valid UTF-8: " ++ Text.decodeLossy path
  | client error => "language client error: " ++ error.message
  | io cause => "I/O error: " ++ cause

def isRecoverable : WatchError → Bool
  | nonUtf8Path _ => true
  | client _ => true
  | _ => false

def path? : WatchError → Option Text
  | pathNotFound path => some path
  | _ => none

end WatchError

end WorkspaceLink
