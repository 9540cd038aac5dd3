import WorkspaceLink.Text.Basic

/-!
Failures of a language client.
-/

namespace WorkspaceLink

inductive ClientError where
  | request (method message : Text)
  | unavailable (reason : Text)
  | io (cause : Text)
deriving DecidableEq

namespace ClientError

def message : ClientError → Text
  | request method message => method ++ " request failed: " ++ message
  | unavailable reason => "language client unavailable: " ++ reason
  | io cause => "I/O error: " ++ cause

def isRecoverable : ClientError → Bool
  | unavailable _ => false
  | _ => true

end ClientError

end WorkspaceLink
