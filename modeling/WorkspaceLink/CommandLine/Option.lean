import WorkspaceLink.Position
import WorkspaceLink.Text.Blank
import WorkspaceLink.Text.Decimal
import WorkspaceLink.Text.Quoted

/-!
The options of the command line, and what is wrong with arguments that cannot be understood.
-/

namespace WorkspaceLink

inductive CommandName where
  | watch | scope | symbols
deriving DecidableEq

namespace CommandName

/-- How a command is written. -/
def name : CommandName → Text
  | watch => "watch"
  | scope => "scope"
  | symbols => "symbols"

def ofName? (s : Text) : Option CommandName :=
  [watch, scope, symbols].find? (·.name = s)

end CommandName

inductive CommandOption where
  | config | verbose | noColor | version | help
  | workspace | pattern
  | file | symbols | at | definition | noLineNumbers
deriving DecidableEq

namespace CommandOption

/-- The options that may stand before the command as well as after it. -/
def anywhere : List CommandOption :=
  [config, verbose, noColor, version, help]

/-- The options that may stand after a command, or before any. -/
def allowed : Option CommandName → List CommandOption
  | none => anywhere
  | some .watch => anywhere ++ [workspace, pattern]
  | some .scope => anywhere ++ [file, symbols, .at, definition, noLineNumbers]
  | some .symbols => anywhere ++ [file, symbols, noLineNumbers]

def long : CommandOption → Text
  | config => "config"
  | verbose => "verbose"
  | noColor => "no-color"
  | version => "version"
  | help => "help"
  | workspace => "workspace"
  | pattern => "pattern"
  | file => "file"
  | symbols => "symbols"
  | .at => "at"
  | definition => "definition"
  | noLineNumbers => "no-line-numbers"

def short? : CommandOption → Option Char
  | config => some 'c'
  | verbose => some 'v'
  | version => some 'V'
  | help => some 'h'
  | workspace => some 'w'
  | pattern => some 'p'
  | file => some 'f'
  | symbols => some 's'
  | _ => none

/-- What the value of an option is called, if it takes one. -/
def valueName? : CommandOption → Option Text
  | config => some "CONFIG"
  | workspace => some "WORKSPACE"
  | pattern => some "PATTERNS"
  | file => some "FILE"
  | symbols => some "SYMBOLS"
  | .at => some "POSITIONS"
  | _ => none

def repeats : CommandOption → Bool
  | pattern => true
  | .at => true
  | _ => false

/-- How messages show an option. -/
def usage (o : CommandOption) : Text :=
  "--" ++ o.long ++
    match o.valueName? with
    | some v => " <" ++ v ++ ">"
    | none => []

end CommandOption

/-- What is wrong with the text of a position. -/
inductive PositionFault where
  | line | column | zero
deriving DecidableEq

def PositionFault.message (value : Text) : PositionFault → Text
  | line => "invalid line in " ++ value.quoted
  | column => "invalid column in " ++ value.quoted
  | zero => "positions are 1-based, got " ++ value.quoted

/-- The position that a text `line` or `line:column` spells, both counted from one. A line alone
means its first column. -/
def Position.ofArgument (value : Text) : Except PositionFault Position := do
  let (line, column) := match Text.cut? ":" value with
    | some (line, column) => (line, column)
    | none => (value, "1")
  let number (s : Text) (fault : PositionFault) : Except PositionFault Nat :=
    match Text.natBelow? coordBound s.trim with
    | some n => .ok n
    | none => .error fault
  let l ← number line .line
  let c ← number column .column
  if l = 0 ∨ c = 0 then .error .zero else .ok ⟨l - 1, c - 1⟩

/-- Why arguments are not understood. -/
inductive UsageError where
  | unexpected (argument : Text)
  | unknownCommand (name : Text)
  | noCommand
  | noValue (option : CommandOption)
  | needlessValue (option : CommandOption) (value : Text)
  | repeated (option : CommandOption)
  | noOption (option : CommandOption)
  | invalidPosition (value : Text) (fault : PositionFault)
deriving DecidableEq

def UsageError.message : UsageError → Text
  | unexpected argument => "unexpected argument '" ++ argument ++ "' found"
  | unknownCommand name => "unrecognized subcommand '" ++ name ++ "'"
  | noCommand => "'lsp-bridge' requires a subcommand but one was not provided"
  | noValue o => "a value is required for '" ++ o.usage ++ "' but none was supplied"
  | needlessValue o value =>
    "unexpected value '" ++ value ++ "' for '" ++ o.usage ++ "' found; no more were expected"
  | repeated o => "the argument '" ++ o.usage ++ "' cannot be used multiple times"
  | noOption o => "the following required arguments were not provided: " ++ o.usage
  | invalidPosition value fault =>
    "invalid value '" ++ value ++ "' for '" ++ CommandOption.at.usage ++ "': " ++
      fault.message value

end WorkspaceLink
