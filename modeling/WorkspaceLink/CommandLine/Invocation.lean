import WorkspaceLink.CommandLine.Option
import WorkspaceLink.DocumentUri

/-!
Invocations: what the arguments of the program ask it to do. Arguments are read from left to right,
and the first that cannot be understood decides.
-/

namespace WorkspaceLink

inductive Command where
  | watch (workspace : Path) (patterns : List Text)
  | scope (file symbols : Path) (positions : List Position) (whole numbered : Bool)
  | symbols (file symbols : Path) (numbered : Bool)

structure Invocation where
  config : Option Path
  verbose : Bool
  colored : Bool
  command : Command

/-- What ends the reading of arguments before they make an invocation: a question about the
program itself, or a mistake. -/
inductive Digression where
  | version (command : Option CommandName)
  | help
  | misuse (error : UsageError)

/-- An option as it was given; its value is empty if it takes none. -/
structure GivenOption where
  option : CommandOption
  value : Text

namespace Invocation

/-- The options given before, and one more. -/
def give (command : Option CommandName) (given : List GivenOption) (o : CommandOption)
    (value : Text) : Except Digression (List GivenOption) :=
  if !o.repeats && given.any (·.option = o) then .error (.misuse (.repeated o))
  else match o with
    | .version => .error (.version command)
    | .help => .error .help
    | .at =>
      match Position.ofArgument value with
      | .ok _ => .ok (given ++ [⟨o, value⟩])
      | .error fault => .error (.misuse (.invalidPosition value fault))
    | _ => .ok (given ++ [⟨o, value⟩])

/-- Options given so far, and one that still wants its value. -/
abbrev Progress := List GivenOption × Option CommandOption

/-- Reads a long option, its value after an equals sign if it has one there. -/
def readLong (command : Option CommandName) (given : List GivenOption) (arg : Text) :
    Except Digression Progress :=
  let (name, value) := match Text.cut? "=" arg with
    | some (name, value) => (name, some value)
    | none => (arg, none)
  match (CommandOption.allowed command).find? (·.long = name) with
  | none => .error (.misuse (.unexpected ("--" ++ name)))
  | some o =>
    match o.valueName?, value with
    | some _, some value => (give command given o value).map (·, none)
    | some _, none => .ok (given, some o)
    | none, some value => .error (.misuse (.needlessValue o value))
    | none, none => (give command given o []).map (·, none)

/-- Reads letters, each of them an option. After the letter of an option with a value the rest is
its value. -/
def readLetters (command : Option CommandName) (given : List GivenOption) :
    Text → Except Digression Progress
  | [] => .ok (given, none)
  | c :: cs =>
    match (CommandOption.allowed command).find? (·.short? = some c) with
    | none => .error (.misuse (.unexpected ['-', c]))
    | some o =>
      if o.valueName?.isNone then do readLetters command (← give command given o []) cs
      else match cs with
        | [] => .ok (given, some o)
        | '=' :: value => (give command given o value).map (·, none)
        | value => (give command given o value).map (·, none)

/-- Reads an argument as options; `none` if it is no option. -/
def readOptions? (command : Option CommandName) (given : List GivenOption) (arg : Text) :
    Option (Except Digression Progress) :=
  match arg with
  | '-' :: '-' :: name => some (readLong command given name)
  | '-' :: c :: cs => some (readLetters command given (c :: cs))
  | _ => none

/-- The argument after which no argument is an option. -/
def endOfOptions : Text := "--"

/-- Reads options up to the first argument that is none. Nothing may follow the end of the
options. -/
def readArguments (command : Option CommandName) :
    Progress → List Text → Except Digression (List GivenOption × List Text)
  | (given, none), [] => .ok (given, [])
  | (_, some o), [] => .error (.misuse (.noValue o))
  | (given, none), arg :: args =>
    if arg = endOfOptions then
      match args with
      | [] => .ok (given, [])
      | next :: _ => .error (.misuse (.unexpected next))
    else match readOptions? command given arg with
    | none => .ok (given, arg :: args)
    | some progress => do readArguments command (← progress) args
  | (given, some o), arg :: args =>
    if arg = endOfOptions then .error (.misuse (.noValue o))
    else match readOptions? command given arg with
    | none => do readArguments command (← give command given o arg, none) args
    | some (.error digression) => .error digression
    | some (.ok _) => .error (.misuse (.noValue o))

def valueOf? (given : List GivenOption) (o : CommandOption) : Option Text :=
  (given.reverse.find? (·.option = o)).map (·.value)

/-- The value given for an option that must be given. -/
def required (given : List GivenOption) (o : CommandOption) : Except Digression Text :=
  match valueOf? given o with
  | some value => .ok value
  | none => .error (.misuse (.noOption o))

def valuesOf (given : List GivenOption) (o : CommandOption) : List Text :=
  (given.filter (·.option = o)).map (·.value)

def has (given : List GivenOption) (o : CommandOption) : Bool :=
  given.any (·.option = o)

/-- The command with the options given after it. The workspace may be named by the environment;
by default it is the working directory, and all of its files are watched. -/
def commandOf (environment : Text → Option Text) (name : CommandName) (given : List GivenOption) :
    Except Digression Command :=
  match name with
  | .watch =>
    let workspace := valueOf? given .workspace <|> environment "LSP_BRIDGE_WORKSPACE"
    let patterns := valuesOf given .pattern
    .ok (.watch (workspace.getD ".") (if patterns.isEmpty then ["**/*"] else patterns))
  | .scope => do
    let file ← required given .file
    let symbols ← required given .symbols
    let _ ← required given .at
    let positions := (valuesOf given .at).filterMap fun v => (Position.ofArgument v).toOption
    .ok (.scope file symbols positions (has given .definition) (!has given .noLineNumbers))
  | .symbols => do
    .ok (.symbols (← required given .file) (← required given .symbols)
      (!has given .noLineNumbers))

/-- The invocation that arguments spell. An option that is given before the command and again
after it has the value given after it; the settings file may be named by the environment. -/
def ofArguments (environment : Text → Option Text) (args : List Text) :
    Except Digression Invocation := do
  let (before, args) ← readArguments none ([], none) args
  match args with
  | [] => .error (.misuse .noCommand)
  | word :: args =>
    match CommandName.ofName? word with
    | none => .error (.misuse (.unknownCommand word))
    | some name =>
      let (after, args) ← readArguments (some name) ([], none) args
      match args with
      | arg :: _ => .error (.misuse (.unexpected arg))
      | [] =>
        let given := before ++ after
        .ok { config := valueOf? given .config <|> environment "LSP_BRIDGE_CONFIG"
              verbose := has given .verbose
              colored := !has given .noColor
              command := ← commandOf environment name after }

end Invocation

end WorkspaceLink
