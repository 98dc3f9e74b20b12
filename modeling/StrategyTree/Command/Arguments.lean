import StrategyTree.Command.Basic
/-!
# Arguments

A command is asked for by its name and its options. An option is written by its name
after two hyphens or by its letter after one, and its value is the next argument or
follows an equals sign; after a letter the sign may be left out. A value is looked at
when the next option starts or the arguments end, so of two faults an unknown
argument may be told before a bad value on its left.
-/
namespace StrategyTree

inductive UsageFault where
  | helpRequested
  | commandMissing
  | unknownCommand (text : String)
  | unknownArgument (text : String)
  | needlessValue (option : String)
  | valueMissing (option : String)
  | badValue (option text : String)
  | repeatedOption (option : String)
  | optionMissing (option : String)
deriving DecidableEq, Repr

namespace UsageFault

def message : UsageFault → String
  | helpRequested => "usage: (backtest | validate | info) [options]"
  | commandMissing => "a command is required: backtest, validate or info"
  | unknownCommand text => s!"unrecognized command '{text}'"
  | unknownArgument text => s!"unexpected argument '{text}'"
  | needlessValue option => s!"option --{option} takes no value"
  | valueMissing option => s!"option --{option} requires a value"
  | badValue option text => s!"invalid value '{text}' for option --{option}"
  | repeatedOption option => s!"option --{option} cannot be used multiple times"
  | optionMissing option => s!"option --{option} is required"

/-- To ask for help is no failure. -/
def exitCode : UsageFault → Nat
  | helpRequested => 0
  | _ => 2

end UsageFault

namespace Command

inductive Taking where
  | nothing
  | path
  | text
  | mode
deriving DecidableEq, Repr

structure OptionForm where
  name : String
  letter : Option Char
  taking : Taking
deriving DecidableEq, Repr

def helpOption : OptionForm := ⟨"help", some 'h', .nothing⟩
def configOption : OptionForm := ⟨"config", some 'c', .path⟩
def treeOption : OptionForm := ⟨"tree", some 't', .path⟩
def outputOption : OptionForm := ⟨"output", some 'o', .path⟩
def modeOption : OptionForm := ⟨"mode", none, .mode⟩
def dryRunOption : OptionForm := ⟨"dry-run", none, .nothing⟩
def tickerOption : OptionForm := ⟨"ticker", none, .text⟩

structure Reading where
  /-- Options with their values, which have been looked at. -/
  given : List (String × String)
  /-- An option whose value is still to come or to be looked at. -/
  pending : Option (OptionForm × Option String)
deriving DecidableEq, Repr

/-- Whether a value will do for an option. A path must not be empty. -/
def checkValue (o : OptionForm) (value : String) : Except UsageFault Unit :=
  match o.taking with
  | .nothing | .text => .ok ()
  | .path => if value.isEmpty then .error (.valueMissing o.name) else .ok ()
  | .mode =>
      if (BacktestMode.ofText? value).isNone then .error (.badValue o.name value) else .ok ()

namespace Reading

def start : Reading := ⟨[], none⟩

/-- Takes an option with its value. No option can be given twice. -/
def accept (r : Reading) (o : OptionForm) (value : String) : Except UsageFault Reading := do
  if o = helpOption then throw .helpRequested
  if (r.given.lookup o.name).isSome then throw (.repeatedOption o.name)
  checkValue o value
  return { r with given := r.given ++ [(o.name, value)] }

/-- Takes the pending option, which must have its value by now. -/
def settle (r : Reading) : Except UsageFault Reading :=
  match r.pending with
  | none => .ok r
  | some (o, none) => .error (.valueMissing o.name)
  | some (o, some value) => accept { r with pending := none } o value

/-- Starts an option that takes a value. -/
def begin (r : Reading) (o : OptionForm) (value : Option String) :
    Except UsageFault Reading := do
  let r ← r.settle
  match value with
  | some value => r.accept o value
  | none => return { r with pending := some (o, none) }

/-- Reads an option after two hyphens. -/
def long (forms : List OptionForm) (r : Reading) (cs : List Char) :
    Except UsageFault Reading := do
  let name := String.ofList (cs.takeWhile (· ≠ '='))
  let value := match cs.dropWhile (· ≠ '=') with
    | _ :: value => some (String.ofList value)
    | [] => none
  match forms.find? (·.name = name) with
  | none => throw (.unknownArgument s!"--{name}")
  | some o =>
      if o.taking = .nothing then
        if value.isSome then throw (.needlessValue name)
        (← r.settle).accept o ""
      else r.begin o value

/-- The value that directly follows the letter of an option, if one does. -/
def attached : List Char → Option String
  | [] => none
  | '=' :: value => some (String.ofList value)
  | value => some (String.ofList value)

def short (forms : List OptionForm) (r : Reading) : List Char → Except UsageFault Reading
  | [] => .ok r
  | c :: rest => do
      match forms.find? (·.letter = some c) with
      | none => throw (.unknownArgument s!"-{c}")
      | some o =>
          if o.taking = .nothing then short forms (← (← r.settle).accept o "") rest
          else r.begin o (attached rest)

/-- Reads an argument. One without a hyphen is the value of the pending option. -/
def argument (forms : List OptionForm) (r : Reading) (text : String) :
    Except UsageFault Reading :=
  match text.toList with
  | '-' :: '-' :: name => r.long forms name
  | '-' :: c :: rest => r.short forms (c :: rest)
  | _ =>
      match r.pending with
      | some (o, none) => .ok { r with pending := some (o, some text) }
      | _ => .error (.unknownArgument text)

/-- Reads arguments to their end. What follows two bare hyphens is no option. -/
def arguments (forms : List OptionForm) : Reading → List String → Except UsageFault Reading
  | r, [] => r.settle
  | r, "--" :: rest =>
      match rest with
      | [] => r.settle
      | text :: _ => .error (.unknownArgument text)
  | r, text :: rest => do arguments forms (← r.argument forms text) rest

def required (r : Reading) (o : OptionForm) : Except UsageFault String :=
  match r.given.lookup o.name with
  | some value => .ok value
  | none => .error (.optionMissing o.name)

def value? (r : Reading) (o : OptionForm) : Option String :=
  r.given.lookup o.name

end Reading

def backtestOfArguments (args : List String) : Except UsageFault Command := do
  let r ← Reading.start.arguments
    [helpOption, configOption, treeOption, outputOption, modeOption, dryRunOption] args
  return .backtest (← r.required configOption) (← r.required treeOption) (r.value? outputOption)
    (r.value? modeOption >>= BacktestMode.ofText?) (r.value? dryRunOption).isSome

def validateOfArguments (args : List String) : Except UsageFault Command := do
  let r ← Reading.start.arguments [helpOption, treeOption] args
  return .validate (← r.required treeOption)

def infoOfArguments (args : List String) : Except UsageFault Command := do
  let r ← Reading.start.arguments [helpOption, tickerOption, configOption] args
  return .info (r.value? tickerOption) (← r.required configOption)

def names : List String := ["backtest", "validate", "info", "help"]

/-- Help is asked for in general or for one command. -/
def helpFault : List String → UsageFault
  | [] => .helpRequested
  | name :: rest =>
      if names.contains name then
        match rest with
        | [] => .helpRequested
        | text :: _ => .unknownCommand text
      else .unknownCommand name

/-- What is wrong with an argument that stands in the place of a command. -/
def leadingFault (text : String) : UsageFault :=
  if text.toList.head? = some '-' && 1 < text.length then
    match Reading.start.argument [helpOption] text with
    | .error fault => fault
    | .ok _ => .commandMissing
  else .unknownCommand text

def ofArguments : List String → Except UsageFault Command
  | [] => .error .commandMissing
  | "--" :: rest =>
      match rest with
      | [] => .error .commandMissing
      | text :: _ =>
          .error (if names.contains text then .unknownArgument text else .unknownCommand text)
  | "backtest" :: args => backtestOfArguments args
  | "validate" :: args => validateOfArguments args
  | "info" :: args => infoOfArguments args
  | "help" :: args => .error (helpFault args)
  | text :: _ => .error (leadingFault text)

end Command
end StrategyTree
