import Stackwright.Lowering.Program
import Stackwright.Machine.Run

/-! The arguments of the command: one input file, and options before or after it. Every option
may be given once. -/

set_option autoImplicit false

namespace Stackwright.CommandLine

/-- What a command is asked to do with one source file. -/
structure Invocation where
  input : String
  output : Option String
  run : Bool
  options : CompileOptions
  stepLimit : Nat
  verbose : Bool
  deriving Repr

inductive Request where
  | process (invocation : Invocation)
  | version
  | help
  deriving Repr

/-- Why arguments are refused. -/
inductive UsageError where
  | unknownOption (text : String)
  | repeatedOption (text : String)
  | unexpectedValue (option : String)
  | missingValue (option : String)
  | invalidValue (option value : String)
  | unexpectedArgument (text : String)
  | missingInput
  deriving DecidableEq, Repr

/-- Options without a value. -/
inductive Flag where
  | run | noPrelude | noComments | verbose
  deriving DecidableEq, Repr

/-- Options with a value. -/
inductive Setting where
  | output | labelLead | stepLimit
  deriving DecidableEq, Repr

inductive Choice where
  | flag (flag : Flag)
  | setting (setting : Setting)
  | version
  | help

def longOption? : String → Option Choice
  | "run" => some (.flag .run)
  | "no-prelude" => some (.flag .noPrelude)
  | "no-comments" => some (.flag .noComments)
  | "verbose" => some (.flag .verbose)
  | "output" => some (.setting .output)
  | "label-prefix" => some (.setting .labelLead)
  | "step-limit" => some (.setting .stepLimit)
  | "version" => some .version
  | "help" => some .help
  | _ => none

def shortOption? : Char → Option Choice
  | 'o' => some (.setting .output)
  | 'v' => some (.flag .verbose)
  | 'V' => some .version
  | 'h' => some .help
  | _ => none

/-- What has been read of the arguments. -/
structure Draft where
  input : Option String := none
  flags : List Flag := []
  output : Option String := none
  labelLead : Option String := none
  stepLimit : Option Nat := none

/-- A count below `2 ^ 64`: digits, with a plus sign in front if one likes. -/
def readCount? (text : String) : Option Nat :=
  let digits :=
    match text.toList with
    | '+' :: rest => rest
    | chars => chars
  let value := digits.foldl (fun value digit => value * 10 + (digit.toNat - '0'.toNat)) 0
  if !digits.isEmpty && digits.all Char.isDigit && value < 0x10000000000000000 then some value else none

namespace Draft

def setFlag (draft : Draft) (name : String) (flag : Flag) : Except UsageError Draft :=
  if draft.flags.contains flag then .error (.repeatedOption name)
  else .ok { draft with flags := flag :: draft.flags }

/-- Give a setting its value. File names must not be empty. -/
def set (draft : Draft) (name : String) (setting : Setting) (value : String) : Except UsageError Draft :=
  match setting with
  | .output =>
    if draft.output.isSome then .error (.repeatedOption name)
    else if value.isEmpty then .error (.invalidValue name value)
    else .ok { draft with output := some value }
  | .labelLead =>
    if draft.labelLead.isSome then .error (.repeatedOption name)
    else .ok { draft with labelLead := some value }
  | .stepLimit =>
    if draft.stepLimit.isSome then .error (.repeatedOption name)
    else
      match readCount? value with
      | some limit => .ok { draft with stepLimit := some limit }
      | none => .error (.invalidValue name value)

def setInput (draft : Draft) (text : String) : Except UsageError Draft :=
  if draft.input.isSome then .error (.unexpectedArgument text)
  else if text.isEmpty then .error (.invalidValue "input" text)
  else .ok { draft with input := some text }

def request (draft : Draft) : Except UsageError Request :=
  match draft.input with
  | none => .error .missingInput
  | some input =>
    let given (flag : Flag) : Bool := draft.flags.contains flag
    .ok (.process {
      input := input
      output := draft.output
      run := given .run
      options := ⟨!given .noPrelude, draft.labelLead.getD "", !given .noComments⟩
      stepLimit := draft.stepLimit.getD ({} : Machine.Config).stepLimit
      verbose := given .verbose })

end Draft

/-- How an argument reads. A lone `-` is a file name. -/
inductive Shape where
  | endOfOptions
  | long (name : String) (value : Option String)
  | short (cluster : List Char)
  | positional

def shape (argument : String) : Shape :=
  match argument.toList with
  | ['-', '-'] => .endOfOptions
  | '-' :: '-' :: rest =>
    let name := rest.takeWhile fun c => c != '='
    match rest.dropWhile fun c => c != '=' with
    | _ :: value => .long (String.ofList name) (some (String.ofList value))
    | [] => .long (String.ofList name) none
  | '-' :: c :: rest => .short (c :: rest)
  | _ => .positional

/-- What comes of one argument: a setting may still need its value from the next one. -/
inductive Progress where
  | draft (draft : Draft)
  | awaiting (name : String) (setting : Setting) (draft : Draft)
  | answer (request : Request)

def readLong (draft : Draft) (name : String) (value : Option String) : Except UsageError Progress :=
  match longOption? name, value with
  | none, _ => .error (.unknownOption name)
  | some (.setting setting), some value => (draft.set name setting value).map .draft
  | some (.setting setting), none => .ok (.awaiting name setting draft)
  | some _, some _ => .error (.unexpectedValue name)
  | some (.flag flag), none => (draft.setFlag name flag).map .draft
  | some .version, none => .ok (.answer .version)
  | some .help, none => .ok (.answer .help)

/-- Several short options may share one dash; a value may follow its option directly. -/
def readShort (draft : Draft) : List Char → Except UsageError Progress
  | [] => .ok (.draft draft)
  | c :: rest =>
    let name := c.toString
    match shortOption? c with
    | none => .error (.unknownOption name)
    | some .version => .ok (.answer .version)
    | some .help => .ok (.answer .help)
    | some (.flag flag) =>
      match draft.setFlag name flag with
      | .ok draft => readShort draft rest
      | .error error => .error error
    | some (.setting setting) =>
      match rest with
      | [] => .ok (.awaiting name setting draft)
      | '=' :: value => (draft.set name setting (String.ofList value)).map .draft
      | value => (draft.set name setting (String.ofList value)).map .draft

/-- Read arguments from left to right; the first mistake or question decides. `awaited` is the
setting whose value comes next, and after `--` every argument is positional. -/
def readAll (draft : Draft) (awaited : Option (String × Setting)) (optionsEnded : Bool) :
    List String → Except UsageError Request
  | [] =>
    match awaited with
    | some (name, _) => .error (.missingValue name)
    | none => draft.request
  | argument :: rest =>
    match awaited, shape argument with
    | some (name, setting), .positional =>
      match draft.set name setting argument with
      | .ok draft => readAll draft none optionsEnded rest
      | .error error => .error error
    | some (name, _), _ => .error (.missingValue name)
    | none, form =>
      let positional : Except UsageError Request :=
        match draft.setInput argument with
        | .ok draft => readAll draft none optionsEnded rest
        | .error error => .error error
      let proceed (progress : Except UsageError Progress) : Except UsageError Request :=
        match progress with
        | .error error => .error error
        | .ok (.draft draft) => readAll draft none optionsEnded rest
        | .ok (.awaiting name setting draft) => readAll draft (some (name, setting)) optionsEnded rest
        | .ok (.answer request) => .ok request
      if optionsEnded then positional
      else
        match form with
        | .endOfOptions => readAll draft none true rest
        | .long name value => proceed (readLong draft name value)
        | .short cluster => proceed (readShort draft cluster)
        | .positional => positional

/-- What the arguments ask for. -/
def Request.ofArguments (arguments : List String) : Except UsageError Request :=
  readAll {} none false arguments

end Stackwright.CommandLine
