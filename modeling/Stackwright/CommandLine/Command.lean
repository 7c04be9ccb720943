import Stackwright.CommandLine.Arguments
import Stackwright.Compile

/-! The command: compile one source file and write its code, or run it. The command reads and
writes files only through a `Files`, so it can be run on the disk or in memory. -/

set_option autoImplicit false

namespace Stackwright.CommandLine

/-- The name of the command in its messages. -/
def commandName : String := "bilbyc"

def versionText : String := commandName ++ " 0.1.0\n"

def helpText : String :=
  "Usage: " ++ commandName ++ " [OPTIONS] <INPUT>\n"

/-- How files are read and written; a failure is given by its message. -/
structure Files (m : Type → Type) where
  read : String → m (Except String String)
  write : String → String → m (Except String Unit)

/-- What a command leaves for its caller to see. -/
structure Response where
  exitCode : Nat
  stdout : String
  stderr : String
  deriving DecidableEq, Repr

def Response.success (stdout : String) : Response := ⟨0, stdout, ""⟩

def Response.failure (lines : List String) : Response :=
  ⟨1, "", String.join (lines.map fun line => line ++ "\n")⟩

def UsageError.message : UsageError → String
  | .unknownOption text => "unknown option '" ++ text ++ "'"
  | .repeatedOption text => "option '" ++ text ++ "' is given more than once"
  | .unexpectedValue option => "option '" ++ option ++ "' takes no value"
  | .missingValue option => "option '" ++ option ++ "' needs a value"
  | .invalidValue option value => "invalid value '" ++ value ++ "' for '" ++ option ++ "'"
  | .unexpectedArgument text => "unexpected argument '" ++ text ++ "'"
  | .missingInput => "an input file is required"

def Response.usage (error : UsageError) : Response :=
  ⟨2, "", "error: " ++ error.message ++ "\n\n" ++ helpText⟩

/-- A file that could not be read or written. -/
def Response.fileFailure (path message : String) : Response :=
  .failure [commandName ++ ": " ++ path ++ ": " ++ message]

/-- The lines that report a failure in a source file. -/
def failureLines (file : String) (failure : Failure) : List String :=
  match failure with
  | .lexical fault => [file ++ ":" ++ fault.span.text ++ ": " ++ fault.message]
  | .malformed faults =>
    faults.map fun fault =>
      file ++ ":" ++ fault.span.text ++ ": " ++ fault.kind.text ++ ": " ++ fault.message
  | .illTyped diagnostics =>
    (diagnostics.map fun diagnostic =>
      file ++ ":" ++ diagnostic.span.text ++ ": " ++ diagnostic.kind.text ++ ": " ++
        diagnostic.cause.text) ++
    [file ++ ": " ++ failure.message]
  | .runtime fault => [file ++ ": runtime error: " ++ fault.message]

/-- A file name without its extension; a dot in front begins no extension. -/
def stem (name : List Char) : List Char :=
  match name.reverse.dropWhile fun c => c != '.' with
  | _ :: before => if before.isEmpty then name else before.reverse
  | [] => name

/-- A file name up to the dot before its extension. -/
def withoutExtension (name : List Char) : List Char :=
  if stem name = name then name else stem name ++ ['.']

/-- Whether a name cannot be that of a file: it is empty, or stands for a folder. -/
def isFolderName (name : List Char) : Bool :=
  name == [] || name == ['.'] || name == ['.', '.']

/-- The path with another extension. The old one is taken away first, and what then names a
folder gets no new one: `..a` becomes `..`. -/
def withExtension (path extension : String) : String :=
  let chars := path.toList.reverse
  let name := (chars.takeWhile fun c => c != '/').reverse
  let folder := (chars.dropWhile fun c => c != '/').reverse
  let kept := withoutExtension name
  if isFolderName kept then String.ofList (folder ++ kept)
  else String.ofList (folder ++ stem kept) ++ "." ++ extension

namespace Invocation

/-- Where the code goes. -/
def outputPath (invocation : Invocation) : String :=
  invocation.output.getD (withExtension invocation.input "asm")

/-- The output of the program in a source text. -/
def runSource (invocation : Invocation) (source : String) : Except Failure String :=
  match compile source invocation.options with
  | .error failure => .error failure
  | .ok code =>
    match (Machine.starting { stepLimit := invocation.stepLimit }).run code with
    | (none, machine) => .ok machine.output
    | (some fault, _) => .error (.runtime fault)

variable {m : Type → Type} [Monad m]

def compileTo (invocation : Invocation) (files : Files m) (source : String) : m Response := do
  match compile source invocation.options with
  | .error failure => return .failure (failureLines invocation.input failure)
  | .ok code =>
    match ← files.write invocation.outputPath code.text with
    | .ok () => return .success ""
    | .error message => return .fileFailure invocation.outputPath message

def process (invocation : Invocation) (files : Files m) : m Response := do
  match ← files.read invocation.input with
  | .error message => return .fileFailure invocation.input message
  | .ok source =>
    if invocation.run then
      match invocation.runSource source with
      | .ok output => return .success output
      | .error failure => return .failure (failureLines invocation.input failure)
    else invocation.compileTo files source

end Invocation

/-- Carry out a command. -/
def command {m : Type → Type} [Monad m] (files : Files m) (arguments : List String) : m Response :=
  match Request.ofArguments arguments with
  | .error error => return .usage error
  | .ok .version => return .success versionText
  | .ok .help => return .success helpText
  | .ok (.process invocation) => invocation.process files

end Stackwright.CommandLine
