import Stackwright.Compile
import Stackwright.Text.Fingerprint

/-! One source text on its way through reading, compiling and running. A session keeps the
code of its last successful build until the source changes. -/

set_option autoImplicit false

namespace Stackwright

structure Session where
  /-- The name of the source in diagnostics. -/
  name : String
  source : Option String
  options : CompileOptions
  config : Machine.Config
  code : Option Code
  /-- What the last build found wrong. -/
  diagnostics : List Diagnostic
  /-- Whether the source changed since it was last compiled. -/
  isPending : Bool

inductive Session.Error where
  | sourceAlreadySet
  | noSource
  | notBuilt
  | failed (failure : Failure)

def Session.Error.message : Session.Error → String
  | .sourceAlreadySet => "unit already has a source; use update_source() or clear()"
  | .noSource => "unit has no source"
  | .notBuilt => "unit has not been built"
  | .failed failure => failure.message

namespace Session

def starting (options : CompileOptions) : Session := ⟨"", none, options, {}, none, [], false⟩

/-- Whether the code is that of the present source, for callers; `run` looks at the code itself. -/
def isBuilt (session : Session) : Bool := session.code.isSome && !session.isPending

def setConfig (session : Session) (config : Machine.Config) : Session :=
  { session with config := config }

/-- Give the session its source; it must not have one. -/
def setSource (session : Session) (name source : String) : Except Error Unit × Session :=
  match session.source with
  | some _ => (.error .sourceAlreadySet, session)
  | none => (.ok (), { session with name := name, source := some source, isPending := true })

/-- The fingerprint by which a changed source is told. -/
def fingerprint (source : String) : UInt64 :=
  Text.Fingerprint.ofBytes (Text.Utf8.encode source.toList)

/-- Replace the source if its fingerprint differs, and tell whether it did. -/
def updateSource (session : Session) (source : String) : Except Error Bool × Session :=
  match session.source with
  | none => (.error .noSource, session)
  | some current =>
    if fingerprint source = fingerprint current then (.ok false, session)
    else (.ok true, { session with source := some source, code := none, isPending := true })

/-- Compile the source. A failing build leaves no code. -/
def build (session : Session) : Except Error Code × Session :=
  match session.source with
  | none => (.error .noSource, session)
  | some source =>
    let cleared := { session with code := none, diagnostics := [] }
    match Program.parse source with
    | .error faults => (.error (.failed (.malformed faults)), cleared)
    | .ok program =>
      let compiled := { cleared with isPending := false }
      match program.compile session.options with
      | .ok code => (.ok code, { compiled with code := some code })
      | .error diagnostics =>
        (.error (.failed (.illTyped diagnostics)), { compiled with diagnostics := diagnostics })

/-- Build if there is no current code. -/
def ensureBuilt (session : Session) : Except Error Unit × Session :=
  if session.isPending || session.code.isNone then
    match session.build with
    | (.ok _, session) => (.ok (), session)
    | (.error error, session) => (.error error, session)
  else (.ok (), session)

/-- Run the code on a new machine and give its output, building first if need be. -/
def run (session : Session) : Except Error String × Session :=
  match session.ensureBuilt with
  | (.error error, session) => (.error error, session)
  | (.ok (), session) =>
    match session.code with
    | none => (.error .notBuilt, session)
    | some code =>
      match (Machine.starting session.config).run code with
      | (none, machine) => (.ok machine.output, session)
      | (some fault, _) => (.error (.failed (.runtime fault)), session)

/-- Forget the source and all that came of it. -/
def clear (session : Session) : Session :=
  { session with name := "", source := none, code := none, diagnostics := [], isPending := false }

end Session

end Stackwright
