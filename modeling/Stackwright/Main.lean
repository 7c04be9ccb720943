import Stackwright.CommandLine.Directory

/-! The command on the disk. -/

set_option autoImplicit false

namespace Stackwright.CommandLine

/-- The words of the operating system and its number for the error. -/
def osMessage (details : String) (code : UInt32) : String :=
  details ++ " (os error " ++ toString code ++ ")"

def diskMessage : IO.Error → String
  | .noFileOrDirectory _ code details => osMessage details code
  | .inappropriateType _ code details => osMessage details code
  | .invalidArgument _ code details => osMessage details code
  | .permissionDenied _ code details => osMessage details code
  | error => toString error

def diskRead (path : String) : IO (Except String String) := do
  try
    let handle ← IO.FS.Handle.mk path .read
    match Text.Utf8.decode? (← handle.readBinToEnd).toList with
    | some text => return .ok text
    | none => return .error FileError.notText.message
  catch error => return .error (diskMessage error)

def diskWrite (path text : String) : IO (Except String Unit) := do
  try
    IO.FS.writeFile path text
    return .ok ()
  catch error => return .error (diskMessage error)

def disk : Files IO := ⟨diskRead, diskWrite⟩

end Stackwright.CommandLine

open Stackwright.CommandLine in
def main (arguments : List String) : IO UInt32 := do
  let response ← command disk arguments
  IO.print response.stdout
  IO.eprint response.stderr
  return UInt32.ofNat response.exitCode
