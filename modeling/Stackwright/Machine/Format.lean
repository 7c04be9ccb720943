import Stackwright.Machine.Fault
import Stackwright.Machine.Memory

/-! Print formats: `%d` stands for an integer, `%s` for the text at an address, and `%%` for a
percent sign. -/

set_option autoImplicit false

namespace Stackwright.Machine.Format

/-- How many times `%%` occurs, none of them overlapping. -/
def escapes : List Char → Nat
  | '%' :: '%' :: rest => escapes rest + 1
  | _ :: rest => escapes rest
  | [] => 0

/-- How many values a format takes from the operand stack. -/
def conversions (format : List Char) : Nat := format.count '%' - 2 * escapes format

/-- Write a format to the output, with the values for its conversions. What was written
before a fault stays written. -/
def write (memory : Memory) (pc : Nat) (format : String) :
    List Char → List Int32 → String → String × Option Fault
  | [], _, output => (output, none)
  | '%' :: rest, values, output =>
    match rest with
    | '%' :: rest => write memory pc format rest values (output.push '%')
    | 'd' :: rest =>
      write memory pc format rest values.tail (output ++ toString (values.headD 0).toInt)
    | 's' :: rest =>
      match memory.readText (values.headD 0) with
      | .ok text => write memory pc format rest values.tail (output ++ text)
      | .error failed => (output, some (.badAddress failed pc))
    | _ => (output, some (.badFormat format))
  | c :: rest, values, output => write memory pc format rest values (output.push c)

end Stackwright.Machine.Format
