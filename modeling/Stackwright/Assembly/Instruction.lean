import Stackwright.Assembly.Opcode
import Stackwright.Text.Blank
import Stackwright.Text.Line

/-! Instructions and their text, one line each. -/

set_option autoImplicit false

namespace Stackwright

inductive Operand where
  | int (value : Int32)
  | label (name : String)
  | string (text : String)
  deriving DecidableEq, Repr

namespace Operand

/-- A character inside quotes. -/
def escaped (c : Char) : List Char :=
  match c with
  | '\n' => ['\\', 'n']
  | '"' => ['\\', '"']
  | '\\' => ['\\', '\\']
  | other => [other]

def quoted (text : String) : String :=
  String.ofList ('"' :: text.toList.flatMap escaped ++ ['"'])

def text : Operand → String
  | .int value => toString value.toInt
  | .label name => name
  | .string text => quoted text

end Operand

structure Instruction where
  opcode : Opcode
  operand : Option Operand
  comment : Option String
  deriving DecidableEq, Repr

namespace Instruction

def plain (opcode : Opcode) : Instruction := ⟨opcode, none, none⟩

def withInt (opcode : Opcode) (value : Int32) : Instruction := ⟨opcode, some (.int value), none⟩

def withLabel (opcode : Opcode) (name : String) : Instruction := ⟨opcode, some (.label name), none⟩

def withString (opcode : Opcode) (text : String) : Instruction := ⟨opcode, some (.string text), none⟩

/-- Annotate an instruction; an empty annotation changes nothing. -/
def annotate (instruction : Instruction) (comment : String) : Instruction :=
  if comment = "" then instruction else { instruction with comment := some comment }

def stripComment (instruction : Instruction) : Instruction := { instruction with comment := none }

def label? (instruction : Instruction) : Option String :=
  match instruction.operand with
  | some (.label name) => some name
  | _ => none

def int? (instruction : Instruction) : Option Int32 :=
  match instruction.operand with
  | some (.int value) => some value
  | _ => none

def string? (instruction : Instruction) : Option String :=
  match instruction.operand with
  | some (.string text) => some text
  | _ => none

/-- The columns before the mnemonic, and the width of the mnemonic's column. -/
def indent : Nat := 8
def mnemonicWidth : Nat := 12

/-- The mnemonic, the operand and the annotation in columns, without blanks at the end. -/
def text (instruction : Instruction) : String :=
  let mnemonic := Text.repeated indent ' ' ++ Text.padRight mnemonicWidth instruction.opcode.mnemonic
  let operand := (instruction.operand.map Operand.text).getD ""
  let comment := (instruction.comment.map fun comment => " " ++ comment).getD ""
  String.ofList (Text.trimEnd (mnemonic ++ operand ++ comment).toList)

end Instruction

/-- Instructions in the order they stand in a program. -/
abbrev Code := List Instruction

namespace Code

def text (code : Code) : String :=
  String.join (code.map fun instruction => instruction.text ++ "\n")

/-- The names of all labels that the code defines, in order. -/
def definedLabels (code : Code) : List String :=
  (code.filter fun instruction =>
    instruction.opcode == .label || instruction.opcode == .dataLabel).filterMap Instruction.label?

def count (code : Code) (opcode : Opcode) : Nat :=
  code.countP fun instruction => instruction.opcode == opcode

def stripComments (code : Code) : Code := code.map Instruction.stripComment

end Code

end Stackwright
