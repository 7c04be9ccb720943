import Stackwright.Lowering.Function

/-! Whole programs: the environment, the global block, the main code, which ends the run, and
then the functions. -/

set_option autoImplicit false

namespace Stackwright

structure CompileOptions where
  /-- Begin with the environment; without it the code needs one from elsewhere. -/
  emitEnvironment : Bool := true
  /-- Put in front of every generated label. -/
  labelLead : String := ""
  /-- Keep the annotations. -/
  comments : Bool := true
  deriving DecidableEq, Repr

namespace Lowering

/-- The block of global variables. -/
def globals (analysis : Analysis) (program : Program) : Code :=
  [.withLabel .dataLabel Reserved.globalBlock,
    .withInt .dataZero (Int32.ofNat (analysis.sizeOf program.node.id))]

/-- All code of a program, with annotations. -/
def program (analysis : Analysis) (withEnvironment : Bool) (program : Program) : Emit Code := do
  let main ← block analysis none program.main
  let functions ← functions analysis program.functions
  return (if withEnvironment then Environment.data else []) ++
    globals analysis program ++
    [.withLabel .label Reserved.mainLabel] ++
    (if withEnvironment then Environment.stackStart else []) ++
    program.functions.flatMap (storeAddress analysis) ++
    main ++
    [.plain .halt] ++
    functions

end Lowering

/-- The code of an analyzed program. -/
def Program.generate (program : Program) (analysis : Analysis) (options : CompileOptions) : Code :=
  let code :=
    (Lowering.program analysis options.emitEnvironment program (.starting options.labelLead)).1
  if options.comments then code else code.stripComments

end Stackwright
