/-! Labels that no two constructs share: every family has a number of its own, and within a
family the labels differ in their endings. The numbers are natural numbers, so that they are
distinct also in programs with 2^32 families, which would use up a 32-bit counter. -/

set_option autoImplicit false

namespace Stackwright

structure Labeller where
  /-- Put in front of every label. -/
  lead : String
  /-- How many families were handed out. -/
  families : Nat
  deriving DecidableEq, Repr

structure LabelFamily where
  stem : String
  deriving DecidableEq, Repr

def LabelFamily.label (family : LabelFamily) (ending : String) : String := family.stem ++ ending

namespace Labeller

def starting (lead : String) : Labeller := ⟨lead, 0⟩

/-- The labels of one construct, and the labeller after it. -/
def family (labeller : Labeller) (name : String) : LabelFamily × Labeller :=
  (⟨labeller.lead ++ "-" ++ name ++ "-" ++ toString labeller.families ++ "-"⟩,
    { labeller with families := labeller.families + 1 })

end Labeller

end Stackwright
