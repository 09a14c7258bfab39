import Phrasebook.Proofs.Script.Expression
import Phrasebook.Schema.Signature

/-! # The parameters that a script uses

A script uses a parameter as a value where it stands alone, and as a formatter where it is applied
(`Program.parameters`). -/

namespace Phrasebook.Script

mutual

/-- **The parameters that an expression uses**, from left to right. -/
def Expression.parameters : Expression → List Parameter
  | .string _ => []
  | .template parts _ => parametersOfParts parts
  | .array items => parametersOfItems items
  | .parameter name => [⟨name, false⟩]
  | .application name argument => ⟨name, true⟩ :: argument.parameters

/-- The parameters in the interpolations of a template literal. -/
def Expression.parametersOfParts : List (Text × Expression) → List Parameter
  | [] => []
  | (_, e) :: rest => e.parameters ++ parametersOfParts rest

/-- The parameters in the items of an array literal. -/
def Expression.parametersOfItems : List Expression → List Parameter
  | [] => []
  | e :: rest => e.parameters ++ parametersOfItems rest

end

/-- **The parameters that the script of a key uses.** -/
def Program.parameters : Program → List Parameter
  | .constant e => e.parameters
  | .function body => body.parameters

end Phrasebook.Script
