/-!
# Model errors

What can be wrong with a setup as a whole: a key given twice, a key that is not there, or a value
that no setup can have.
-/

set_option autoImplicit false

namespace TesterSetup

/-- Why a model cannot be built. -/
inductive ModelError where
  /-- A key was added twice to one container. -/
  | duplicate (kind key : String)
  /-- A key is referred to and does not exist. -/
  | notFound (kind key : String)
  /-- A value has no meaning in a setup. -/
  | inconsistent (detail : String)
  deriving DecidableEq, Repr

/-- The text of a model error. -/
def ModelError.message : ModelError → String
  | .duplicate kind key => s!"duplicate {kind} '{key}'"
  | .notFound kind key => s!"{kind} '{key}' not found"
  | .inconsistent detail => s!"inconsistent model: {detail}"

end TesterSetup
