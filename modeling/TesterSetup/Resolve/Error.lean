import TesterSetup.Expr.Error
import TesterSetup.Model.Edge

/-!
# Resolution errors

Why a setup cannot be resolved. Either the model is inconsistent as it stands, or a single spec or
expression is at fault, in which case other setups of the model may still be resolved.
-/

set_option autoImplicit false

namespace TesterSetup

/-- What an expression is the value of. -/
inductive Purpose where
  | equation (name : String) (eqnset : Nat)
  | setting (name expression : String) (pins : List String)
  | period (timingset eqnset : Nat)
  | edge (edge : EdgeId) (expression : String) (pins : List String)
  deriving DecidableEq, Repr

/-- A purpose as messages show it. -/
def Purpose.text : Purpose → String
  | .equation name eqnset => s!"equation '{name}' of EQNSET {eqnset}"
  | .setting name expression pins =>
    name ++ " = " ++ expression ++ " for pins " ++ " ".intercalate pins
  | .period timingset eqnset => s!"period of TIMINGSET {timingset} of EQNSET {eqnset}"
  | .edge e expression pins =>
    e.text ++ " = " ++ expression ++ " for pins " ++ " ".intercalate pins

/-- Why a setup cannot be resolved. -/
inductive ResolveError where
  /-- A set does not exist. -/
  | model (cause : ModelError)
  | missingPeriod (timingset eqnset : Nat)
  | malformedFract (period : String)
  | timingSetCount (specification : String) (ports given : Nat)
  | undeclaredLocalSpec (spec port : String) (eqnset : Nat)
  /-- A declared spec has no value in the spec set. -/
  | missingSpec (spec : String) (eqnset specset : Nat)
  /-- A declared spec has neither a value for the port nor one for all ports. -/
  | unresolvedGlobalSpec (spec port specification : String)
  /-- An expression has no value. -/
  | eval (purpose : Purpose) (cause : EvalError)
  deriving Repr

namespace ResolveError

/-- What is inconsistent about the model, for the errors that say so. -/
def inconsistency? : ResolveError → Option ModelError
  | .model cause => some cause
  | .missingPeriod timingset eqnset =>
    some (.inconsistent s!"TIMINGSET {timingset} of EQNSET {eqnset} has no period")
  | .malformedFract period => some (.inconsistent s!"malformed fract period '{period}'")
  | .timingSetCount specification ports given =>
    some (.inconsistent
      s!"SPECIFICATION {specification} has {ports} ports but {given} timing sets were given")
  | .undeclaredLocalSpec spec port eqnset =>
    some (.inconsistent s!"spec '{spec}' of port '{port}' is not declared by EQNSET {eqnset}")
  | _ => none

/-- Whether other setups of the model may still be resolved. -/
def isRecoverable (e : ResolveError) : Bool :=
  e.inconsistency?.isNone

/-- The text of a resolution error, without that of the evaluation behind it. -/
def message (e : ResolveError) : String :=
  match e with
  | .missingSpec spec eqnset specset =>
    s!"spec '{spec}' declared by EQNSET {eqnset} is missing from SPECSET {specset}"
  | .unresolvedGlobalSpec spec port specification =>
    s!"spec '{spec}' of port '{port}' has no local or global value in " ++
      s!"SPECIFICATION {specification}"
  | .eval purpose _ => s!"cannot evaluate {purpose.text}"
  | e =>
    match e.inconsistency? with
    | some cause => s!"parse inconsistency: {cause.message}"
    | none => ""

end ResolveError

end TesterSetup
