import TesterSetup.Model.Levels
import TesterSetup.Resolve.Closure
import TesterSetup.Text.Search

/-!
# Resolving levels

A levels setup is chosen by an equation set, one of its spec sets and one of its level sets. Every
setting of a block is evaluated once over the closure and written to each pin of the block; a pin
that several blocks list collects their settings, of which the later ones count.
-/

set_option autoImplicit false

namespace TesterSetup

/-- The value of a setting. -/
inductive SettingValue where
  | number (x : Float)
  | literal (text : String)
  | flag (on : Bool)
  deriving Inhabited, Repr

/-- The settings of supplies and of pins. -/
structure PinSettings where
  dps : PinTable String SettingValue
  pins : PinTable String SettingValue
  deriving Inhabited

/-- A resolved levels setup. -/
structure LevelsResolution where
  closure : Variables
  pinSettings : PinSettings
  deriving Inhabited

/-- The value of an expression setting. A conditional that runs into a name without a value counts
as zero, since the branch that needs the name may belong to other setups. -/
def expressionValue (evaluate : Evaluator) (closure : Variables) (pins : List String)
    (name expression : String) : Traced Float :=
  let value := Traced.valueOf evaluate (.setting name expression pins) expression closure
  match value.result with
  | .error (.eval _ (.unresolved ..)) =>
    if Text.contains expression "?" then { value with result := .ok 0 } else value
  | _ => value

/-- The value of a setting. -/
def Setting.value (evaluate : Evaluator) (closure : Variables) (pins : List String)
    (name : String) : Setting → Traced SettingValue
  | .literal text => pure (.literal text)
  | .flag on => pure (.flag on)
  | .expression text => do
    return .number (← expressionValue evaluate closure pins name text)

/-- Writes settings to each pin of a list. -/
def settleSettings (evaluate : Evaluator) (closure : Variables) (pins : List String) :
    List (String × Setting) → PinTable String SettingValue → Traced (PinTable String SettingValue)
  | [], table => pure table
  | (name, setting) :: rest, table => do
    let value ← setting.value evaluate closure pins name
    settleSettings evaluate closure pins rest (table.writeAll pins name value)

/-- Writes the settings of blocks one after the other. -/
def settleBlocks (evaluate : Evaluator) (closure : Variables) :
    List SettingBlock → PinTable String SettingValue → Traced (PinTable String SettingValue)
  | [], table => pure table
  | block :: rest, table => do
    let table ← settleSettings evaluate closure block.pins block.settings.entries table
    settleBlocks evaluate closure rest table

/-- Resolves the setup of an equation set, a spec set and a level set. -/
def Levels.resolve (evaluate : Evaluator) (levels : Levels) (eqnset specset levelset : Nat) :
    Traced LevelsResolution := do
  let e ← Traced.ofModel (levels.eqnsets.require eqnset)
  let s ← Traced.ofModel (levels.specsets.require ⟨eqnset, specset⟩)
  let l ← Traced.ofModel (e.setups.levelsets.require levelset)
  let closure ← e.close evaluate (← Traced.lift (e.seed s))
  let dps ← settleBlocks evaluate closure e.setups.dpsblocks .empty
  let pins ← settleBlocks evaluate closure l.pinblocks .empty
  return ⟨closure, dps, pins⟩

end TesterSetup
