import TesterSetup.Model.EqnSet
import TesterSetup.Model.Spec
import TesterSetup.Text.Blank

/-!
# Levels

A levels setup says which voltages and currents pins and supplies get. Supplies are set by the
DPS blocks of an equation set, pins by the pin blocks of its level sets. A block gives the same
settings to several pins.
-/

set_option autoImplicit false

namespace TesterSetup

/-- The settings of a device power supply. -/
def dpsResources : List String :=
  ["connect_state", "t_ms", "ilimit", "ilimit_sink", "ilimit_source", "iout_clamp_rng", "offcurr",
   "disable_const_curr_check", "ms_const_curr_disconnect", "current_filter_frequency",
   "voltage_filter_frequency", "max_voltage_drop_force", "max_voltage_drop_return", "modulation",
   "mod_ilimit", "mod_trig", "vbump", "vout_b", "vout_bl", "vout", "vout_frc_rng",
   "vout_rise_settling", "vout_fall_settling", "vout_rise_per_volt", "vout_fall_per_volt",
   "vout_rise_settling_c2c", "vout_fall_settling_c2c", "vout_rise_per_volt_c2c",
   "vout_fall_per_volt_c2c", "ms_fast_preload", "protect"]

/-- The settings of a pin. -/
def pinResources : List String :=
  ["vih", "vil", "voh", "vol", "vcl", "vch", "v3h", "vihh", "vt", "vth", "iol", "ioh", "term"]

/-- Whether a name is that of a supply's setting. -/
def isDpsSetting (name : String) : Bool :=
  dpsResources.contains name

/-- Whether a name is that of a pin's setting. -/
def isPinSetting (name : String) : Bool :=
  pinResources.contains name

/-- What a setting is set to. -/
inductive Setting where
  /-- An expression over the variables of the equation set. -/
  | expression (text : String)
  /-- A text that is taken as it stands. -/
  | literal (text : String)
  /-- A keyword that is given or not. -/
  | flag (on : Bool)
  deriving DecidableEq, Inhabited, Repr

/-- The value of a setting from its text: `offcurr` and `term` are literals, `protect` is a flag,
all others are expressions. -/
def Setting.classify (name value : String) : Setting :=
  if name = "offcurr" ∨ name = "term" then .literal (Text.trimmed value)
  else if name = "protect" then .flag true
  else .expression (Text.trimmed value)

/-- Settings for a group of pins or supplies. -/
structure SettingBlock where
  pins : List String
  settings : OrderedMap String Setting
  deriving Inhabited

namespace SettingBlock

/-- A block without settings. -/
def ofPins (pins : List String) : SettingBlock :=
  ⟨pins, .empty⟩

/-- Adds a setting, unless the block has one of that name. -/
def set (b : SettingBlock) (name : String) (value : Setting) : Except ModelError SettingBlock :=
  if b.settings.contains name then
    .error (.duplicate "setting" (name ++ " for pins " ++ " ".intercalate b.pins))
  else .ok { b with settings := b.settings.insert name value }

end SettingBlock

/-- A numbered template of pin levels. -/
structure LevelSet where
  num : Nat
  description : String
  pinblocks : List SettingBlock
  deriving Inhabited

/-- A level set without blocks. -/
def LevelSet.ofNum (num : Nat) (description : String) : LevelSet :=
  ⟨num, description, []⟩

instance : Keyed LevelSet Nat := ⟨LevelSet.num, "LEVELSET", toString⟩

/-- What a levels equation set holds beside specs and equations. -/
structure LevelSetups where
  levelsets : Container LevelSet
  dpsblocks : List SettingBlock
  deriving Inhabited

/-- An equation set of a levels setup. -/
abbrev LevelsEqnSet := EqnSet LevelSetups

/-- Equations come before the first DPS block and the first level set. -/
def EqnSet.acceptsEquations (e : LevelsEqnSet) : Bool :=
  e.setups.dpsblocks.isEmpty && e.setups.levelsets.isEmpty

/-- A levels setup. -/
structure Levels where
  eqnsets : Container LevelsEqnSet
  specsets : Container SpecSet
  deriving Inhabited

/-- The setup without parts. -/
def Levels.empty : Levels :=
  ⟨.empty, .empty⟩

/-- Adds the parts of another setup. The first part whose key is taken ends it; the parts before
it stay. -/
def Levels.merge (l other : Levels) : Levels × Option ModelError :=
  match l.eqnsets.absorb other.eqnsets.items with
  | (eqnsets, some e) => ({ l with eqnsets }, some e)
  | (eqnsets, none) =>
    match l.specsets.absorb other.specsets.items with
    | (specsets, e) => (⟨eqnsets, specsets⟩, e)

end TesterSetup
