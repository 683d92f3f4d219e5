import TesterSetup.Resolve.Levels
import TesterSetup.Resolve.Timing

/-!
# Remembered resolutions

A `ResolutionCache` keeps the setups that were resolved, under a text made of their three numbers,
and counts how often it had the answer. Failures are not kept.
-/

set_option autoImplicit false

namespace TesterSetup

/-- The numbers that choose a setup: equation set, spec set, level or timing set. -/
structure SetupKey where
  eqnset : Nat
  specset : Nat
  set : Nat
  deriving DecidableEq, Inhabited, Repr

/-- The text that a setup is kept under: equation set, level or timing set, spec set. -/
def SetupKey.text (key : SetupKey) : String :=
  toString key.eqnset ++ "__" ++ toString key.set ++ "__" ++ toString key.specset

/-- Resolved setups by the texts of their keys. -/
structure ResolutionCache where
  levels : OrderedMap String LevelsResolution
  timing : OrderedMap String TimingResolution
  hits : Nat
  misses : Nat
  deriving Inhabited

namespace ResolutionCache

/-- The cache that keeps nothing yet. -/
def empty : ResolutionCache :=
  ⟨.empty, .empty, 0, 0⟩

/-- The number of setups that are kept. -/
def entries (c : ResolutionCache) : Nat :=
  c.levels.size + c.timing.size

/-- The answer that is kept under a key, or else that of a resolution, which is kept if it
succeeds. -/
def serve {α : Type} (c : ResolutionCache) (kept : OrderedMap String α)
    (keep : ResolutionCache → OrderedMap String α → ResolutionCache) (key : SetupKey)
    (resolve : Unit → Traced α) : ResolutionCache × Traced α :=
  match kept.get? key.text with
  | some answer => ({ c with hits := c.hits + 1 }, pure answer)
  | none =>
    let missed := { c with misses := c.misses + 1 }
    let resolution := resolve ()
    match resolution.result with
    | .ok answer => (keep missed (kept.insert key.text answer), resolution)
    | .error _ => (missed, resolution)

/-- Resolves a levels setup, or takes the answer that is kept. -/
def resolveLevels (c : ResolutionCache) (evaluate : Evaluator) (levels : Levels)
    (key : SetupKey) : ResolutionCache × Traced LevelsResolution :=
  c.serve c.levels (fun c kept => { c with levels := kept }) key
    fun _ => levels.resolve evaluate key.eqnset key.specset key.set

/-- Resolves a timing setup, or takes the answer that is kept. -/
def resolveTiming (c : ResolutionCache) (evaluate : Evaluator) (timing : Timing)
    (key : SetupKey) : ResolutionCache × Traced TimingResolution :=
  c.serve c.timing (fun c kept => { c with timing := kept }) key
    fun _ => timing.resolve evaluate key.eqnset key.specset key.set

end ResolutionCache

end TesterSetup
