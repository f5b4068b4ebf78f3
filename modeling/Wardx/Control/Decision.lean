import Mathlib.Data.Rat.Defs

/-!
# Decision documents

The record an analysis returns and the ledger stores when it is terminal. A
field that some decisions lack is an option. Numbers are exact rationals: the
code's doubles are read as the values they denote, and no statement below
depends on rounding. Degrees of freedom alone can be infinite.
-/
namespace Wardx.Control

/-- The statuses `decideExperiment` and `experimentStats` report. -/
inductive DecisionStatus
  | invalid
  | shipped
  | cannotDecide
  | collecting
  | winner
  | noDifference
  | inconclusive
deriving DecidableEq, Repr

/-- `TERMINAL_STATUSES`. -/
def DecisionStatus.isTerminal : DecisionStatus → Bool
  | .winner | .noDifference | .inconclusive | .invalid => true
  | .shipped | .cannotDecide | .collecting => false

structure Horizon where
  timeReached : Bool
  sampleReached : Bool
deriving DecidableEq, Repr

/-- The sufficient statistics of one variant at the time of analysis. -/
structure TerminalVariant where
  exposures : ℕ
  goals : ℕ
  goalSum : ℚ
  goalSumSq : ℚ
deriving DecidableEq, Repr

structure TerminalInput where
  analysisAt : ℕ
  variants : List (String × TerminalVariant)
deriving DecidableEq, Repr

structure EvidenceHealth where
  healthy : Bool
  counts : List (String × ℕ)
  violations : List String
deriving DecidableEq, Repr

inductive DegreesOfFreedom
  | finite (value : ℚ)
  | infinite
deriving DecidableEq, Repr

structure Comparison where
  variant : String
  effect : ℚ
  lift : ℚ
  lower : ℚ
  upper : ℚ
  pValue : ℚ
  adjustedPValue : ℚ
  holmAlpha : ℚ
  significant : Bool
  degreesOfFreedom : Option DegreesOfFreedom
  favoredVariant : Option String
  material : Bool
  equivalent : Bool
  beatsControl : Bool
deriving DecidableEq, Repr

structure Decision where
  status : DecisionStatus
  next : String
  reason : String
  leadingVariant : Option String := none
  sampleProgress : Option ℚ := none
  horizon : Option Horizon := none
  method : Option String := none
  evidenceHealth : Option EvidenceHealth := none
  terminalInput : Option TerminalInput := none
  comparisons : List Comparison := []
  shippedVariant : Option String := none
deriving DecidableEq, Repr

end Wardx.Control
