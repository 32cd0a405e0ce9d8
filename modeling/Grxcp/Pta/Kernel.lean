import Mathlib.Tactic

/-!
# The vendored tile model, as the twin calls it

`pta_tile_model.h` (grx930's) holds the tile's arithmetic. The twin calls it through seven
functions and looks at nothing behind them, so it is a parameter here: `TileKernel` has one field
per function the twin calls. No property of the arithmetic is assumed.
-/

namespace Grxcp

/-- A 32-bit register or index of the source (`uint32_t`). -/
abbrev U32 := BitVec 32

/-- A 64-bit counter or address of the source (`uint64_t`). -/
abbrev U64 := BitVec 64

namespace PtaTwin

/-- `pta_cfg`: what a start samples from the registers. -/
structure Cfg where
  impair : U32 := 0
  actBits : U32 := 0
  wBits : U32 := 0
  adcBits : U32 := 0
  adcShift : U32 := 0
  seed : U32 := 0
  sigmaTh : U32 := 0
  kShot : U32 := 0
  sigmaPr : U32 := 0
  driftSigma : U32 := 0
  driftLog2 : U32 := 0
  driftMax : U32 := 0
  xtalk : U32 := 0
  trimStep : U32 := 0
  trimMax : U32 := 0
deriving DecidableEq, Repr

/-- `pta_tile`: the core's `NUM_ROWS`, `NUM_COLS`, `DIN_W` and `ACC_W`. -/
structure Tile where
  rows : ℕ
  cols : ℕ
  dinW : ℕ
  accW : ℕ
deriving DecidableEq, Repr

/-- `pta_cal_cfg`: the shape of one calibration. -/
structure CalCfg where
  ampLog2 : U32
  repsLog2 : U32
  passes : U32
deriving DecidableEq, Repr

/-- What `pta_cal_bank` reports when it runs: its return value and the three out-parameters. -/
structure CalReport where
  left : ℕ
  sats : ℤ
  clamped : Bool
  found : ℕ
deriving DecidableEq, Repr

/-- `PTA_QUANT`. -/
def ptaQuant : U32 := 0x01

/-- The functions of `pta_tile_model.h` the twin calls, over the model's device state `Dev`.
A negative return of `pta_gemm` or `pta_cal_bank` is `none`. -/
structure TileKernel (Dev : Type) where
  /-- `pta_gemm`: the device after it, and the ADC saturations with the `M × N` sums. -/
  gemm : Cfg → Tile → Dev → (bank M N K : ℤ) → (A B : List ℤ) → Dev × Option (ℤ × List ℤ)
  /-- `pta_start` at a seed, then `pta_cal_bank` on those streams. -/
  calBank : Cfg → Tile → Dev → (bank : ℕ) → (seed : U32) → CalCfg → Dev × Option CalReport
  /-- `pta_model_reset`. -/
  modelReset : Dev → (seed : U32) → Dev
  /-- `pta_cal_reset`. -/
  calReset : Dev → Dev
  /-- `pta_column_cal`. -/
  columnCal : Dev → (col : ℕ) → (gain offs : ℤ) → Dev
  /-- `pta_drift_age`. -/
  driftAge : Cfg → Dev → (steps : U64) → Dev

end PtaTwin

end Grxcp
