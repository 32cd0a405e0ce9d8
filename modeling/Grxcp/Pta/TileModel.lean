import Grxcp.Pta.Kernel

/-!
# The vendored tile model

`pta_tile_model.c`: the error model of a photonic tile, that the twin calls (`TileKernel`) and the
NPU's shim is built with. A GEMM is walked tile by tile. A tile's weights are written, and then each row
of activations is a shot, whose columns are captured one by one (`element`) and added to the running
sums. Every random term is a step of an xorshift generator, drawn in the order of the walk.

A device's cells are functions of the bank and the row-major index, of which the first `rows * cols`
are memory. Signed arithmetic is in `ℤ` except where the source goes through unsigned words. The
allocations succeed.
-/

namespace Grxcp.PtaTile

open PtaTwin (Cfg Tile CalCfg CalReport TileKernel)

/-! ## Words -/

/-- `PTA_QUANT`. -/
def quantBit : U32 := 0x01
/-- `PTA_THERMAL`. -/
def thermalBit : U32 := 0x02
/-- `PTA_SHOT`. -/
def shotBit : U32 := 0x04
/-- `PTA_DRIFT`. -/
def driftBit : U32 := 0x08
/-- `PTA_XTALK`. -/
def xtalkBit : U32 := 0x10
/-- `PTA_PROG_ERR`. -/
def progErrBit : U32 := 0x40

def kThermal : U32 := 0x9E3779B9
def kShot : U32 := 0x3C6EF372
def kProg : U32 := 0xDAA66D2B
def kDrift : U32 := 0x78DDE6E4

/-- `asr64`. The complement of `x` is `-1 - x`. -/
def asr64 (x : ℤ) (s : ℕ) : ℤ :=
  if 0 ≤ x then x / 2 ^ s else -1 - (-1 - x) / 2 ^ s

/-- `sext`: the low `w` bits of `u`, sign-extended. -/
def sext (u : U64) (w : ℕ) : ℤ :=
  let mask : U64 := if 64 ≤ w then BitVec.allOnes 64 else ((1 : U64) <<< w) - 1
  let u := u &&& mask
  (if w < 64 ∧ (u >>> (w - 1)) &&& 1 ≠ 0 then u ||| ~~~mask else u).toInt

/-- A conversion to `int32_t`. -/
def toInt32 (x : ℤ) : ℤ :=
  x.bmod (2 ^ 32)

/-- A value brought between two bounds, the upper one first. -/
def clamp (lo hi x : ℤ) : ℤ :=
  let x := if x > hi then hi else x
  if x < lo then lo else x

/-! ## The generators -/

/-- `pta_xorshift32`. -/
def xorshift32 (s : U32) : U32 :=
  let s := s ^^^ (s <<< 13)
  let s := s ^^^ (s >>> 17)
  s ^^^ (s <<< 5)

/-- A byte of a word. -/
def byte (s : U32) (i : ℕ) : ℤ :=
  ((s >>> (8 * i)) &&& 0xFF).toNat

/-- `pta_gauss`. -/
def gauss (s : U32) : ℤ :=
  (byte s 3 + byte s 2 + byte s 1 + byte s 0 - 510) * 443

/-- `stream_seed`. -/
def streamSeed (seed k : U32) : U32 :=
  if seed ^^^ k = 0 then k else seed ^^^ k

/-- `gauss_step`. -/
def gaussStep (s sigma : U32) : U32 × ℤ :=
  let s := xorshift32 s
  (s, asr64 (sigma.toNat * gauss s + 32768) 16)

/-! ## Roots and quantisers -/

/-- `T4`, in `pta_isqrt4`. -/
def isqrtTable : List ℕ :=
  [2048, 2896, 3547, 4096]

/-- `pta_isqrt4`. -/
def isqrt4 (a : ℕ) : ℕ :=
  if a = 0 then 0
  else
    let e := Nat.log2 a / 2
    let t := a * 2 ^ (22 - 2 * e) % 2 ^ 24
    let seg := t / 2 ^ 22 - 1
    let lo := isqrtTable.getD seg 0
    let hi := isqrtTable.getD (seg + 1) 0
    let rn := lo + (hi - lo) * (t / 2 ^ 16 % 64) / 64
    rn / 2 ^ (11 - e)

/-- `pta_quant`. -/
def quant (x : ℤ) (bits : U32) (dinW : ℕ) : ℤ :=
  if bits = 0 ∨ dinW ≤ bits.toNat then x
  else
    let h := dinW - bits.toNat
    let v := asr64 (x + 2 ^ (h - 1)) h
    let lim : ℤ := 2 ^ (bits.toNat - 1)
    toInt32 (clamp (-lim) (lim - 1) v * 2 ^ h)

/-! ## The device -/

/-- `pta_streams`. -/
structure Streams where
  thermal : U32
  shot : U32
  prog : U32
deriving DecidableEq, Repr

/-- `pta_device`. -/
structure Device where
  rows : ℕ
  cols : ℕ
  drift : ℕ → ℕ → ℤ := fun _ _ => 0
  trim : ℕ → ℕ → ℤ := fun _ _ => 0
  gain : ℕ → ℤ := fun _ => 256
  offs : ℕ → ℤ := fun _ => 0
  rng : U32 := kDrift
  count : U32 := 0

/-- A cell of a bank is given a value. -/
def setCell (f : ℕ → ℕ → ℤ) (bank i : ℕ) (v : ℤ) : ℕ → ℕ → ℤ :=
  Function.update f bank (Function.update (f bank) i v)

/-- `pta_device_init`. -/
def deviceInit (tile : Tile) : Device :=
  { rows := tile.rows, cols := tile.cols }

/-- `pta_cal_reset`. -/
def calReset (dev : Device) : Device :=
  { dev with
    trim := fun b i => if b < 2 ∧ i < dev.rows * dev.cols then 0 else dev.trim b i
    gain := fun i => if i < dev.cols then 256 else dev.gain i
    offs := fun i => if i < dev.cols then 0 else dev.offs i }

/-- `trim_round`. -/
def trimRound (step : U32) (v : ℤ) : ℤ :=
  let st : ℤ := step.toNat
  if st ≤ 1 then v
  else
    let mag := if v < 0 then -v else v
    let mag := (mag + st / 2) / st * st
    if v < 0 then -mag else mag

/-- `pta_trim_write`, to the cell of a row-major index. -/
def trimWrite (dev : Device) (cfg : Cfg) (bank i : ℕ) (q88 : ℤ) : Device :=
  let lim : ℤ := cfg.trimMax.toNat
  { dev with trim := setCell dev.trim bank i (toInt32 (clamp (-lim) lim (trimRound cfg.trimStep q88))) }

/-- `pta_column_cal`. -/
def columnCal (dev : Device) (col : ℕ) (gain offs : ℤ) : Device :=
  { dev with gain := Function.update dev.gain col gain, offs := Function.update dev.offs col offs }

/-- `pta_affine`. -/
def affine (dev : Device) (tile : Tile) (col : ℕ) (out : ℤ) : ℤ :=
  let g := dev.gain col
  let v := if g ≠ 256 then asr64 (out * g + 128) 8 else out
  sext (BitVec.ofInt 64 (v + dev.offs col)) tile.accW

/-- `pta_model_reset`. -/
def modelReset (dev : Device) (seed : U32) : Device :=
  { dev with
    drift := fun b i => if b < 2 ∧ i < dev.rows * dev.cols then 0 else dev.drift b i
    rng := streamSeed seed kDrift
    count := 0 }

/-- One cell's turn in `drift_step`. -/
def driftCell (cfg : Cfg) (bank : ℕ) (dev : Device) (i : ℕ) : Device :=
  let (rng, g) := gaussStep dev.rng cfg.driftSigma
  let lim : ℤ := cfg.driftMax.toNat
  { dev with rng, drift := setCell dev.drift bank i (toInt32 (clamp (-lim) lim (dev.drift bank i + g))) }

/-- One bank's turn in `drift_step`. -/
def driftBank (cfg : Cfg) (dev : Device) (bank : ℕ) : Device :=
  (List.range (dev.rows * dev.cols)).foldl (driftCell cfg bank) dev

/-- `drift_step`. -/
def driftStep (cfg : Cfg) (dev : Device) : Device :=
  (List.range 2).foldl (driftBank cfg) dev

/-- `pta_shot_start`. -/
def shotStart (dev : Device) (cfg : Cfg) : Device :=
  if dev.count.toNat + 1 < 2 ^ cfg.driftLog2.toNat then { dev with count := dev.count + 1 }
  else driftStep cfg { dev with count := 0 }

/-- `pta_drift_age`. -/
def driftAge (dev : Device) (cfg : Cfg) (steps : U64) : Device :=
  (driftStep cfg)^[steps.toNat] dev

/-- `pta_start`. -/
def start (seed : U32) : Streams where
  thermal := streamSeed seed kThermal
  shot := streamSeed seed kShot
  prog := streamSeed seed kProg

/-- `pta_weight_write`. -/
def weightWrite (st : Streams) (cfg : Cfg) : Streams × ℤ :=
  let (prog, g) := gaussStep st.prog cfg.sigmaPr
  ({ st with prog }, toInt32 g)

/-! ## A captured element -/

/-- `pta_analog_weight`. -/
def analogWeight (cfg : Cfg) (dinW : ℕ) (w e d : ℤ) : ℤ :=
  let wq := if cfg.impair &&& quantBit ≠ 0 then quant w cfg.wBits dinW else w
  wq * 256 + (if cfg.impair &&& progErrBit ≠ 0 then e else 0) +
    (if cfg.impair &&& driftBit ≠ 0 then d else 0)

/-- `pta_analog_weight_t`. -/
def analogWeightT (cfg : Cfg) (dinW : ℕ) (w e d trim : ℤ) : ℤ :=
  analogWeight cfg dinW w e d + trim

/-- The light of the neighbouring rows' rings. -/
def neighbours (tile : Tile) (wa : ℕ → ℤ) (kr r : ℕ) : ℤ :=
  (if 0 < r ∧ r - 1 < kr then wa (r - 1) else 0) +
    (if r + 1 < tile.rows ∧ r + 1 < kr then wa (r + 1) else 0)

/-- A row's share of an element. -/
def rowTerm (cfg : Cfg) (tile : Tile) (a wa : ℕ → ℤ) (kr r : ℕ) : ℤ :=
  let xa := if cfg.impair &&& quantBit ≠ 0 then quant (a r) cfg.actBits tile.dinW else a r
  let wx :=
    if cfg.impair &&& xtalkBit ≠ 0 then
      wa r + asr64 (cfg.xtalk.toNat * neighbours tile wa kr r + 128) 8
    else wa r
  xa * wx

/-- The rows of an element, summed. -/
def rowSum (cfg : Cfg) (tile : Tile) (a wa : ℕ → ℤ) (kr : ℕ) : ℤ :=
  (List.range tile.rows).foldl (fun y r => y + rowTerm cfg tile a wa kr r) 0

/-- The noise of an element whose rows sum to `y`, in units of the ADC. -/
def noise (st : Streams) (cfg : Cfg) (y : ℤ) : ℤ :=
  let v := y.natAbs / 2 ^ cfg.adcShift.toNat
  let v := if 8388608 < v then 8388608 else v
  let nTh := asr64 (cfg.sigmaTh.toNat * gauss st.thermal + 32768) 16
  let nSh := asr64 (cfg.kShot.toNat * isqrt4 v * gauss st.shot + 524288) 20
  (if cfg.impair &&& thermalBit ≠ 0 then nTh else 0) + (if cfg.impair &&& shotBit ≠ 0 then nSh else 0)

/-- The ADC: what a sum and its noise come to, and whether the ADC clamped. -/
def adc (cfg : Cfg) (y nsum : ℤ) : ℤ × ℤ :=
  let s := cfg.adcShift.toNat
  if cfg.impair &&& quantBit ≠ 0 ∧ cfg.adcBits ≠ 0 then
    let lim : ℤ := 2 ^ (cfg.adcBits.toNat - 1)
    let tq := asr64 (asr64 y s + nsum + 128) 8
    (clamp (-lim) (lim - 1) tq * 2 ^ s, if tq > lim - 1 ∨ tq < -lim then 1 else 0)
  else if 8 ≤ s then
    ((BitVec.ofInt 64 (asr64 (y + 128) 8) + BitVec.ofInt 64 nsum <<< (s - 8)).toInt, 0)
  else (asr64 (y + nsum * 2 ^ s + 128) 8, 0)

/-- `pta_element`: the streams after it, the value, and the saturation. -/
def element (st : Streams) (cfg : Cfg) (tile : Tile) (a wa : ℕ → ℤ) (kr : ℕ) : Streams × ℤ × ℤ :=
  let y := rowSum cfg tile a wa kr
  let st := { st with thermal := xorshift32 st.thermal, shot := xorshift32 st.shot }
  let (out, sat) := adc cfg y (noise st cfg y)
  (st, sext (BitVec.ofInt 64 out) tile.accW, sat)

/-! ## A GEMM -/

/-- Where a walk is: its streams and device, the weights that are written with their errors, the running
sums, and the saturations. -/
structure Walk where
  st : Streams
  dev : Device
  w : ℕ → ℤ := fun _ => 0
  e : ℕ → ℤ := fun _ => 0
  C : ℕ → ℤ := fun _ => 0
  sats : ℤ := 0

/-- The operands of a walk, with its bank. -/
structure Operands where
  bank : ℕ
  M : ℕ
  N : ℕ
  K : ℕ
  A : List ℤ
  B : List ℤ

section Walk

variable (cfg : Cfg) (tile : Tile) (o : Operands)

/-- One weight of a tile is written. -/
def writeWeight (nBase kBase r : ℕ) (s : Walk) (n : ℕ) : Walk :=
  let (st, e) := weightWrite s.st cfg
  { s with
    st
    w := Function.update s.w (r * tile.cols + n) (o.B.getD ((kBase + r) * o.N + nBase + n) 0)
    e := Function.update s.e (r * tile.cols + n) e }

/-- A tile's weights are written, row by row. -/
def writeWeights (nBase kBase nc kr : ℕ) (s : Walk) : Walk :=
  (List.range kr).foldl (fun s r => (List.range nc).foldl (writeWeight cfg tile o nBase kBase r) s) s

/-- One column of a shot. -/
def column (m nBase kr : ℕ) (a : ℕ → ℤ) (s : Walk) (n : ℕ) : Walk :=
  let wa := fun r =>
    analogWeightT cfg tile.dinW (s.w (r * tile.cols + n)) (s.e (r * tile.cols + n))
      (s.dev.drift o.bank (r * tile.cols + n)) (s.dev.trim o.bank (r * tile.cols + n))
  let (st, out, sat) := element s.st cfg tile a wa kr
  let out := affine s.dev tile n out
  let cell := m * o.N + nBase + n
  { s with
    st
    C := Function.update s.C cell (sext (BitVec.ofInt 64 (s.C cell) + BitVec.ofInt 64 out) tile.accW)
    sats := s.sats + sat }

/-- A shot: one row of activations against a tile. -/
def shot (nBase kBase nc kr : ℕ) (s : Walk) (m : ℕ) : Walk :=
  let s := if cfg.impair &&& driftBit ≠ 0 then { s with dev := shotStart s.dev cfg } else s
  let a := fun r => if r < kr then o.A.getD (m * o.K + kBase + r) 0 else 0
  (List.range nc).foldl (column cfg tile o m nBase kr a) s

/-- One tile of the walk. -/
def tileWalk (nBase : ℕ) (s : Walk) (kBase : ℕ) : Walk :=
  let nc := if o.N - nBase < tile.cols then o.N - nBase else tile.cols
  let kr := if o.K - kBase < tile.rows then o.K - kBase else tile.rows
  (List.range o.M).foldl (shot cfg tile o nBase kBase nc kr) (writeWeights cfg tile o nBase kBase nc kr s)

/-- The bases `0, d, 2 * d, ..` below a bound. -/
def bases (n d : ℕ) : List ℕ :=
  List.range' 0 ((n + d - 1) / d) d

/-- The tiles of one stripe of columns. -/
def stripe (s : Walk) (nBase : ℕ) : Walk :=
  (bases o.K tile.rows).foldl (tileWalk cfg tile o nBase) s

/-- The loops of `pta_gemm_st`. -/
def walk (s : Walk) : Walk :=
  (bases o.N tile.cols).foldl (stripe cfg tile o) s

end Walk

/-- `pta_gemm_st`. -/
def gemmSt (st : Streams) (cfg : Cfg) (tile : Tile) (dev : Device) (bank M N K : ℤ) (A B : List ℤ) :
    Streams × Device × Option (ℤ × List ℤ) :=
  if M < 1 ∨ N < 1 ∨ K < 1 ∨ tile.rows < 1 ∨ tile.cols < 1 ∨ tile.accW < 2 ∨ 64 < tile.accW ∨
      bank < 0 ∨ 1 < bank ∨ dev.rows ≠ tile.rows ∨ dev.cols ≠ tile.cols then (st, dev, none)
  else
    let o : Operands := ⟨bank.toNat, M.toNat, N.toNat, K.toNat, A, B⟩
    let s := walk cfg tile o { st, dev }
    (s.st, s.dev, some (s.sats, (List.range (o.M * o.N)).map s.C))

/-- `pta_gemm`. -/
def gemm (cfg : Cfg) (tile : Tile) (dev : Device) (bank M N K : ℤ) (A B : List ℤ) :
    Device × Option (ℤ × List ℤ) :=
  let r := gemmSt (start cfg.seed) cfg tile dev bank M N K A B
  (r.2.1, r.2.2)

/-! ## The calibration engine -/

/-- Where a calibration is. `sum` has the probes' sums, and `range` is what the next pass can read. -/
structure CalWalk where
  st : Streams
  dev : Device
  e : ℕ → ℤ := fun _ => 0
  sum : ℕ → ℤ := fun _ => 0
  range : ℤ
  worst : ℤ := 0
  resid : ℤ := 0
  sats : ℤ := 0
  clamped : Bool := false

section Calibration

variable (cfg : Cfg) (tile : Tile) (bank : ℕ) (cal : CalCfg)

/-- The ADC is on. -/
def quantised : Bool :=
  cfg.impair &&& quantBit ≠ 0 ∧ cfg.adcBits ≠ 0

/-- The largest code of the ADC. -/
def codes : ℤ :=
  if quantised cfg then 2 ^ (cfg.adcBits.toNat - 1) - 1 else 0

/-- The shift a pass sets: the first that brings the range into the codes, and at most 40. -/
def rangeShift (range : ℤ) : ℕ → ℕ → ℕ
  | 0, s => s
  | fuel + 1, s => if s < 40 ∧ range > codes cfg * 2 ^ s then rangeShift range fuel (s + 1) else s

/-- What a pass runs with. -/
def passCfg (range : ℤ) : Cfg :=
  { cfg with adcShift := if quantised cfg then BitVec.ofNat 32 (rangeShift cfg range 40 0) else 0 }

/-- Every weight of the bank is written to zero: each write redraws that cell's error. -/
def zeroWeights (s : CalWalk) : CalWalk :=
  (List.range (tile.rows * tile.cols)).foldl (fun s i =>
    let (st, e) := weightWrite s.st cfg
    { s with st, e := Function.update s.e i e }) s

/-- One column of a probe. -/
def probeColumn (shot : ℕ) (s : CalWalk) (n : ℕ) : CalWalk :=
  let a := fun r => if r = shot then 2 ^ cal.ampLog2.toNat else 0
  let wa := fun r =>
    analogWeightT cfg tile.dinW 0 (s.e (r * tile.cols + n)) (s.dev.drift bank (r * tile.cols + n))
      (s.dev.trim bank (r * tile.cols + n))
  let (st, out, sat) := element s.st (passCfg cfg s.range) tile a wa tile.rows
  { s with
    st
    sum := Function.update s.sum (shot * tile.cols + n)
      (s.sum (shot * tile.cols + n) + affine s.dev tile n out)
    sats := s.sats + sat }

/-- A probe: one row at the amplitude, the others dark. -/
def probe (s : CalWalk) (shot : ℕ) : CalWalk :=
  let s := if cfg.impair &&& driftBit ≠ 0 then { s with dev := shotStart s.dev cfg } else s
  (List.range tile.cols).foldl (probeColumn cfg tile bank cal shot) s

/-- One repeat of a pass. -/
def calRep (s : CalWalk) : CalWalk :=
  (List.range tile.rows).foldl (probe cfg tile bank cal) (zeroWeights cfg tile s)

/-- The estimator's turn for one cell. -/
def estimate (s : CalWalk) (i : ℕ) : CalWalk :=
  let v := s.sum i
  let mag := if v < 0 then -v else v
  let q := mag * 2 ^ 8 / 2 ^ (cal.ampLog2.toNat + cal.repsLog2.toNat)
  let left := mag / 2 ^ cal.repsLog2.toNat
  let req := clamp (-2147483648) 2147483647 (s.dev.trim bank i + if v < 0 then q else -q)
  let rq := trimRound cfg.trimStep req
  { s with
    resid := if q > s.resid then q else s.resid
    worst := if left > s.worst then left else s.worst
    clamped := s.clamped || decide (rq > cfg.trimMax.toNat ∨ rq < -cfg.trimMax.toNat)
    dev := trimWrite s.dev cfg bank i req }

/-- One auto-ranging pass. -/
def calPass (s : CalWalk) : CalWalk :=
  let s := { s with sum := fun _ => 0, worst := 0, resid := 0 }
  let s := (calRep cfg tile bank cal)^[2 ^ cal.repsLog2.toNat] s
  (List.range (tile.rows * tile.cols)).foldl (estimate cfg bank cal) s

/-- The passes after the first. -/
def calMore : ℕ → CalWalk → CalWalk
  | 0, s => s
  | n + 1, s => calMore n (calPass cfg tile bank cal { s with range := s.worst * 4 + 8 })

/-- `PTA_ERR_MAX` is 24 bits. -/
def errMax (resid : ℤ) : ℕ :=
  if resid > 0xFFFFFF then 0xFFFFFF else resid.toNat

/-- What a calibration of a bank refuses. -/
def calRefused (dev : Device) : Bool :=
  let h := if cfg.impair &&& quantBit ≠ 0 ∧ cfg.actBits ≠ 0 ∧ cfg.actBits.toNat < tile.dinW then
    tile.dinW - cfg.actBits.toNat else 0
  tile.rows < 1 ∨ tile.cols < 1 ∨ 1 < bank ∨ cal.passes.toNat < 1 ∨ dev.rows ≠ tile.rows ∨
    dev.cols ≠ tile.cols ∨ tile.dinW < cal.ampLog2.toNat + 2 ∨ cal.ampLog2.toNat < h

/-- `pta_cal_bank`: with the ADC unquantised the first pass is the only one. -/
def calBank (st : Streams) (dev : Device) : Device × Option CalReport :=
  if calRefused cfg tile bank cal dev then (dev, none)
  else
    let s : CalWalk := { st, dev, range := cfg.trimMax.toNat * 2 ^ cal.ampLog2.toNat / 2 ^ 8 }
    let first := calPass cfg tile bank cal s
    let last := if quantised cfg then calMore cfg tile bank cal (cal.passes.toNat - 1) first else first
    (last.dev, some
      { left := errMax last.resid, sats := last.sats, clamped := last.clamped, found := errMax first.resid })

end Calibration

/-- The model, as the twin calls it. -/
def tileKernel : TileKernel Device where
  gemm := gemm
  calBank cfg tile dev bank seed cal := calBank cfg tile bank cal (start seed) dev
  modelReset := modelReset
  calReset := calReset
  columnCal := columnCal
  driftAge cfg dev steps := driftAge dev cfg steps

end Grxcp.PtaTile
