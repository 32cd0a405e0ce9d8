import Grxcp.Libs.EngineGemm
import Grxcp.Pta.TileModel

/-!
# The vendored register model of the c930

`npu_dpi_shim.c`: the c930's registers over 64 KB of memory, with the photonic tile behind them in a build
that has one (`NPU_DPI_WITH_PTA`). A start multiplies at once, in place, and the time that it takes passes
in `npu_dpi_run`. `shim_read` and `shim_write` are the hooks that the backend's test puts in front of it:
a read of the status is where the time goes, and an address decoder looks at a start.

An address is a `uint32_t` and wraps as one; memory is a function of it. The sums of the exact loop are
taken to wrap, as the words that are stored do. The allocations succeed.
-/

namespace Grxcp.NpuDpi

open Blas (Bytes int8At)

/-! ## Words -/

/-- `NPU_DDR_SIZE`. -/
def ddrSize : U32 := 65536

def numRows : U32 := 4
def numCols : U32 := 4
def maxN : U32 := 12
def maxK : U32 := 16
def dinW : U32 := 16
def accW : U32 := 48

/-- `NPU_PREC_INT8` and its siblings. -/
def precInt8 : U32 := 0
def precInt16 : U32 := 1
def precFp16 : U32 := 2
def precBf16 : U32 := 3
def precInt4 : U32 := 4

/-- `NPU_PTA_BUILT_TILE`. -/
def builtTile : U32 := 0x5F

/-- `tile_geom`. -/
def tileGeom : PtaTwin.Tile :=
  ⟨numRows.toNat, numCols.toNat, dinW.toNat, accW.toNat⟩

/-- The model's state. `tileDev` is the tile once it has been asked for. -/
structure Shim where
  ddr : Bytes := fun _ => 0
  csr : ℕ → U32 := fun _ => 0
  busy : Bool := false
  doneLatch : Bool := false
  error : Bool := false
  cyclesLeft : ℤ := 0
  busyCycles : ℤ := 0
  en : U32 := 0
  impair : U32 := 0
  bits : U32 := 0
  seed : U32 := 0
  wloadCt : U32 := 0
  sigTh : U32 := 0
  sigSh : U32 := 0
  sigPr : U32 := 0
  drift : U32 := 0
  xtalk : U32 := 0
  dmax : U32 := 0
  shotCt : U32 := 0
  satCt : U32 := 0
  tile : Bool := false
  tileDev : Option PtaTile.Device := none

namespace Shim

variable (s : Shim)

def ctrl : U32 := s.csr 0
def dimM : U32 := s.csr 2
def dimN : U32 := s.csr 3
def dimK : U32 := s.csr 4
def aBase : U32 := s.csr 5
def bBase : U32 := s.csr 6
def cBase : U32 := s.csr 7
def prec : U32 := s.csr 8

/-- A register is given a value. -/
def setCsr (i : ℕ) (v : U32) : Shim :=
  { s with csr := Function.update s.csr i v }

/-- `pta_built`. -/
def built : U32 :=
  if s.tile then builtTile else 0

/-- `NPU_PTA_BANKS`. -/
def banks : U32 :=
  (maxN + numCols - 1) / numCols * ((maxK + numRows - 1) / numRows)

/-- `NPU_PTA_QMAX`. -/
def qmax : U32 :=
  if dinW - 1 > 15 then 15 else dinW - 1

/-- `pta_caps1`. -/
def caps1 : U32 :=
  let caps := banks <<< 8
  if s.tile then caps ||| (builtTile ||| qmax <<< 16 ||| qmax <<< 20 ||| (15 : U32) <<< 24) else caps

/-- `pta_caps2`. -/
def caps2 : U32 :=
  if s.tile then 0x80000000 ||| (3 : U32) <<< 18 else 0

/-- `build_status`. -/
def buildStatus : U32 :=
  (if s.error then 4 else 0) ||| (if s.doneLatch then 2 else 0) ||| (if s.busy then 1 else 0)

/-- `npu_dpi_init`. The build stays. -/
def init : Shim where
  tile := s.tile
  tileDev := s.tileDev.map fun dev => PtaTile.calReset (PtaTile.modelReset dev 0)

/-- `npu_dpi_set_tile`, of the tile or of none. -/
def setTile (model : Bool) : Shim :=
  if model then { s with tile := true, tileDev := some (s.tileDev.getD (PtaTile.deviceInit tileGeom)) }
  else { s with tile := false }

/-! ## The PTA block -/

/-- `pta_csr_write`: the state, if the address is one of the block's. -/
def ptaCsrWrite (addr data : U32) : Option Shim :=
  match addr with
  | 0x40000140 =>
    let s := { s with en := data &&& 0x01 }
    if data &&& 0x08 ≠ 0 ∧ s.busy = false then
      some { s with tileDev := s.tileDev.map fun dev => PtaTile.calReset (PtaTile.modelReset dev s.seed) }
    else some s
  | 0x40000148 => some { s with impair := data &&& 0x7F }
  | 0x4000014c => some { s with bits := data &&& 0x3FFFF }
  | 0x40000150 => some { s with seed := data }
  | 0x40000154 => some { s with sigTh := data &&& 0xFFFF }
  | 0x40000158 => some { s with sigSh := data &&& 0xFFFF }
  | 0x4000015c => some { s with sigPr := data &&& 0xFFFF }
  | 0x40000160 => some { s with drift := data &&& 0x1FFFFF }
  | 0x40000164 => some { s with xtalk := data &&& 0xFF }
  | 0x400001d0 => some { s with dmax := data &&& 0xFFFF }
  | _ => none

/-- `pta_csr_read`. -/
def ptaCsrRead (addr : U32) : Option U32 :=
  match addr with
  | 0x40000100 => some 0x50544101
  | 0x40000104 => some (numRows ||| numCols <<< 10 ||| dinW <<< 20 ||| accW <<< 26)
  | 0x40000108 => some s.caps1
  | 0x4000010c => some s.caps2
  | 0x40000140 => some s.en
  | 0x40000144 => some ((if s.busy then 0x10 else 0) ||| (if s.satCt ≠ 0 then 0x04 else 0))
  | 0x40000148 => some s.impair
  | 0x4000014c => some s.bits
  | 0x40000150 => some s.seed
  | 0x40000154 => some s.sigTh
  | 0x40000158 => some s.sigSh
  | 0x4000015c => some s.sigPr
  | 0x40000160 => some s.drift
  | 0x40000164 => some s.xtalk
  | 0x40000180 => some s.shotCt
  | 0x40000184 => some s.wloadCt
  | 0x40000188 => some s.satCt
  | 0x400001d0 => some s.dmax
  | _ => none

/-! ## A GEMM -/

/-- An operand: element `i` of the matrix at a base, in the exact loop and in `tile_operand`. A float
precision is read as `int8_t`s. -/
def operand (mem : Bytes) (prec base i : U32) : ℤ :=
  if prec = precInt16 then
    let off := base + i * 2
    (BitVec.ofNat 16 ((mem off.toNat).toNat + 2 ^ 8 * (mem (off + 1).toNat).toNat)).toInt
  else if prec = precInt4 then
    let nib : ℤ := (mem (base + i / 2).toNat).toNat / 2 ^ ((i &&& 1) * 4).toNat % 16
    if nib ≥ 8 then nib - 16 else nib
  else int8At mem (base + i).toNat

/-- The memory with a word written, its low byte first. -/
def putWord (mem : Bytes) (a v : U32) : Bytes :=
  (List.range 4).foldl (fun mem t =>
    Function.update mem (a + BitVec.ofNat 32 t).toNat (UInt8.ofNat (v.toNat / 2 ^ (8 * t)))) mem

/-- The inner loop of the exact GEMM. -/
def dot (mem : Bytes) (i j : U32) : U32 :=
  (List.range s.dimK.toNat).foldl (fun sum p =>
    sum + BitVec.ofInt 32 (operand mem s.prec s.aBase (i * s.dimK + BitVec.ofNat 32 p) *
      operand mem s.prec s.bBase (BitVec.ofNat 32 p * s.dimN + j))) 0

/-- One cell of the exact GEMM. It is stored before the next is computed. -/
def cell (i : U32) (mem : Bytes) (j : ℕ) : Bytes :=
  putWord mem (s.cBase + (i * s.dimN + BitVec.ofNat 32 j) * 4) (s.dot mem i (BitVec.ofNat 32 j))

/-- The exact GEMM. -/
def loop : Bytes :=
  (List.range s.dimM.toNat).foldl (fun mem i => (List.range s.dimN.toNat).foldl (s.cell (BitVec.ofNat 32 i)) mem)
    s.ddr

/-- The configuration of `gemm_tile`. -/
def tileCfg : PtaTwin.Cfg where
  impair := s.impair
  actBits := s.bits &&& 0xF
  wBits := (s.bits >>> 4) &&& 0xF
  adcBits := (s.bits >>> 8) &&& 0xF
  adcShift := (s.bits >>> 12) &&& 0x3F
  seed := s.seed
  sigmaTh := s.sigTh
  kShot := s.sigSh
  sigmaPr := s.sigPr
  driftSigma := s.drift &&& 0xFFFF
  driftLog2 := (s.drift >>> 16) &&& 0x1F
  driftMax := s.dmax
  xtalk := s.xtalk

/-- The words of a tile's sums, in the memory. -/
def putWords (mem : Bytes) (base : U32) (C : List ℤ) : Bytes :=
  (List.range C.length).foldl
    (fun mem i => putWord mem (base + BitVec.ofNat 32 i * 4) (BitVec.ofInt 32 (C.getD i 0))) mem

/-- `gemm_tile`, and whether the model took the shape. -/
def gemmTile : Shim × Bool :=
  let A := (List.range (s.dimM * s.dimK).toNat).map fun i => operand s.ddr s.prec s.aBase (BitVec.ofNat 32 i)
  let B := (List.range (s.dimK * s.dimN).toNat).map fun i => operand s.ddr s.prec s.bBase (BitVec.ofNat 32 i)
  let dev := s.tileDev.getD { rows := 0, cols := 0 }
  match PtaTile.gemm s.tileCfg tileGeom dev 0 s.dimM.toInt s.dimN.toInt s.dimK.toInt A B with
  | (dev, none) => ({ s with tileDev := some dev }, false)
  | (dev, some (sats, C)) =>
    ({ s with
      tileDev := some dev
      ddr := putWords s.ddr s.cBase (C.take (s.dimM * s.dimN).toNat)
      satCt := BitVec.ofInt 32 sats }, true)

/-! ## A start -/

/-- The core's refusal of an impairment. -/
def refused : Bool :=
  s.impair ≠ 0 ∧ (s.impair &&& ~~~s.built ≠ 0 ∨ s.prec = precFp16 ∨ s.prec = precBf16 ∨
    (s.bits >>> 12) &&& 0x3F > 40)

def aSize : U32 :=
  if s.prec = precInt4 then (s.dimM * s.dimK + 1) / 2
  else if s.prec = precInt8 then s.dimM * s.dimK
  else s.dimM * s.dimK * 2

def bSize : U32 :=
  if s.prec = precInt4 then (s.dimK * s.dimN + 1) / 2
  else if s.prec = precInt8 then s.dimK * s.dimN
  else s.dimK * s.dimN * 2

def cSize : U32 :=
  s.dimM * s.dimN * 4

/-- What the bounds check does not let through. -/
def outside : Bool :=
  s.aBase ≥ ddrSize ∨ s.aSize > ddrSize - s.aBase ∨ s.bBase ≥ ddrSize ∨ s.bSize > ddrSize - s.bBase ∨
    s.cBase ≥ ddrSize ∨ s.cSize > ddrSize - s.cBase

def nTiles : U32 :=
  let nc := if s.dimN > maxN then maxN else s.dimN
  (nc + numCols - 1) / numCols

def mTiles : U32 :=
  (s.dimM + numRows - 1) / numRows

def kTiles : U32 :=
  (s.dimK + numRows - 1) / numRows

def totalCycles : U32 :=
  let psOffset := if s.prec = precFp16 ∨ s.prec = precBf16 then numRows else 0
  s.mTiles * s.nTiles * s.kTiles * (numRows + psOffset + numCols + 2)

/-- The counters and the timing of a GEMM that has been computed. -/
def launched : Shim :=
  { s with
    wloadCt := s.wloadCt + s.nTiles * s.kTiles
    shotCt := if s.tile then s.shotCt + s.dimM * s.nTiles * s.kTiles else s.shotCt
    cyclesLeft := s.totalCycles.toInt
    busyCycles := 2
    busy := true
    error := false
    csr := fun i => if i = 9 ∨ i = 11 ∨ i = 12 ∨ i = 13 then 0 else s.csr i }

/-- What a write of `CTRL.START` does, and whether it goes on to be stored. -/
def start : Shim × Bool :=
  let s := { s with doneLatch := false, error := false }
  if s.busy then (s, true)
  else if s.dimM = 0 ∨ s.dimN = 0 ∨ s.dimK = 0 then (s, false)
  else if s.refused then ({ s with error := true }, false)
  else if s.outside then ({ s with error := true }, false)
  else
    let s := { s with satCt := 0 }
    if s.tile ∧ s.impair ≠ 0 then
      match s.gemmTile with
      | (s, false) => ({ s with error := true }, false)
      | (s, true) => (s.launched, true)
    else (launched { s with ddr := s.loop }, true)

/-! ## The calls -/

/-- The index of a register. -/
def csrIndex (addr : U32) : ℕ :=
  ((addr - 0x40000000) >>> 2).toNat

/-- `npu_dpi_csr_write`. -/
def csrWrite (addr data : U32) : Shim :=
  match s.ptaCsrWrite addr data with
  | some s => s
  | none =>
    if 13 < csrIndex addr then s
    else if csrIndex addr = 0 ∧ data &&& 1 ≠ 0 then
      match s.start with
      | (s, false) => s
      | (s, true) => s.setCsr 0 data
    else s.setCsr (csrIndex addr) data

/-- `npu_dpi_csr_read`. -/
def csrRead (addr : U32) : U32 :=
  match s.ptaCsrRead addr with
  | some v => v
  | none =>
    if 13 < csrIndex addr then 0
    else if csrIndex addr = 1 then s.buildStatus
    else s.csr (csrIndex addr)

/-- `npu_dpi_mem_write`. -/
def memWrite (addr data strb : U32) : Shim :=
  let highest : U32 :=
    if strb &&& 8 ≠ 0 then 3 else if strb &&& 4 ≠ 0 then 2 else if strb &&& 2 ≠ 0 then 1 else 0
  if addr ≥ ddrSize then { s with error := true }
  else if highest ≥ ddrSize - addr then { s with error := true }
  else
    { s with
      ddr := (List.range 4).foldl (fun mem t =>
        if strb &&& ((1 : U32) <<< t) ≠ 0 then
          Function.update mem (addr + BitVec.ofNat 32 t).toNat (UInt8.ofNat (data.toNat / 2 ^ (8 * t)))
        else mem) s.ddr }

/-- `npu_dpi_mem_read`. -/
def memRead (addr : U32) : Shim × UInt8 :=
  if addr ≥ ddrSize then ({ s with error := true }, 0) else (s, s.ddr addr.toNat)

/-- One cycle of `npu_dpi_run`. -/
def tick : Shim :=
  let s := { s with csr := fun i => if i = 9 ∨ i = 13 then s.csr i + 1 else s.csr i }
  if s.busyCycles > 0 then { s with busyCycles := s.busyCycles - 1 }
  else
    let s := { s with cyclesLeft := s.cyclesLeft - 1 }
    if s.cyclesLeft ≤ 0 then
      { s with
        busy := false
        doneLatch := true
        csr := fun i => if i = 11 then s.dimM * s.dimN * s.dimK * 2 else if i = 12 then 0 else s.csr i }
    else s

/-- `npu_dpi_run`: the loop ends with the GEMM. -/
def run : ℕ → Shim → Shim
  | 0, s => s
  | n + 1, s => if s.busy then run n s.tick else s

/-- `npu_dpi_expected_cycles`. -/
def expectedCycles : ℤ :=
  if s.dimM = 0 ∨ s.dimN = 0 ∨ s.dimK = 0 then 0 else s.totalCycles.toInt

/-- `npu_dpi_run_gemm`. -/
def runGemm (m n k prec a b c : U32) : Shim :=
  let s := s.csrWrite 0x40000008 m
  let s := s.csrWrite 0x4000000c n
  let s := s.csrWrite 0x40000010 k
  let s := s.csrWrite 0x40000014 a
  let s := s.csrWrite 0x40000018 b
  let s := s.csrWrite 0x4000001c c
  let s := s.csrWrite 0x40000020 prec
  let s := s.csrWrite 0x40000000 1
  s.run (s.expectedCycles + 20).toNat

end Shim

/-! ## The adapter -/

/-- `Shim` of the backend's test: the model, and the adapter's own fields. -/
structure Adapter where
  shim : Shim := {}
  quantum : ℕ := 4096
  polls : ℕ := 0
  starts : ℕ := 0
  refused : ℕ := 0
  err : U32 := 0
  m : U32 := 0
  n : U32 := 0
  k : U32 := 0
  a : U32 := 0
  b : U32 := 0
  c : U32 := 0

/-- `NPU_C930_MMIO_BASE`. -/
def mmioBase : U32 := 0x40000000

/-- `in_window`. -/
def inWindow (base bytes : ℕ) : Bool :=
  if bytes = 0 then base ≤ ddrSize.toNat else base < ddrSize.toNat ∧ bytes ≤ ddrSize.toNat - base

/-- `shim_read`. -/
def Adapter.read (s : Adapter) (off : U32) : Adapter × U32 :=
  if off = Blas.npuStatus then
    let s := { s with polls := s.polls + 1, shim := s.shim.run s.quantum }
    (s, s.shim.csrRead (mmioBase + off) ||| s.err)
  else (s, s.shim.csrRead (mmioBase + off))

/-- The decoder's copies of what a start uses. -/
def Adapter.latch (s : Adapter) (off v : U32) : Adapter :=
  if off = 0x08 then { s with m := v }
  else if off = 0x0C then { s with n := v }
  else if off = 0x10 then { s with k := v }
  else if off = 0x14 then { s with a := v }
  else if off = 0x18 then { s with b := v }
  else if off = 0x1C then { s with c := v }
  else s

/-- The decoder lets a start through. -/
def Adapter.decodes (s : Adapter) : Bool :=
  inWindow s.a.toNat (s.m.toNat * s.k.toNat) ∧ inWindow s.b.toNat (s.k.toNat * s.n.toNat) ∧
    inWindow s.c.toNat (s.m.toNat * s.n.toNat * 4)

/-- `shim_write`. -/
def Adapter.write (s : Adapter) (off v : U32) : Adapter :=
  let s := s.latch off v
  if off = Blas.npuCtrl ∧ v &&& Blas.NPU_C930_CTRL_START ≠ 0 then
    if s.decodes then
      { s with err := 0, starts := s.starts + 1, shim := s.shim.csrWrite (mmioBase + off) v }
    else { s with err := Blas.NPU_C930_STATUS_ERROR, refused := s.refused + 1 }
  else { s with shim := s.shim.csrWrite (mmioBase + off) v }

/-- The device that the backend drives. -/
def adapter : Blas.Npu Adapter where
  read32 := Adapter.read
  write32 := Adapter.write
  ddr s := s.shim.ddr

end Grxcp.NpuDpi
