import Grxcp.Lib.MajorOrder
import Grxcp.Libs.Grxblas
import Grxcp.Pta.Driver
import Grxcp.Runtime.Memory

/-!
# A GEMM on the row-major engines

`grxblasGemmEx` on an NPU and on a PTA chiplet: `npu_gemm_path` with the `npu_c930_gemm` under it, and
`pta_gemm_path` over `pta_chiplet_gemm`. Memory is given by its bytes. The NPU multiplies in its DDR, and
the chiplet what is copied out of the memory of its parent and back.

What stands behind the registers and the link is given with the call, and so are the reads that
`npu_c930_wait_idle` has time for and what the copies are answered. The scalars are `float`s, by their
bits. What is printed, and the registers that are read for it, is left out.
-/

namespace Grxcp.Blas

open Grxcp.Runtime

/-! ## Memory -/

/-- A memory, by its bytes. -/
abbrev Bytes := ℕ → UInt8

/-- The `int8_t` at an address. -/
def int8At (mem : Bytes) (a : ℕ) : ℤ :=
  (mem a).toInt8.toInt

/-- The `int32_t` at an address. -/
def int32At (mem : Bytes) (a : ℕ) : U32 :=
  BitVec.ofNat 32 ((mem a).toNat + 2 ^ 8 * (mem (a + 1)).toNat + 2 ^ 16 * (mem (a + 2)).toNat +
    2 ^ 24 * (mem (a + 3)).toNat)

/-- The memory with `int32_t`s written from an address on. -/
def writeWords (mem : Bytes) (a : ℕ) (words : List U32) : Bytes := fun x =>
  if a ≤ x ∧ x < a + 4 * words.length then
    UInt8.ofNat ((words.getD ((x - a) / 4) 0).toNat / 2 ^ (8 * ((x - a) % 4)))
  else mem x

/-! ## The c930 -/

/-- `npu_c930_device_t`: its registers, if it has any, and the memory behind them. -/
structure Npu (E : Type) where
  regReady : Bool := true
  read32 : E → U32 → E × U32
  write32 : E → U32 → U32 → E
  ddr : E → Bytes

def NPU_C930_MAX_M : ℤ := 8

def NPU_C930_MAX_K : ℤ := 16

def NPU_C930_MAX_N : ℤ := 12

def NPU_C930_CTRL_START : U32 := 1

def NPU_C930_STATUS_BUSY : U32 := 1

def NPU_C930_STATUS_DONE : U32 := 2

def NPU_C930_STATUS_ERROR : U32 := 4

/-- The offsets of the registers. -/
def npuCtrl : U32 := 0x00

def npuStatus : U32 := 0x04

/-- The arguments of `npu_c930_gemm`, with how many reads of the status its two waits have time for after
the first. -/
structure NpuGemm where
  m : ℤ
  n : ℤ
  k : ℤ
  a : U32
  b : U32
  c : U32

namespace Npu

variable {E : Type} (d : Npu E)

/-- `npu_c930_wait_idle`. -/
def waitIdle : ℕ → E → E × Bool
  | 0, e => ((d.read32 e npuStatus).1, (d.read32 e npuStatus).2 &&& NPU_C930_STATUS_BUSY = 0)
  | polls + 1, e =>
    if (d.read32 e npuStatus).2 &&& NPU_C930_STATUS_BUSY = 0 then ((d.read32 e npuStatus).1, true)
    else waitIdle polls (d.read32 e npuStatus).1

/-- Dimensions and bases, and the start. -/
def launch (g : NpuGemm) (e : E) : E :=
  let e := d.write32 e 0x08 (BitVec.ofInt 32 g.m)
  let e := d.write32 e 0x0C (BitVec.ofInt 32 g.n)
  let e := d.write32 e 0x10 (BitVec.ofInt 32 g.k)
  let e := d.write32 e 0x14 g.a
  let e := d.write32 e 0x18 g.b
  let e := d.write32 e 0x1C g.c
  d.write32 e npuCtrl NPU_C930_CTRL_START

/-- `npu_c930_gemm` once it is launched: wait, and look whether it was refused, and whether it ran. -/
def finish (polls : ℕ) (e : E) : E × Bool :=
  match d.waitIdle polls e with
  | (e, false) => (e, false)
  | (e, true) =>
    let (e, status) := d.read32 e npuStatus
    if status &&& NPU_C930_STATUS_ERROR ≠ 0 then (e, false)
    else if status &&& NPU_C930_STATUS_DONE = 0 then (e, false)
    else (e, true)

/-- `npu_c930_gemm`. -/
def gemm (g : NpuGemm) (polls : ℕ × ℕ) (e : E) : E × Bool :=
  if d.regReady = false then (e, false)
  else if g.m ≤ 0 ∨ g.n ≤ 0 ∨ g.k ≤ 0 then (e, false)
  else if NPU_C930_MAX_M < g.m ∨ NPU_C930_MAX_N < g.n ∨ NPU_C930_MAX_K < g.k then (e, false)
  else if g.a &&& 3 ≠ 0 ∨ g.b &&& 3 ≠ 0 ∨ g.c &&& 3 ≠ 0 then (e, false)
  else
    match d.waitIdle polls.1 e with
    | (e, false) => (e, false)
    | (e, true) => d.finish polls.2 (d.launch g e)

end Npu

/-! ## The two paths -/

/-- The arguments of a call of `grxblasGemmEx` with the bits of its scalars. -/
structure EngineCall extends GemmExArgs where
  alpha : UInt32 := 0x3F800000
  beta : UInt32 := 0
deriving DecidableEq

/-- `*alpha == 1.0f && *beta == 0.0f`. -/
def EngineCall.unscaled (s : EngineCall) : Bool :=
  s.alpha = 0x3F800000 ∧ (s.beta = 0 ∨ s.beta = 0x80000000)

/-- The operands as the c930 is given them: `B` is its `A`. -/
def EngineCall.npuGemm (s : EngineCall) : NpuGemm where
  m := s.n.toInt
  n := s.m.toInt
  k := s.k.toInt
  a := s.b.toUInt32.toBitVec
  b := s.a.toUInt32.toBitVec
  c := s.c.toUInt32.toBitVec

/-- `npu_gemm_path`. -/
def npuGemmPath {E : Type} (dev : Option (Npu E)) (s : EngineCall) (polls : ℕ × ℕ) (e : E) :
    E × Status :=
  match dev with
  | none => (e, .notSupported)
  | some d =>
    if s.unscaled = false then (e, .notSupported)
    else if NPU_C930_MAX_M < s.n.toInt ∨ NPU_C930_MAX_N < s.m.toInt ∨ NPU_C930_MAX_K < s.k.toInt then
      (e, .notSupported)
    else if s.lda ≠ s.m ∨ s.ldb ≠ s.k ∨ s.ldc ≠ s.m then (e, .notSupported)
    else if 0xFFFFFFFF < s.a ∨ 0xFFFFFFFF < s.b ∨ 0xFFFFFFFF < s.c then (e, .notSupported)
    else
      match d.gemm s.npuGemm polls e with
      | (e, false) => (e, .executionFailed)
      | (e, true) => (e, .success)

/-- What is answered to the chiplet's path: the three copies, and what a copy that fails leaves of the
parent's memory. -/
structure PtaReplies where
  copyA : Option GrxError := none
  copyB : Option GrxError := none
  copyC : Option (GrxError × Bytes) := none

/-- A chiplet: its driver, and the memory of its parent. -/
structure Chiplet (E P : Type) where
  driver : PtaChiplet.Driver E P
  mem : Bytes

/-- What the chiplet's path is given of the machine: the driver's memory with what a result buffer holds,
the parent with the allocations, and the addresses of the buffer and of the driver's local variable. -/
structure PtaSide (E P : Type) where
  host : PtaChiplet.Host E P
  result : E → P → List ℤ
  parent : Option ℕ
  heap : Heap
  out : P
  status : P

/-- A buffer is on the parent, with the bytes that are needed. -/
def onParent (heap : Heap) (parent address need : ℕ) : Bool :=
  match lookupDevicePointerOn heap parent address with
  | none => false
  | some map => need ≤ map.size

/-- The operands as the chiplet is given them: `B` is its `A`. -/
def EngineCall.ptaGemm {P : Type} (s : EngineCall) (mem : Bytes) (out : P) : PtaChiplet.Call P where
  bank := 0
  M := s.n.toInt
  N := s.m.toInt
  K := s.k.toInt
  A := some ((List.range (s.k.toInt.toNat * s.n.toInt.toNat)).map fun q => int8At mem (s.b.toNat + q))
  B := some ((List.range (s.m.toInt.toNat * s.k.toInt.toNat)).map fun q => int8At mem (s.a.toNat + q))
  C := some out

/-- The end of `pta_gemm_path`: the low 32 bits of each sum, in the parent's memory. -/
def ptaWriteBack {E P : Type} (side : PtaSide E P) (s : EngineCall) (r : PtaReplies) (x : Chiplet E P) :
    Chiplet E P × Status :=
  match r.copyC with
  | some (_, mem) => ({ x with mem }, .executionFailed)
  | none =>
    let c32 := (List.range (s.m.toInt.toNat * s.n.toInt.toNat)).map fun q =>
      BitVec.ofInt 32 ((side.result x.driver.env side.out).getD q 0)
    ({ x with mem := writeWords x.mem s.c.toNat c32 }, .success)

/-- `pta_gemm_path`. -/
def ptaGemmPath {E P : Type} (side : PtaSide E P) (s : EngineCall) (r : PtaReplies) (x : Chiplet E P) :
    Chiplet E P × Status :=
  match side.parent with
  | none => (x, .notSupported)
  | some parent =>
    if s.unscaled = false then (x, .notSupported)
    else if s.k = 0 then (x, .notSupported)
    else if s.lda ≠ s.m ∨ s.ldb ≠ s.k ∨ s.ldc ≠ s.m then (x, .notSupported)
    else
      let aBytes := s.m.toInt.toNat * s.k.toInt.toNat
      let bBytes := s.k.toInt.toNat * s.n.toInt.toNat
      let cBytes := s.m.toInt.toNat * s.n.toInt.toNat * 4
      if ¬ (onParent side.heap parent s.a.toNat aBytes ∧ onParent side.heap parent s.b.toNat bBytes ∧
          onParent side.heap parent s.c.toNat cBytes) then (x, .invalidValue)
      else if r.copyA.isSome ∨ r.copyB.isSome then (x, .executionFailed)
      else
        match x.driver.gemm side.host side.status (s.ptaGemm x.mem side.out) with
        | (driver, false) =>
          ({ x with driver }, if driver.dev.error = .noLink then .notSupported else .executionFailed)
        | (driver, true) => ptaWriteBack side s r { x with driver }

/-! ## The dispatch -/

/-- What `grxblasGemmEx` returns before it asks for the engine. -/
def GemmExArgs.settled (s : GemmExArgs) : Option Status :=
  if s.scalars = false then some .invalidValue
  else if s.m < 0 ∨ s.n < 0 ∨ s.k < 0 then some .invalidValue
  else if s.m = 0 ∨ s.n = 0 then some .success
  else if 0 < s.k ∧ (s.a = 0 ∨ s.b = 0) then some .invalidValue
  else if s.c = 0 then some .invalidValue
  else if s.lda < (if s.transa then s.k else s.m) ∨ s.ldb < (if s.transb then s.n else s.k) ∨
      s.ldc < s.m then some .invalidValue
  else none

/-- The engines of a machine: an NPU, if the current device has one, and a chiplet. -/
structure Engines (E F P : Type) where
  npu : Option (Npu E)
  pta : PtaSide F P

/-- What a call on the engines is answered. -/
structure EngineReplies where
  polls : ℕ × ℕ := (0, 0)
  pta : PtaReplies := {}
  tensor : Status := .success

/-- `grxblasGemmEx`, with what its engines do. The tensor path is not one of them. -/
def gemmOnEngines {E F P : Type} (M : Machine) (current : ℕ) (G : Engines E F P) (s : EngineCall)
    (r : EngineReplies) (x : E × Chiplet F P) : (E × Chiplet F P) × Status :=
  match s.settled with
  | some status => (x, status)
  | none =>
    match decideGemmEngine M current s.types with
    | .none => (x, .notSupported)
    | .npuC930 =>
      let y := npuGemmPath G.npu s r.polls x.1
      ((y.1, x.2), y.2)
    | .ptaChiplet =>
      if s.transa ∨ s.transb then (x, .notSupported)
      else
        let y := ptaGemmPath G.pta s r.pta x.2
        ((x.1, y.1), y.2)
    | .gpuTensor => (x, r.tensor)

/-- What `grxblasGemmEx` returns before it asks for the engine, it returns with nothing done. -/
theorem grxblasGemmEx_eq (M : Machine) (current : ℕ) (ctx : Context) (s : GemmExArgs) (l : LoadReplies)
    (h i8 : ShapeReplies) (g : GemmReplies) :
    grxblasGemmEx M current ctx s l h i8 g =
      match s.settled with
      | some status => { ctx, status }
      | none =>
        match decideGemmEngine M current s.types with
        | .none => { ctx, status := .notSupported }
        | .npuC930 => { ctx, status := g.npu }
        | .ptaChiplet =>
          if s.transa ∨ s.transb then { ctx, status := .notSupported }
          else { ctx, status := g.pta }
        | .gpuTensor =>
          (ensureHgemm M current ctx l h i8).andThen fun ctx => tensorGemm M current ctx s g := by
  unfold grxblasGemmEx GemmExArgs.settled
  by_cases hscalars : s.scalars = false
  · rw [if_pos hscalars, if_pos hscalars]
  rw [if_neg hscalars, if_neg hscalars]
  by_cases hsizes : s.m < 0 ∨ s.n < 0 ∨ s.k < 0
  · rw [if_pos hsizes, if_pos hsizes]
  rw [if_neg hsizes, if_neg hsizes]
  by_cases hempty : s.m = 0 ∨ s.n = 0
  · rw [if_pos hempty, if_pos hempty]
  rw [if_neg hempty, if_neg hempty]
  by_cases hoperands : 0 < s.k ∧ (s.a = 0 ∨ s.b = 0)
  · rw [if_pos hoperands, if_pos hoperands]
  rw [if_neg hoperands, if_neg hoperands]
  by_cases hc : s.c = 0
  · rw [if_pos hc, if_pos hc]
  rw [if_neg hc, if_neg hc]
  by_cases hld : s.lda < (if s.transa then s.k else s.m) ∨ s.ldb < (if s.transb then s.n else s.k) ∨
      s.ldc < s.m
  · rw [if_pos hld, if_pos hld]
  rw [if_neg hld, if_neg hld] <;> rfl

/-- A call on the engines is `grxblasGemmEx` with what the engines answer. -/
theorem gemmOnEngines_status {E F P : Type} (M : Machine) (current : ℕ) (G : Engines E F P) (s : EngineCall)
    (r : EngineReplies) (x : E × Chiplet F P) (ctx : Context) (l : LoadReplies) (h i8 : ShapeReplies)
    (g : GemmReplies) (hnpu : g.npu = (npuGemmPath G.npu s r.polls x.1).2)
    (hpta : g.pta = (ptaGemmPath G.pta s r.pta x.2).2)
    (hengine : decideGemmEngine M current s.types ≠ .gpuTensor) :
    (gemmOnEngines M current G s r x).2 =
      (grxblasGemmEx M current ctx s.toGemmExArgs l h i8 g).status := by
  rw [grxblasGemmEx_eq]
  unfold gemmOnEngines
  cases s.settled with
  | some status => rfl
  | none =>
    dsimp only
    cases hon : decideGemmEngine M current s.types with
    | none => rfl
    | npuC930 => exact hnpu.symm
    | ptaChiplet =>
      dsimp only
      by_cases htrans : s.transa = true ∨ s.transb = true
      · rw [if_pos htrans, if_pos htrans]
      · rw [if_neg htrans, if_neg htrans]
        exact hpta.symm
    | gpuTensor => exact absurd hon hengine

end Grxcp.Blas
