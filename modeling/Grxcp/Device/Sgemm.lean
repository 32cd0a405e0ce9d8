import Mathlib.Tactic

/-!
# The sgemm kernels

The kernels of `sgemm.cpp`: the plain `sgemm`, `sgemm_rb`, and `micro_tile_body` with its entry points,
each as what one thread does, over any multiplication and addition. Indices are `uint32_t` where the
kernel's are, and a `size_t` does not overflow here. `A`, `B` and `C` are memories by element, from the
address of the argument on; a thread's trace is what it reads of each, and the elements of `C` that it
stores, each as a function of what it read there. The cycle probe is left out.
-/

namespace Grxcp.Sgemm

/-- The arithmetic of `float`, and its test against zero. -/
structure Arith (F : Type) where
  zero : F
  add : F → F → F
  mul : F → F → F
  isZero : F → Bool

def GRXBLAS_SGEMM_ABI_VERSION : UInt32 := 3

def GRXBLAS_ABI_OP_T : UInt32 := 1

/-- `grxblas_sgemm_args`. -/
structure SgemmArgs (F : Type) where
  abiVersion : UInt32 := GRXBLAS_SGEMM_ABI_VERSION
  m : UInt32
  n : UInt32
  k : UInt32
  lda : UInt32
  ldb : UInt32
  ldc : UInt32
  transa : UInt32 := 0
  transb : UInt32 := 0
  alpha : F
  beta : F
  strideA : Int64 := 0
  strideB : Int64 := 0
  strideC : Int64 := 0

/-- A thread of a launch. -/
structure Thread where
  blockIdxX : UInt32
  blockIdxY : UInt32
  blockDimX : UInt32
  threadIdxX : UInt32

/-- `idx`. -/
def Thread.idx (t : Thread) : UInt32 :=
  t.blockIdxX * t.blockDimX + t.threadIdxX

/-- `C[at] = value`, of the `C[at]` that was there. -/
structure Store (F : Type) where
  addr : ℤ
  value : F → F

/-- What a thread reads of `A`, `B` and `C`, and what it stores. -/
structure Trace (F : Type) where
  a : List ℤ := []
  b : List ℤ := []
  c : List ℤ := []
  stores : List (Store F) := []

section Kernels

variable {F : Type} (f : Arith F) (A B : ℤ → F) (x : SgemmArgs F)

/-- `A`, `B` and `C` of a batch element, from where the argument points. -/
def SgemmArgs.offset (batch : UInt32) (stride : Int64) : ℤ :=
  batch.toNat * stride.toInt

/-- The value that goes to an element of `C`, which is not read when `beta` is zero. -/
def SgemmArgs.finish (acc c : F) : F :=
  if f.isZero x.beta then f.mul x.alpha acc else f.add (f.mul x.alpha acc) (f.mul x.beta c)

/-- The stores of a thread, with their reads of `C`. -/
def SgemmArgs.storeAll (a b : List ℤ) (outputs : List (ℤ × F)) : Trace F where
  a := a
  b := b
  c := if f.isZero x.beta then [] else outputs.map (·.1)
  stores := outputs.map fun o => ⟨o.1, x.finish f o.2⟩

/-- The subscript of `op(A)(row, l)`. -/
def SgemmArgs.aSub (row l : UInt32) : UInt32 :=
  if x.transa = GRXBLAS_ABI_OP_T then l + row * x.lda else row + l * x.lda

/-- The subscript of `op(B)(l, col)`. -/
def SgemmArgs.bSub (l col : UInt32) : UInt32 :=
  if x.transb = GRXBLAS_ABI_OP_T then col + l * x.ldb else l + col * x.ldb

/-- A loop over `l < k`. -/
def kLoop {S : Type} (k : UInt32) (body : S → UInt32 → S) (s : S) : S :=
  (List.range k.toNat).foldl (fun s l => body s (UInt32.ofNat l)) s

/-- The state of the loop of `sgemm`: the sum, and what was read. -/
structure PlainLoop (F : Type) where
  acc : F
  a : List ℤ := []
  b : List ℤ := []

/-- A round of it, for a row and a column of the batch element. -/
def PlainLoop.step (batch row col : UInt32) (s : PlainLoop F) (l : UInt32) : PlainLoop F :=
  let ai := SgemmArgs.offset batch x.strideA + ((x.aSub row l).toNat : ℤ)
  let bi := SgemmArgs.offset batch x.strideB + ((x.bSub l col).toNat : ℤ)
  { acc := f.add s.acc (f.mul (A ai) (B bi)), a := s.a ++ [ai], b := s.b ++ [bi] }

/-- `sgemm`. -/
def sgemm (t : Thread) : Trace F :=
  if x.abiVersion ≠ GRXBLAS_SGEMM_ABI_VERSION then {}
  else
    let c₀ := SgemmArgs.offset t.blockIdxY x.strideC
    if t.idx < x.m * x.n then
      let row := t.idx % x.m
      let col := t.idx / x.m
      let s := kLoop x.k (PlainLoop.step f A B x t.blockIdxY row col) { acc := f.zero }
      x.storeAll f s.a s.b [(c₀ + (row + col * x.ldc).toNat, s.acc)]
    else {}

/-- The state of the loop of `sgemm_rb`. -/
structure RbLoop (F : Type) where
  acc : ℕ → F
  a : List ℤ := []
  b : List ℤ := []

/-- A round of it: `B` is read once for all the rows. -/
def RbLoop.step (RM batch : UInt32) (row : ℕ → UInt32) (col : UInt32) (s : RbLoop F) (l : UInt32) :
    RbLoop F :=
  let bi := SgemmArgs.offset batch x.strideB + ((x.bSub l col).toNat : ℤ)
  let ai := fun i : ℕ => SgemmArgs.offset batch x.strideA + ((x.aSub (row i) l).toNat : ℤ)
  { acc := fun i => f.add (s.acc i) (f.mul (A (ai i)) (B bi))
    a := s.a ++ (List.range RM.toNat).map ai
    b := s.b ++ [bi] }

/-- `sgemm_rb`, of any register block. -/
def sgemmRb (RM : UInt32) (t : Thread) : Trace F :=
  if x.abiVersion ≠ GRXBLAS_SGEMM_ABI_VERSION then {}
  else
    let c₀ := SgemmArgs.offset t.blockIdxY x.strideC
    let rowBlocks := (x.m + RM - 1) / RM
    if x.m ≠ 0 ∧ t.idx < rowBlocks * x.n then
      let sub := t.idx % rowBlocks
      let col := t.idx / rowBlocks
      let r := fun i : ℕ => sub + UInt32.ofNat i * rowBlocks
      let live := fun i : ℕ => decide (r i < x.m)
      let row := fun i : ℕ => if live i then r i else x.m - 1
      let s := kLoop x.k (RbLoop.step f A B x RM t.blockIdxY row col) { acc := fun _ => f.zero }
      x.storeAll f s.a s.b (((List.range RM.toNat).filter live).map fun i =>
        (c₀ + ((row i).toNat + col.toNat * x.ldc.toNat : ℕ), s.acc i))
    else {}

/-- The state of the loop of `micro_tile_body`: the pointers, the sums, and what was read. -/
structure TileLoop (F : Type) where
  ap : ℕ → ℤ
  bp : ℕ → ℤ
  acc : ℕ → ℕ → F
  a : List ℤ := []
  b : List ℤ := []

/-- A round of it: each pointer is read and stepped. -/
def TileLoop.step (RM RN : UInt32) (aStep bStep : ℤ) (s : TileLoop F) (_ : UInt32) : TileLoop F where
  ap := fun i => s.ap i + aStep
  bp := fun j => s.bp j + bStep
  acc := fun i j => f.add (s.acc i j) (f.mul (A (s.ap i)) (B (s.bp j)))
  a := s.a ++ (List.range RM.toNat).map s.ap
  b := s.b ++ (List.range RN.toNat).map s.bp

/-- The pointers before the loop. -/
def TileLoop.start (batch : UInt32) (row col : ℕ → UInt32) : TileLoop F where
  ap := fun i => SgemmArgs.offset batch x.strideA +
    (if x.transa = GRXBLAS_ABI_OP_T then (row i).toNat * x.lda.toNat else (row i).toNat : ℕ)
  bp := fun j => SgemmArgs.offset batch x.strideB +
    (if x.transb = GRXBLAS_ABI_OP_T then (col j).toNat else (col j).toNat * x.ldb.toNat : ℕ)
  acc := fun _ _ => f.zero

/-- `micro_tile_body`. -/
def microTileBody (RM RN : UInt32) (INTERIOR : Bool) (t : Thread) : Trace F :=
  let c₀ := SgemmArgs.offset t.blockIdxY x.strideC
  let rowBlocks := (x.m + RM - 1) / RM
  let colBlocks := (x.n + RN - 1) / RN
  if x.m ≠ 0 ∧ x.n ≠ 0 ∧ t.idx < rowBlocks * colBlocks then
    let sub := t.idx % rowBlocks
    let cb := t.idx / rowBlocks
    let r := fun i : ℕ => sub + UInt32.ofNat i * rowBlocks
    let rowLive := fun i : ℕ => if INTERIOR then true else decide (r i < x.m)
    let row := fun i : ℕ => if INTERIOR then r i else if rowLive i then r i else x.m - 1
    let c := fun j : ℕ => cb * RN + UInt32.ofNat j
    let colLive := fun j : ℕ => if INTERIOR then true else decide (c j < x.n)
    let col := fun j : ℕ => if INTERIOR then c j else if colLive j then c j else x.n - 1
    let aStep : ℤ := if x.transa = GRXBLAS_ABI_OP_T then 1 else x.lda.toNat
    let bStep : ℤ := if x.transb = GRXBLAS_ABI_OP_T then x.ldb.toNat else 1
    let s := kLoop x.k (TileLoop.step f A B RM RN aStep bStep) (TileLoop.start f x t.blockIdxY row col)
    x.storeAll f s.a s.b (((List.range RN.toNat).filter fun j => INTERIOR || colLive j).flatMap fun j =>
      ((List.range RM.toNat).filter fun i => INTERIOR || rowLive i).map fun i =>
        (c₀ + ((row i).toNat + (col j).toNat * x.ldc.toNat : ℕ), s.acc i j))
  else {}

/-- The entry points of `micro_tile_body`. -/
def microTile (RM RN : UInt32) (INTERIOR : Bool) (t : Thread) : Trace F :=
  if x.abiVersion ≠ GRXBLAS_SGEMM_ABI_VERSION then {} else microTileBody f A B x RM RN INTERIOR t

def kRbRows : UInt32 := 4

def kTwoDRows : UInt32 := 2

def kTwoDCols : UInt32 := 2

def kWideRows : UInt32 := 4

def kWideCols : UInt32 := 4

def kMidRows : UInt32 := 4

def kMidCols : UInt32 := 2

/-- `sgemm_2d`. -/
def sgemm2d : Thread → Trace F :=
  microTile f A B x kTwoDRows kTwoDCols false

/-- `sgemm_2d_i`. -/
def sgemm2dI : Thread → Trace F :=
  microTile f A B x kTwoDRows kTwoDCols true

/-- `sgemm_4x4`. -/
def sgemm4x4 : Thread → Trace F :=
  microTile f A B x kWideRows kWideCols false

/-- `sgemm_4x2`. -/
def sgemm4x2 : Thread → Trace F :=
  microTile f A B x kMidRows kMidCols false

end Kernels

/-! ## Launches -/

/-- A grid of blocks: `gridDim.x`, `gridDim.y`, which is the batch, and `blockDim.x`. -/
structure Grid where
  x : UInt32
  batch : UInt32
  block : UInt32

/-- The threads of a batch element. -/
def Grid.threads (g : Grid) (batch : UInt32) : List Thread :=
  (List.range g.x.toNat).flatMap fun b => (List.range g.block.toNat).map fun t =>
    { blockIdxX := UInt32.ofNat b, blockIdxY := batch, blockDimX := g.block, threadIdxX := UInt32.ofNat t }

/-- The batch elements. -/
def Grid.batches (g : Grid) : List UInt32 :=
  (List.range g.batch.toNat).map UInt32.ofNat

/-- What the threads of a batch element store. -/
def Grid.stores {F : Type} (g : Grid) (kernel : Thread → Trace F) (batch : UInt32) : List (Store F) :=
  (g.threads batch).flatMap fun t => (kernel t).stores

/-- What a launch stores. -/
def Grid.allStores {F : Type} (g : Grid) (kernel : Thread → Trace F) : List (Store F) :=
  g.batches.flatMap fun batch => g.stores kernel batch

/-- `C` after a store. -/
def Store.run {F : Type} (C : ℤ → F) (s : Store F) : ℤ → F := fun p =>
  if p = s.addr then s.value (C p) else C p

end Grxcp.Sgemm
