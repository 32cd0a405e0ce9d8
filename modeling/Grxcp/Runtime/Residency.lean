import Mathlib.Algebra.Order.Floor.Div
import Grxcp.Lib.Words
import Grxcp.Runtime.LaunchBounds

/-!
# Resident blocks

A core keeps blocks resident as far as its warps, its block slots and its local memory go
(`Core.Resident`), and the greatest such number is a minimum of quotients (`Core.most_isGreatest`). The
code computes that number for every block of an `int` of threads (`residentBlocksPerSm_eq`). A cooperative
launch asks for it with the block's threads modulo `2 ^ 32` and compares it with the grid's blocks modulo
`2 ^ 64`; so what it accepts can be resident if no count wraps, and may hang the device if one does.
-/

namespace Grxcp.Runtime

/-! ## A core -/

/-- What a core has for blocks. -/
structure Core where
  warpSize : ℕ
  warps : ℕ
  localMem : ℕ
  granule : ℕ
deriving DecidableEq, Repr

/-- `n` blocks of as many threads and local bytes are resident together: the warps of each are its own,
each has a slot, and each has a stride of local memory. -/
structure Core.Resident (c : Core) (threads bytes n : ℕ) : Prop where
  warps : n * (threads ⌈/⌉ c.warpSize) ≤ c.warps
  slots : n ≤ c.warps
  shared : n * (bytes ⌈/⌉ c.granule * c.granule) ≤ c.localMem

/-- The most blocks that are resident together. -/
def Core.most (c : Core) (threads bytes : ℕ) : ℕ :=
  let bySharing := if bytes = 0 then c.warps else c.localMem / (bytes ⌈/⌉ c.granule * c.granule)
  min (min (c.warps / (threads ⌈/⌉ c.warpSize)) c.warps) bySharing

section Core

variable {c : Core} {threads bytes n : ℕ}

theorem ceilDiv_pos {a b : ℕ} (ha : 0 < a) (hb : 0 < b) : 0 < a ⌈/⌉ b := by
  rw [Nat.ceilDiv_eq_add_pred_div]
  exact Nat.div_pos (by omega) hb

theorem Core.resident_iff (hw : 0 < c.warpSize) (hg : 0 < c.granule) (ht : 0 < threads) :
    c.Resident threads bytes n ↔ n ≤ c.most threads bytes := by
  have hwarps := Nat.le_div_iff_mul_le (x := n) (y := c.warps) (ceilDiv_pos ht hw)
  unfold most
  dsimp only
  rw [le_min_iff, le_min_iff, hwarps]
  by_cases hb : bytes = 0
  · subst hb
    rw [if_pos rfl]
    constructor
    · rintro ⟨hwarps, hslots, -⟩
      exact ⟨⟨hwarps, hslots⟩, hslots⟩
    · rintro ⟨⟨hwarps, hslots⟩, -⟩
      exact ⟨hwarps, hslots, by simp⟩
  · have hstride : 0 < bytes ⌈/⌉ c.granule * c.granule :=
      Nat.mul_pos (ceilDiv_pos (Nat.pos_of_ne_zero hb) hg) hg
    rw [if_neg hb, Nat.le_div_iff_mul_le hstride]
    constructor
    · rintro ⟨hwarps, hslots, hshared⟩
      exact ⟨⟨hwarps, hslots⟩, hshared⟩
    · rintro ⟨⟨hwarps, hslots⟩, hshared⟩
      exact ⟨hwarps, hslots, hshared⟩

theorem Core.most_resident (hw : 0 < c.warpSize) (hg : 0 < c.granule) (ht : 0 < threads) :
    c.Resident threads bytes (c.most threads bytes) :=
  (resident_iff hw hg ht).mpr le_rfl

/-- The most is the greatest of them. -/
theorem Core.most_isGreatest (hw : 0 < c.warpSize) (hg : 0 < c.granule) (ht : 0 < threads) :
    IsGreatest {n | c.Resident threads bytes n} (c.most threads bytes) :=
  ⟨most_resident hw hg ht, fun _ hn => (resident_iff hw hg ht).mp hn⟩

theorem Core.most_le_warps (c : Core) (threads bytes : ℕ) : c.most threads bytes ≤ c.warps :=
  (min_le_left _ _).trans (min_le_right _ _)

/-- A block of more threads than the core has lanes is not resident. -/
theorem Core.Resident.threads_le (h : c.Resident threads bytes n) (hw : 0 < c.warpSize) (hn : 0 < n) :
    threads ≤ c.warpSize * c.warps := by
  have hle : threads ⌈/⌉ c.warpSize ≤ c.warps :=
    (Nat.le_mul_of_pos_left _ hn).trans h.warps
  exact (ceilDiv_le_iff_le_mul hw).mp hle

/-- Neither is one of more bytes than the core has. -/
theorem Core.Resident.bytes_le (h : c.Resident threads bytes n) (hg : 0 < c.granule) (hn : 0 < n) :
    bytes ≤ c.localMem := by
  have hle : bytes ≤ c.granule * (bytes ⌈/⌉ c.granule) := (ceilDiv_le_iff_le_mul hg).mp le_rfl
  rw [mul_comm] at hle
  exact hle.trans ((Nat.le_mul_of_pos_left _ hn).trans h.shared)

end Core

/-! ## The code's count -/

/-- The core that the properties describe. -/
def DeviceProp.core (prop : DeviceProp) : Core where
  warpSize := prop.warpSize.toInt.toNat
  warps := prop.maxWarpsPerMultiProcessor.toInt.toNat
  localMem := prop.sharedMemPerMultiprocessor.toNat
  granule := if 0 < prop.cacheLineSize then prop.cacheLineSize.toInt.toNat else 64

/-- The number of cores. -/
def DeviceProp.cores (prop : DeviceProp) : ℕ :=
  prop.multiProcessorCount.toInt.toNat

/-- What the driver reports fits the ints that the properties keep it in, and so do the lanes of a core
with another warp and the warps of the device. -/
structure Caps.Fits (c : Caps) : Prop where
  lanes : c.numThreads.toNat * c.numWarps.toNat + c.numThreads.toNat < 2 ^ 31
  warps : c.numWarps.toNat * c.numCores.toNat + c.numWarps.toNat + c.numCores.toNat < 2 ^ 31
  localMem : c.localMemSize.toNat < 2 ^ 31
  line : c.cacheLineSize.toNat < 2 ^ 31

/-- The driver's report of the device fits. -/
def TableDevice.Fits : TableDevice → Prop
  | .gpu caps => caps.Fits
  | .npu => True
  | .pta => True

/-- Properties that the code counts with as with numbers. -/
structure DeviceProp.Sane (prop : DeviceProp) : Prop where
  warpSize : 0 ≤ prop.warpSize.toInt
  warps : 0 ≤ prop.maxWarpsPerMultiProcessor.toInt
  count : 0 ≤ prop.multiProcessorCount.toInt
  lanes : prop.core.warpSize * prop.core.warps + prop.core.warpSize < 2 ^ 31
  maxThreads : prop.maxThreadsPerBlock.toInt = prop.core.warpSize * prop.core.warps
  grid : prop.core.warps * prop.cores < 2 ^ 31
  localMem : prop.core.localMem < 2 ^ 31
  perBlock : prop.sharedMemPerBlock = prop.sharedMemPerMultiprocessor

theorem toInt_toInt {v : UInt64} (h : v.toNat < 2 ^ 31) : (toInt v).toInt = v.toNat := by
  have hcast : v.toUInt32.toNat = v.toNat := by
    rw [UInt64.toNat_toUInt32]
    exact Nat.mod_eq_of_lt (by omega)
  unfold toInt
  rw [Words.toInt32_toInt (by omega), hcast]

theorem Caps.Fits.sane {caps : Caps} (h : caps.Fits) : (TableDevice.gpu caps).prop.Sane := by
  obtain ⟨hlanes, hwarps, hlocal, hline⟩ := h
  have hthreads : (toInt caps.numThreads).toInt = caps.numThreads.toNat := toInt_toInt (by omega)
  have hw : (toInt caps.numWarps).toInt = caps.numWarps.toNat := toInt_toInt (by omega)
  have hc : (toInt caps.numCores).toInt = caps.numCores.toNat := toInt_toInt (by omega)
  have hmul : (toInt caps.numThreads * toInt caps.numWarps).toInt =
      (toInt caps.numThreads).toInt * (toInt caps.numWarps).toInt := by
    apply Words.int32_mul_of_range
    · rw [hthreads, hw]
      have := Int.natCast_nonneg (caps.numThreads.toNat * caps.numWarps.toNat)
      push_cast at this
      omega
    · rw [hthreads, hw]
      have hlt : ((caps.numThreads.toNat * caps.numWarps.toNat : ℕ) : ℤ) < 2 ^ 31 := by omega
      push_cast at hlt
      exact hlt
  have hcore : (TableDevice.gpu caps).prop.core.warpSize = caps.numThreads.toNat := by
    show (toInt caps.numThreads).toInt.toNat = _
    rw [hthreads, Int.toNat_natCast]
  have hcores : (TableDevice.gpu caps).prop.core.warps = caps.numWarps.toNat := by
    show (toInt caps.numWarps).toInt.toNat = _
    rw [hw, Int.toNat_natCast]
  have hcount : (TableDevice.gpu caps).prop.cores = caps.numCores.toNat := by
    show (toInt caps.numCores).toInt.toNat = _
    rw [hc, Int.toNat_natCast]
  refine ⟨?_, ?_, ?_, ?_, ?_, ?_, hlocal, rfl⟩
  · show 0 ≤ (toInt caps.numThreads).toInt
    omega
  · show 0 ≤ (toInt caps.numWarps).toInt
    omega
  · show 0 ≤ (toInt caps.numCores).toInt
    omega
  · rw [hcore, hcores]
    exact hlanes
  · rw [hcore, hcores, ← hthreads, ← hw, ← hmul]
    rfl
  · rw [hcores, hcount]
    omega

theorem TableDevice.Fits.sane {t : TableDevice} (h : t.Fits) : t.prop.Sane := by
  cases t with
  | gpu caps => exact Caps.Fits.sane h
  | npu => constructor <;> decide
  | pta => constructor <;> decide

section Count

variable {prop : DeviceProp} {blockSize : Int32} {smem : UInt64}

theorem int32_pos_iff {v : Int32} : 0 < v ↔ 0 < v.toInt :=
  Int32.lt_iff_toInt_lt

theorem DeviceProp.granule_pos (prop : DeviceProp) : 0 < prop.core.granule := by
  show 0 < if 0 < prop.cacheLineSize then prop.cacheLineSize.toInt.toNat else 64
  split
  next h =>
    have hpos := int32_pos_iff.mp h
    omega
  next => decide

theorem DeviceProp.granule_lt (prop : DeviceProp) : prop.core.granule < 2 ^ 31 := by
  show (if 0 < prop.cacheLineSize then prop.cacheLineSize.toInt.toNat else 64) < _
  have hlt := prop.cacheLineSize.toInt_lt
  split <;> omega

/-- The granule, as the code has it. -/
theorem toNat_granule (prop : DeviceProp) :
    (if 0 < prop.cacheLineSize then prop.cacheLineSize.toInt64.toUInt64 else 64 : UInt64).toNat =
      prop.core.granule := by
  show _ = if 0 < prop.cacheLineSize then prop.cacheLineSize.toInt.toNat else 64
  split
  next h => exact Words.toUInt64_toNat (int32_pos_iff.mp h).le
  next => rfl

/-- The warps of a block. The sum may leave the `int`; then the quotient is not positive. -/
theorem warpsPerCta_cases (h : prop.Sane) (hw : 0 < prop.core.warpSize) (hb : 0 < blockSize.toInt) :
    (((blockSize + prop.warpSize - 1) / prop.warpSize).toInt =
        (blockSize.toInt.toNat ⌈/⌉ prop.core.warpSize : ℕ)) ∨
      (((blockSize + prop.warpSize - 1) / prop.warpSize).toInt ≤ 0 ∧
        2 ^ 31 ≤ blockSize.toInt.toNat + prop.core.warpSize - 1) := by
  have hwarp : (prop.core.warpSize : ℤ) = prop.warpSize.toInt := Int.toNat_of_nonneg h.warpSize
  have hblock : (blockSize.toInt.toNat : ℤ) = blockSize.toInt := Int.toNat_of_nonneg hb.le
  have hblt := blockSize.toInt_lt
  have hwlt := prop.warpSize.toInt_lt
  have hsum : (blockSize + prop.warpSize - 1).toInt =
      (blockSize.toInt + prop.warpSize.toInt - 1).bmod (2 ^ 32) := by
    rw [Int32.toInt_sub, Int32.toInt_add, Int.bmod_sub_bmod]
    rfl
  by_cases hlt : blockSize.toInt + prop.warpSize.toInt - 1 < 2 ^ 31
  · left
    rw [Int.bmod_eq_of_le (by omega) (by omega)] at hsum
    rw [Words.int32_div_of_nonneg (by omega) h.warpSize, hsum, Nat.ceilDiv_eq_add_pred_div,
      Int.natCast_ediv, Nat.cast_sub (by omega), Nat.cast_add, hwarp, hblock, Nat.cast_one]
  · right
    refine ⟨?_, by omega⟩
    have hneg : (blockSize + prop.warpSize - 1).toInt =
        -(2 ^ 32 - (blockSize.toInt + prop.warpSize.toInt - 1)) := by
      rw [hsum, ← Int.sub_bmod_right]
      rw [Int.bmod_eq_of_le (by omega) (by omega)]
      push_cast
      ring
    have hnonneg := Int.ediv_nonneg (a := 2 ^ 32 - (blockSize.toInt + prop.warpSize.toInt - 1))
      (b := prop.warpSize.toInt) (by omega) h.warpSize
    have hle := Int.ediv_le_self (a := 2 ^ 32 - (blockSize.toInt + prop.warpSize.toInt - 1))
      prop.warpSize.toInt (by omega)
    rw [Int32.toInt_div, hneg, Int.neg_tdiv, Int.tdiv_eq_ediv_of_nonneg (by omega),
      Int.bmod_eq_of_le (by omega) (by omega)]
    omega

/-- The blocks that the local memory has room for. -/
theorem smemBound_eq (h : prop.Sane) (hs : smem.toNat + prop.core.granule ≤ 2 ^ 64) (hpos : 0 < smem) :
    let granule : UInt64 :=
      if 0 < prop.cacheLineSize then prop.cacheLineSize.toInt64.toUInt64 else 64
    let stride := (smem + granule - 1) / granule * granule
    stride ≠ 0 ∧ (toInt (prop.sharedMemPerMultiprocessor / stride)).toInt =
      (prop.core.localMem / (smem.toNat ⌈/⌉ prop.core.granule * prop.core.granule) : ℕ) := by
  intro granule stride
  have hg := prop.granule_pos
  have hgranule : granule.toNat = prop.core.granule := toNat_granule prop
  have hbytes : 0 < smem.toNat := UInt64.lt_iff_toNat_lt.mp hpos
  have hadd : (smem + granule - 1).toNat = smem.toNat + prop.core.granule - 1 := by
    rw [UInt64.toNat_sub, UInt64.toNat_add, hgranule, show (1 : UInt64).toNat = 1 from rfl]
    omega
  have hround : smem.toNat ⌈/⌉ prop.core.granule * prop.core.granule ≤
      smem.toNat + prop.core.granule - 1 := by
    rw [Nat.ceilDiv_eq_add_pred_div]
    exact Nat.div_mul_le_self _ _
  have hstride : stride.toNat = smem.toNat ⌈/⌉ prop.core.granule * prop.core.granule := by
    rw [UInt64.toNat_mul, UInt64.toNat_div, hadd, hgranule, ← Nat.ceilDiv_eq_add_pred_div]
    exact Nat.mod_eq_of_lt (by omega)
  constructor
  · intro hzero
    have hpos := Nat.mul_pos (ceilDiv_pos hbytes hg) hg
    rw [← hstride, hzero] at hpos
    exact absurd hpos (by decide)
  · have hquot : (prop.sharedMemPerMultiprocessor / stride).toNat = prop.core.localMem / stride.toNat :=
      UInt64.toNat_div _ _
    have hle := Nat.div_le_self prop.core.localMem stride.toNat
    have hlocal := h.localMem
    rw [toInt_toInt (by omega), hquot, hstride]

/-- The least of three bounds, as the code takes it. -/
theorem toInt_least {x y z : Int32} {a b c : ℕ} (hx : x.toInt = a) (hy : y.toInt = b)
    (hz : z.toInt = c) :
    (let n := x
      let n := if y < n then y else n
      let n := if z < n then z else n
      if n < 0 then 0 else n : Int32).toInt = (min (min a b) c : ℕ) := by
  have hmin : ∀ {v w : Int32} {d e : ℕ}, v.toInt = d → w.toInt = e →
      (if w < v then w else v).toInt = (min d e : ℕ) := by
    intro v w d e hv hw
    split
    next hlt =>
      rw [Int32.lt_iff_toInt_lt] at hlt
      omega
    next hlt =>
      rw [Int32.lt_iff_toInt_lt] at hlt
      omega
  have hleast := hmin (hmin hx hy) hz
  dsimp only
  rw [if_neg, hleast]
  rw [Int32.lt_iff_toInt_lt, hleast, show (0 : Int32).toInt = 0 from rfl]
  omega

/-- What the code counts is the most. -/
theorem residentBlocksPerSm_eq (h : prop.Sane) (hw : 0 < prop.core.warpSize)
    (hb : 0 < blockSize.toInt) (hs : smem.toNat + prop.core.granule ≤ 2 ^ 64) :
    (residentBlocksPerSm prop blockSize smem).toInt =
      prop.core.most blockSize.toInt.toNat smem.toNat := by
  have hwarps : (prop.core.warps : ℤ) = prop.maxWarpsPerMultiProcessor.toInt :=
    Int.toNat_of_nonneg h.warps
  have hwarp : (prop.core.warpSize : ℤ) = prop.warpSize.toInt := Int.toNat_of_nonneg h.warpSize
  have hpositive : ¬ (blockSize ≤ 0 ∨ prop.warpSize ≤ 0) := by
    rw [Int32.le_iff_toInt_le, Int32.le_iff_toInt_le, show (0 : Int32).toInt = 0 from rfl]
    omega
  unfold residentBlocksPerSm
  rw [if_neg hpositive]
  dsimp only
  rcases warpsPerCta_cases h hw hb with hcta | ⟨hcta, hbig⟩
  · have hceil : 0 < blockSize.toInt.toNat ⌈/⌉ prop.core.warpSize := ceilDiv_pos (by omega) hw
    have hctapos : ¬ (blockSize + prop.warpSize - 1) / prop.warpSize ≤ 0 := by
      rw [Int32.le_iff_toInt_le, hcta, show (0 : Int32).toInt = 0 from rfl]
      omega
    have hbound : (prop.maxWarpsPerMultiProcessor /
        ((blockSize + prop.warpSize - 1) / prop.warpSize)).toInt =
          (prop.core.warps / (blockSize.toInt.toNat ⌈/⌉ prop.core.warpSize) : ℕ) := by
      rw [Words.int32_div_of_nonneg h.warps (by omega), hcta, ← hwarps, Int.natCast_ediv]
    rw [if_neg hctapos]
    unfold Core.most
    by_cases hpos : 0 < smem
    · obtain ⟨hstride, hsmem⟩ := smemBound_eq h hs hpos
      have hne : smem.toNat ≠ 0 := (UInt64.lt_iff_toNat_lt.mp hpos).ne'
      rw [if_pos hpos, if_neg hstride, if_neg hne]
      exact toInt_least hbound hwarps.symm hsmem
    · have hzero : smem.toNat = 0 := by
        rw [UInt64.lt_iff_toNat_lt] at hpos
        exact Nat.eq_zero_of_not_pos hpos
      rw [if_neg hpos, if_pos hzero]
      exact toInt_least hbound hwarps.symm hwarps.symm
  · have hlt : prop.core.warps < blockSize.toInt.toNat ⌈/⌉ prop.core.warpSize := by
      rw [Nat.ceilDiv_eq_add_pred_div]
      apply (Nat.le_div_iff_mul_le hw).mpr
      have hlanes := h.lanes
      have hmul : (prop.core.warps + 1) * prop.core.warpSize =
          prop.core.warpSize * prop.core.warps + prop.core.warpSize := by ring
      show (prop.core.warps + 1) * prop.core.warpSize ≤ _
      omega
    have hctaneg : (blockSize + prop.warpSize - 1) / prop.warpSize ≤ 0 := Int32.le_iff_toInt_le.mpr hcta
    rw [if_pos hctaneg]
    unfold Core.most
    dsimp only
    rw [Nat.div_eq_of_lt hlt, Nat.zero_min, Nat.zero_min]
    rfl

/-! ## A cooperative launch -/

/-- The check of a cooperative launch, on numbers. -/
structure Admitted (prop : DeviceProp) (threads bytes blocks : ℕ) : Prop where
  warp : 0 < prop.core.warpSize
  count : 0 < threads ∧ threads < 2 ^ 31
  resident : 0 < prop.core.most threads bytes
  each : prop.cores ≤ blocks
  all : blocks ≤ prop.core.most threads bytes * prop.cores

theorem toNat_blocks (grid : Dim3) :
    ((orOne grid.x).toUInt64 * (orOne grid.y).toUInt64 * (orOne grid.z).toUInt64).toNat =
      grid.count % 2 ^ 64 := by
  unfold Dim3.count
  rw [UInt64.toNat_mul, UInt64.toNat_mul, Nat.mod_mul_mod, UInt32.toNat_toUInt64, UInt32.toNat_toUInt64,
    UInt32.toNat_toUInt64]

/-- A block of no thread, or of more than an `int` holds, is resident nowhere. -/
theorem residentBlocksPerSm_of_le (hle : blockSize.toInt ≤ 0 ∨ prop.warpSize.toInt ≤ 0) :
    residentBlocksPerSm prop blockSize smem = 0 := by
  have hor : blockSize ≤ 0 ∨ prop.warpSize ≤ 0 := by
    rw [Int32.le_iff_toInt_le, Int32.le_iff_toInt_le]
    exact hle
  unfold residentBlocksPerSm
  rw [if_pos hor]

/-- The block's threads as the code has them: a positive `int`, or not. -/
theorem toInt_volume_pos (block : Dim3) : 0 < (volume block).toInt32.toInt ↔
    0 < block.count % 2 ^ 32 ∧ block.count % 2 ^ 32 < 2 ^ 31 := by
  rw [toInt_volume, ← Int.emod_bmod]
  have hlt := Nat.mod_lt block.count (show 0 < 2 ^ 32 by decide)
  by_cases hsmall : block.count % 2 ^ 32 < 2 ^ 31
  · rw [Int.bmod_eq_of_le (by omega) (by omega)]
    omega
  · have hneg : ((block.count : ℤ) % (2 ^ 32 : ℕ)).bmod (2 ^ 32) =
        (block.count : ℤ) % (2 ^ 32 : ℕ) - 2 ^ 32 := by
      rw [← Int.sub_bmod_right]
      exact Int.bmod_eq_of_le (by omega) (by omega)
    rw [hneg]
    omega

theorem toInt_volume_of_pos {block : Dim3} (h : 0 < (volume block).toInt32.toInt) :
    (volume block).toInt32.toInt.toNat = block.count % 2 ^ 32 := by
  obtain ⟨-, hlt⟩ := (toInt_volume_pos block).mp h
  rw [toInt_volume, ← Int.emod_bmod, Int.bmod_eq_of_le (by omega) (by omega)]
  omega

/-- The check passes the numbers that it has. -/
theorem checkCooperative_eq_none_iff {grid block : Dim3} (h : prop.Sane)
    (hs : smem.toNat + prop.core.granule ≤ 2 ^ 64) :
    checkCooperative prop grid block smem = none ↔
      Admitted prop (block.count % 2 ^ 32) smem.toNat (grid.count % 2 ^ 64) := by
  have hwarp : (prop.core.warpSize : ℤ) = prop.warpSize.toInt := Int.toNat_of_nonneg h.warpSize
  by_cases hpos : 0 < (volume block).toInt32.toInt ∧ 0 < prop.warpSize.toInt
  swap
  · have hzero : residentBlocksPerSm prop (volume block).toInt32 smem = 0 :=
      residentBlocksPerSm_of_le (by omega)
    unfold checkCooperative
    rw [hzero]
    constructor
    · intro hnone
      exact absurd hnone (by simp)
    · intro hadmitted
      have hvolume := (toInt_volume_pos block).mpr hadmitted.count
      have hwarpSize := hadmitted.warp
      omega
  obtain ⟨hblock, hwarpSize⟩ := hpos
  have hper := residentBlocksPerSm_eq h (by omega) hblock hs
  rw [toInt_volume_of_pos hblock] at hper
  set perSm := residentBlocksPerSm prop (volume block).toInt32 smem with hperSm
  set n := prop.core.most (block.count % 2 ^ 32) smem.toNat with hn
  have hcores : prop.multiProcessorCount.toInt64.toUInt64.toNat = prop.cores :=
    Words.toUInt64_toNat h.count
  have hn64 : perSm.toInt64.toUInt64.toNat = n := by
    rw [Words.toUInt64_toNat (by omega), hper, Int.toNat_natCast]
  have hbound : n * prop.cores < 2 ^ 31 :=
    lt_of_le_of_lt (Nat.mul_le_mul_right _ (prop.core.most_le_warps _ _)) h.grid
  have hmul : (perSm.toInt64.toUInt64 * prop.multiProcessorCount.toInt64.toUInt64).toNat =
      n * prop.cores := by
    rw [UInt64.toNat_mul, hn64, hcores]
    exact Nat.mod_eq_of_lt (by omega)
  have hnone : checkCooperative prop grid block smem = none ↔
      0 < n ∧ grid.count % 2 ^ 64 ≤ n * prop.cores ∧ prop.cores ≤ grid.count % 2 ^ 64 := by
    unfold checkCooperative
    dsimp only
    rw [← hperSm]
    have hle : perSm ≤ 0 ↔ ¬ 0 < n := by
      rw [Int32.le_iff_toInt_le, hper, show (0 : Int32).toInt = 0 from rfl]
      omega
    simp only [hle, UInt64.lt_iff_toNat_lt, hmul, hcores, toNat_blocks]
    split_ifs <;> simp_all
  rw [hnone]
  constructor
  · rintro ⟨hresident, hall, heach⟩
    exact ⟨by omega, (toInt_volume_pos block).mp hblock, hresident, heach, hall⟩
  · intro hadmitted
    exact ⟨hadmitted.resident, hadmitted.all, hadmitted.each⟩

end Count

/-- The blocks of a launch are resident together, and every core has one: a barrier of the grid is met. -/
structure Coresident (prop : DeviceProp) (k : KernelBinding) (grid block : Dim3) (shared : UInt64) :
    Prop where
  each : prop.cores ≤ grid.count
  all : ∃ n, IsGreatest {n | prop.core.Resident block.count (sharedBytes k shared) n} n ∧
    grid.count ≤ n * prop.cores

/-- What is accepted is resident, through either entry. -/
structure CooperativeExact (t : TableDevice) (k : KernelBinding) (grid block : Dim3)
    (shared : UInt64) : Prop where
  function : ∀ (P : Platform) (s s' : Streams) (args : Blob) (stream : Option ℕ) (r : LaunchReplies)
    (info : LaunchInfo),
    grxLaunchCooperativeFunction P s t.prop k grid block args shared stream r = (s', .ok info) →
      Coresident t.prop k grid block shared
  kernelEx : ∀ (P : Platform) (s s' : Streams) (cluster : Dim3) (stream : Option ℕ)
    (attributes : List LaunchAttribute) (args : Option (ℕ → Option (List UInt8))) (device : ℕ)
    (r : LaunchReplies) (info : LaunchInfo), readAttributes attributes ({}, false) = .ok (cluster, true) →
    grxLaunchKernelEx P s t.prop k ⟨grid, block, shared, stream, attributes⟩ args device r =
      (s', .ok info) →
      Coresident t.prop k grid block shared

/-- A check of the code meets the cooperative launch, with the numbers that the code has. -/
def CooperativeExcluded (prop : DeviceProp) (k : KernelBinding) (grid block : Dim3)
    (shared : UInt64) : Prop :=
  Excluded prop k grid block shared ∨ prop.capabilities &&& GRX_CAP_COOPERATIVE_LAUNCH = 0 ∨
    ¬ Admitted prop (block.count % 2 ^ 32) (sharedBytes k shared % 2 ^ 64) (grid.count % 2 ^ 64)

section Cooperative

variable {t : TableDevice} {prop : DeviceProp} {k : KernelBinding} {grid block : Dim3}
  {shared : UInt64}

/-- A launch that its checks pass has no more bytes than a core, so their rounding does not wrap. -/
theorem granule_of_not_excluded (h : prop.Sane) (hexcluded : ¬ Excluded prop k grid block shared) :
    (shared + k.staticSmem.toUInt64).toNat + prop.core.granule ≤ 2 ^ 64 := by
  unfold Excluded at hexcluded
  push Not at hexcluded
  obtain ⟨-, -, -, -, -, hbytes⟩ := hexcluded
  rw [toNat_shared]
  rw [h.perBlock] at hbytes
  have hlocal : prop.sharedMemPerMultiprocessor.toNat < 2 ^ 31 := h.localMem
  have hgranule := prop.granule_lt
  omega

theorem not_cooperativeExcluded (h : prop.Sane) (hvalid : validate prop k grid block shared = none)
    (hcap : prop.capabilities &&& GRX_CAP_COOPERATIVE_LAUNCH ≠ 0)
    (hcheck : checkCooperative prop grid block (shared + k.staticSmem.toUInt64) = none) :
    ¬ CooperativeExcluded prop k grid block shared := by
  have hexcluded := validate_eq_none_iff.mp hvalid
  have hadmitted :=
    (checkCooperative_eq_none_iff h (granule_of_not_excluded h hexcluded)).mp hcheck
  rw [toNat_shared] at hadmitted
  rintro (hout | hzero | hnot)
  · exact hexcluded hout
  · exact hcap hzero
  · exact hnot hadmitted

/-- A launch that is accepted has met no check. -/
theorem cooperativeFunction_accepted (h : prop.Sane) {P : Platform} {s s' : Streams} {args : Blob}
    {stream : Option ℕ} {r : LaunchReplies} {info : LaunchInfo}
    (hok : grxLaunchCooperativeFunction P s prop k grid block args shared stream r = (s', .ok info)) :
    ¬ CooperativeExcluded prop k grid block shared := by
  unfold grxLaunchCooperativeFunction at hok
  split at hok
  · cases hok
  split at hok
  · cases hok
  next hcap =>
  split at hok
  · cases hok
  next hcheck =>
  rcases launchCommon_cases P s prop k grid block {} shared args k.device stream r with
    ⟨⟨e, he⟩, -⟩ | ⟨hvalid, -⟩
  · rw [hok] at he
    cases he
  · exact not_cooperativeExcluded h hvalid hcap hcheck

theorem kernelEx_accepted (h : prop.Sane) {P : Platform} {s s' : Streams} {cluster : Dim3}
    {config : LaunchConfig} {args : Option (ℕ → Option (List UInt8))} {device : ℕ} {r : LaunchReplies}
    {info : LaunchInfo} (hattrs : readAttributes config.attributes ({}, false) = .ok (cluster, true))
    (hok : grxLaunchKernelEx P s prop k config args device r = (s', .ok info)) :
    ¬ CooperativeExcluded prop k config.gridDim config.blockDim config.dynamicSharedMem := by
  unfold grxLaunchKernelEx at hok
  rw [hattrs] at hok
  dsimp only at hok
  split at hok
  · cases hok
  split at hok
  · cases hok
  next hcap =>
  rw [if_pos rfl] at hok
  split at hok
  · cases hok
  next hcheck =>
  split at hok
  · cases hok
  next blob hpack =>
  rcases launchCommon_cases P s prop k config.gridDim config.blockDim cluster config.dynamicSharedMem
    blob device config.stream r with ⟨⟨e, he⟩, -⟩ | ⟨hvalid, -⟩
  · rw [hok] at he
    cases he
  · exact not_cooperativeExcluded h hvalid (fun hzero => hcap ⟨rfl, hzero⟩) hcheck

/-- Counts that have not wrapped are those that were checked. -/
theorem coresident_of_not_excluded (hexcluded : ¬ CooperativeExcluded prop k grid block shared)
    (hthreads : block.count < 2 ^ 32) (hblocks : grid.count < 2 ^ 64)
    (hbytes : sharedBytes k shared < 2 ^ 64) : Coresident prop k grid block shared := by
  unfold CooperativeExcluded at hexcluded
  push Not at hexcluded
  obtain ⟨-, -, hadmitted⟩ := hexcluded
  rw [Nat.mod_eq_of_lt hthreads, Nat.mod_eq_of_lt hblocks, Nat.mod_eq_of_lt hbytes] at hadmitted
  exact ⟨hadmitted.each, _,
    Core.most_isGreatest hadmitted.warp prop.granule_pos hadmitted.count.1, hadmitted.all⟩

/-- Neither count of a launch that is resident wraps. -/
theorem Coresident.counts_lt (hres : Coresident prop k grid block shared) (h : prop.Sane)
    (hw : 0 < prop.core.warpSize) :
    block.count < 2 ^ 31 ∧ grid.count < 2 ^ 31 ∧ sharedBytes k shared < 2 ^ 31 := by
  obtain ⟨heach, n, ⟨hn, -⟩, hall⟩ := hres
  have hgrid := grid.one_le_count
  have hpos : 0 < n := by
    rcases Nat.eq_zero_or_pos n with rfl | hpos
    · omega
    · exact hpos
  have hthreads := hn.threads_le hw hpos
  have hbytes := hn.bytes_le prop.granule_pos hpos
  have hmul := Nat.mul_le_mul_right prop.cores hn.slots
  have hlanes := h.lanes
  have hlocal := h.localMem
  have hblocks := h.grid
  exact ⟨by omega, by omega, by omega⟩

/-- A launch that meets no check is accepted, on the null stream of a plain device. -/
theorem cooperativeFunction_accepts (h : prop.Sane)
    (hexcluded : ¬ CooperativeExcluded prop k grid block shared) :
    ∃ s', grxLaunchCooperativeFunction plain {} prop k grid block (zeros 0) shared none {} =
      (s', .ok (launchInfo k grid block {} shared (zeros 0))) := by
  unfold CooperativeExcluded at hexcluded
  push Not at hexcluded
  obtain ⟨hexcluded, hcap, hadmitted⟩ := hexcluded
  rw [← toNat_shared] at hadmitted
  have hcheck :=
    (checkCooperative_eq_none_iff h (granule_of_not_excluded h hexcluded)).mpr hadmitted
  obtain ⟨s', hs'⟩ := launchCommon_accepts prop k grid block {} shared (zeros 0) k.device
    (validate_eq_none_iff.mpr hexcluded)
  refine ⟨s', ?_⟩
  unfold grxLaunchCooperativeFunction
  dsimp only
  rw [if_neg hcap, hcheck]
  exact hs'

end Cooperative

/-- What is accepted as a cooperative launch is resident if and only if a check meets it in any case, or
no count wraps: its block has below `2 ^ 32` threads, its grid below `2 ^ 64` blocks and its shared
memory is below `2 ^ 64` bytes. -/
theorem cooperative_exact_iff (t : TableDevice) (k : KernelBinding) (grid block : Dim3)
    (shared : UInt64) (hfits : t.Fits) : CooperativeExact t k grid block shared ↔
      CooperativeExcluded t.prop k grid block shared ∨
        (block.count < 2 ^ 32 ∧ grid.count < 2 ^ 64 ∧ sharedBytes k shared < 2 ^ 64) := by
  constructor
  · intro h
    by_cases hexcluded : CooperativeExcluded t.prop k grid block shared
    · exact .inl hexcluded
    right
    obtain ⟨s', hs'⟩ := cooperativeFunction_accepts hfits.sane hexcluded
    have hresident := h.function _ _ _ _ _ _ _ hs'
    unfold CooperativeExcluded at hexcluded
    push Not at hexcluded
    have hcounts := hresident.counts_lt hfits.sane hexcluded.2.2.warp
    omega
  · intro h
    constructor
    · intro P s s' args stream r info hok
      have hexcluded := cooperativeFunction_accepted hfits.sane hok
      obtain ⟨hthreads, hblocks, hbytes⟩ := h.resolve_left hexcluded
      exact coresident_of_not_excluded hexcluded hthreads hblocks hbytes
    · intro P s s' cluster stream attributes args device r info hattrs hok
      have hexcluded := kernelEx_accepted hfits.sane hattrs hok
      obtain ⟨hthreads, hblocks, hbytes⟩ := h.resolve_left hexcluded
      exact coresident_of_not_excluded hexcluded hthreads hblocks hbytes

/-- A device whose numbers fit. -/
theorem cooperative_exact_iff_default :
    (TableDevice.gpu {}).Fits ∧
      (CooperativeExact (.gpu {}) { kernel := ⟨0, 0⟩ } { x := 4 } { x := 4 } 0 ↔
        CooperativeExcluded (TableDevice.gpu {}).prop { kernel := ⟨0, 0⟩ } { x := 4 } { x := 4 } 0 ∨
          (Dim3.count { x := 4 } < 2 ^ 32 ∧ Dim3.count { x := 4 } < 2 ^ 64 ∧
            sharedBytes { kernel := ⟨0, 0⟩ } 0 < 2 ^ 64)) := by
  have hfits : (TableDevice.gpu {}).Fits := by constructor <;> decide
  exact ⟨hfits, cooperative_exact_iff _ _ _ _ _ hfits⟩

/-- A grid of `2 ^ 64 + 4` blocks passes for one of 4. -/
theorem cooperative_exact_not :
    ¬ ∀ (t : TableDevice) (k : KernelBinding) (grid block : Dim3) (shared : UInt64),
      CooperativeExact t k grid block shared := by
  intro h
  have hexact := h (.gpu {}) { kernel := ⟨0, 0⟩ } ⟨2147418113, 1718039348, 5⟩ {} 0
  obtain ⟨s', hs'⟩ := launchCommon_accepts (TableDevice.gpu {}).prop { kernel := ⟨0, 0⟩ }
    ⟨2147418113, 1718039348, 5⟩ {} {} 0 (zeros 0) 0 (by decide)
  have hok : grxLaunchCooperativeFunction plain {} (TableDevice.gpu {}).prop { kernel := ⟨0, 0⟩ }
      ⟨2147418113, 1718039348, 5⟩ {} (zeros 0) 0 none {} = (s', .ok _) := hs'
  obtain ⟨n, ⟨hn, -⟩, hall⟩ := (hexact.function _ _ _ _ _ _ _ hok).all
  have hle : (Dim3.mk 2147418113 1718039348 5).count ≤ 4 * 1 :=
    hall.trans (Nat.mul_le_mul_right _ hn.slots)
  exact absurd hle (by decide)

end Grxcp.Runtime
