import Grxcp.Runtime.Residency

/-!
# The search for a block size

`grxOccupancyMaxPotentialBlockSize` tries the whole warps up to a limit and keeps the first block that has
most threads resident (`searchBlocks_sound`). It comes to an end unless the warp has no threads, and what
it finds is the best of the multiples of the warp. A limit that is no multiple may itself be better, a
limit below the warp has no multiple, and near `2 ^ 64` bytes the sum of the shared sizes wraps; in every
other case the answer is the best (`search_exact_iff`).
-/

namespace Grxcp.Runtime

/-! ## Threads on a core -/

section Core

variable {c : Core} {threads bytes b m : ℕ}

/-- The warps of the resident blocks are the core's. -/
theorem Core.most_mul_le (hw : 0 < c.warpSize) (hg : 0 < c.granule) (ht : 0 < threads) :
    c.most threads bytes * threads ≤ c.warps * c.warpSize := by
  have hresident : c.Resident threads bytes (c.most threads bytes) := most_resident hw hg ht
  have hle : threads ≤ c.warpSize * (threads ⌈/⌉ c.warpSize) := (ceilDiv_le_iff_le_mul hw).mp le_rfl
  calc c.most threads bytes * threads
      ≤ c.most threads bytes * (c.warpSize * (threads ⌈/⌉ c.warpSize)) := Nat.mul_le_mul_left _ hle
    _ = c.most threads bytes * (threads ⌈/⌉ c.warpSize) * c.warpSize := by ring
    _ ≤ c.warps * c.warpSize := Nat.mul_le_mul_right _ hresident.warps

/-- A larger block has no more of it resident. -/
theorem Core.most_anti {threads' : ℕ} (hw : 0 < c.warpSize) (hg : 0 < c.granule) (ht : 0 < threads)
    (hle : threads ≤ threads') : c.most threads' bytes ≤ c.most threads bytes := by
  have hresident : c.Resident threads' bytes (c.most threads' bytes) :=
    most_resident hw hg (ht.trans_le hle)
  apply (Core.resident_iff hw hg ht).mp
  have hceil : threads ⌈/⌉ c.warpSize ≤ threads' ⌈/⌉ c.warpSize := (gc_smul_ceilDiv hw).monotone_l hle
  exact ⟨(Nat.mul_le_mul_left _ hceil).trans hresident.warps, hresident.slots, hresident.shared⟩

/-- Only the warps of a block count. -/
theorem Core.most_congr {threads' : ℕ} (h : threads ⌈/⌉ c.warpSize = threads' ⌈/⌉ c.warpSize) :
    c.most threads bytes = c.most threads' bytes := by
  unfold most
  rw [h]

/-- A block of more bytes than the core has is not resident. -/
theorem Core.most_eq_zero (hw : 0 < c.warpSize) (hg : 0 < c.granule) (ht : 0 < threads)
    (hbytes : c.localMem < bytes) : c.most threads bytes = 0 := by
  by_contra hne
  have hresident : c.Resident threads bytes (c.most threads bytes) := most_resident hw hg ht
  have hle := hresident.bytes_le hg (Nat.pos_of_ne_zero hne)
  omega

/-- The whole warps up to a limit, and the limit itself, are as good as any block up to it. -/
theorem Core.most_mul_le_of_multiples {limit best : ℕ} (hw : 0 < c.warpSize)
    (hmul : ∀ i, 0 < i → i * c.warpSize ≤ limit →
      c.most (i * c.warpSize) bytes * (i * c.warpSize) ≤ best)
    (hlimit : c.most limit bytes * limit ≤ best) (hb : 0 < b) (hle : b ≤ limit) :
    c.most b bytes * b ≤ best := by
  have hceil : b ≤ c.warpSize * (b ⌈/⌉ c.warpSize) := (ceilDiv_le_iff_le_mul hw).mp le_rfl
  rw [mul_comm] at hceil
  by_cases hwhole : b ⌈/⌉ c.warpSize * c.warpSize ≤ limit
  · have hsame : c.most b bytes = c.most (b ⌈/⌉ c.warpSize * c.warpSize) bytes := by
      apply Core.most_congr
      rw [mul_comm, ← smul_eq_mul, smul_ceilDiv hw]
    calc c.most b bytes * b
        ≤ c.most b bytes * (b ⌈/⌉ c.warpSize * c.warpSize) := Nat.mul_le_mul_left _ hceil
      _ = c.most (b ⌈/⌉ c.warpSize * c.warpSize) bytes * (b ⌈/⌉ c.warpSize * c.warpSize) := by rw [hsame]
      _ ≤ best := hmul _ (ceilDiv_pos hb hw) hwhole
  · have hsame : c.most b bytes = c.most limit bytes := by
      apply Core.most_congr
      apply le_antisymm
      · exact (gc_smul_ceilDiv hw).monotone_l hle
      · apply (ceilDiv_le_iff_le_mul hw).mpr
        rw [mul_comm]
        omega
    calc c.most b bytes * b = c.most limit bytes * b := by rw [hsame]
      _ ≤ c.most limit bytes * limit := Nat.mul_le_mul_left _ hle
      _ ≤ best := hlimit

end Core

/-! ## The loop -/

section Loop

variable {prop : DeviceProp} {smem : UInt64} {limit : Int32} {f : ℕ → ℕ} {j fuel : ℕ}
  {bs bestBlock bestThreads : Int32}

/-- What the code counts a block of so many threads as, on every block up to the limit. -/
structure Counts (prop : DeviceProp) (smem : UInt64) (limit : Int32) (f : ℕ → ℕ) : Prop where
  warp : 0 < prop.core.warpSize
  word : prop.warpSize.toInt = prop.core.warpSize
  room : limit.toInt + prop.core.warpSize < 2 ^ 31
  count : ∀ b : Int32, 0 < b.toInt → b.toInt ≤ limit.toInt →
    (residentBlocksPerSm prop b smem).toInt = f b.toInt.toNat
  threads : ∀ b : ℕ, 0 < b → (b : ℤ) ≤ limit.toInt → f b * b < 2 ^ 31

/-- Where the loop is: before `j` warps, with the best of the blocks below. -/
structure Searching (prop : DeviceProp) (limit : Int32) (f : ℕ → ℕ) (j : ℕ)
    (bs bestBlock bestThreads : Int32) : Prop where
  pos : 0 < j
  here : bs.toInt = (j * prop.core.warpSize : ℕ)
  reach : ((j * prop.core.warpSize : ℕ) : ℤ) ≤ limit.toInt + prop.core.warpSize
  best : ∃ i, 0 < i ∧ ((i * prop.core.warpSize : ℕ) : ℤ) ≤ limit.toInt ∧
    bestBlock.toInt = (i * prop.core.warpSize : ℕ) ∧
    bestThreads.toInt ≤ (f (i * prop.core.warpSize) * (i * prop.core.warpSize) : ℕ)
  seen : ∀ i, 0 < i → i < j →
    ((f (i * prop.core.warpSize) * (i * prop.core.warpSize) : ℕ) : ℤ) ≤ bestThreads.toInt

/-- What the loop finds: the best of the whole warps. -/
def BestMultiple (prop : DeviceProp) (limit : Int32) (f : ℕ → ℕ) (block : Int32) : Prop :=
  ∃ i, 0 < i ∧ ((i * prop.core.warpSize : ℕ) : ℤ) ≤ limit.toInt ∧
    block.toInt = (i * prop.core.warpSize : ℕ) ∧
    ∀ i', 0 < i' → ((i' * prop.core.warpSize : ℕ) : ℤ) ≤ limit.toInt →
      f (i' * prop.core.warpSize) * (i' * prop.core.warpSize) ≤
        f (i * prop.core.warpSize) * (i * prop.core.warpSize)

/-- The threads of the block that the loop is at. -/
theorem Searching.threads_eq (hc : Counts prop smem limit f)
    (h : Searching prop limit f j bs bestBlock bestThreads) (hle : bs ≤ limit) :
    (residentBlocksPerSm prop bs smem * bs).toInt =
      (f (j * prop.core.warpSize) * (j * prop.core.warpSize) : ℕ) := by
  have hle' : bs.toInt ≤ limit.toInt := Int32.le_iff_toInt_le.mp hle
  have hpos : 0 < j * prop.core.warpSize := Nat.mul_pos h.pos hc.warp
  have hhere := h.here
  have hcount := hc.count bs (by omega) hle'
  have hlt := hc.threads (j * prop.core.warpSize) hpos (by omega)
  have hnat : bs.toInt.toNat = j * prop.core.warpSize := by omega
  rw [hnat] at hcount
  have hprod : (residentBlocksPerSm prop bs smem).toInt * bs.toInt =
      (f (j * prop.core.warpSize) * (j * prop.core.warpSize) : ℕ) := by
    rw [hcount, hhere, ← Int.natCast_mul]
  rw [Words.int32_mul_of_range (by omega) (by omega), hprod]

/-- One pass: the loop is before one more warp. -/
theorem Searching.next_here (hc : Counts prop smem limit f)
    (h : Searching prop limit f j bs bestBlock bestThreads) (hle : bs ≤ limit) :
    (bs + prop.warpSize).toInt = ((j + 1) * prop.core.warpSize : ℕ) ∧
      (((j + 1) * prop.core.warpSize : ℕ) : ℤ) ≤ limit.toInt + prop.core.warpSize := by
  have hle' : bs.toInt ≤ limit.toInt := Int32.le_iff_toInt_le.mp hle
  have hhere := h.here
  have hword := hc.word
  have hroom := hc.room
  have hsucc : (j + 1) * prop.core.warpSize = j * prop.core.warpSize + prop.core.warpSize := by ring
  constructor
  · rw [Words.int32_add_of_range (by omega) (by omega)]
    omega
  · omega

theorem Searching.take (hc : Counts prop smem limit f)
    (h : Searching prop limit f j bs bestBlock bestThreads) (hle : bs ≤ limit)
    (hbetter : bestThreads < residentBlocksPerSm prop bs smem * bs) :
    Searching prop limit f (j + 1) (bs + prop.warpSize) bs (residentBlocksPerSm prop bs smem * bs) := by
  have hthreads := h.threads_eq hc hle
  have hle' : bs.toInt ≤ limit.toInt := Int32.le_iff_toInt_le.mp hle
  obtain ⟨hnext, hreach⟩ := h.next_here hc hle
  refine ⟨by omega, hnext, hreach, ⟨j, h.pos, ?_, h.here, hthreads.le⟩, ?_⟩
  · rw [← h.here]
    exact hle'
  · intro i hi hij
    rcases Nat.lt_succ_iff_lt_or_eq.mp hij with hlt | rfl
    · exact (h.seen i hi hlt).trans (Int32.lt_iff_toInt_lt.mp hbetter).le
    · exact hthreads.ge

theorem Searching.skip (hc : Counts prop smem limit f)
    (h : Searching prop limit f j bs bestBlock bestThreads) (hle : bs ≤ limit)
    (hworse : ¬ bestThreads < residentBlocksPerSm prop bs smem * bs) :
    Searching prop limit f (j + 1) (bs + prop.warpSize) bestBlock bestThreads := by
  have hthreads := h.threads_eq hc hle
  obtain ⟨hnext, hreach⟩ := h.next_here hc hle
  refine ⟨by omega, hnext, hreach, h.best, ?_⟩
  intro i hi hij
  rcases Nat.lt_succ_iff_lt_or_eq.mp hij with hlt | rfl
  · exact h.seen i hi hlt
  · rw [Int32.lt_iff_toInt_lt] at hworse
    omega

/-- Past the limit the best block so far is the best of all. -/
theorem Searching.done (h : Searching prop limit f j bs bestBlock bestThreads) (hgt : ¬ bs ≤ limit) :
    BestMultiple prop limit f bestBlock := by
  obtain ⟨i, hi, hle, hblock, hthreads⟩ := h.best
  refine ⟨i, hi, hle, hblock, fun i' hi' hle' => ?_⟩
  rw [Int32.le_iff_toInt_le, h.here] at hgt
  have hlt : i' < j := by
    apply Nat.lt_of_mul_lt_mul_right (a := prop.core.warpSize)
    omega
  have hseen := h.seen i' hi' hlt
  omega

/-- What the loop returns is the best of the whole warps. -/
theorem searchBlocks_sound (hc : Counts prop smem limit f)
    (h : Searching prop limit f j bs bestBlock bestThreads) {block : Int32}
    (hsome : searchBlocks prop smem limit fuel bs bestBlock bestThreads = some block) :
    BestMultiple prop limit f block := by
  induction fuel generalizing j bs bestBlock bestThreads with
  | zero => cases hsome
  | succ fuel ih =>
    unfold searchBlocks at hsome
    split at hsome
    next hle =>
      dsimp only at hsome
      split at hsome
      next hbetter => exact ih (h.take hc hle hbetter) hsome
      next hworse => exact ih (h.skip hc hle hworse) hsome
    next hgt =>
      cases hsome
      exact h.done hgt

/-- It returns once its passes reach over the limit. -/
theorem searchBlocks_terminates (hc : Counts prop smem limit f)
    (h : Searching prop limit f j bs bestBlock bestThreads)
    (hfuel : limit.toInt < ((j + fuel) * prop.core.warpSize : ℕ)) :
    ∃ block, searchBlocks prop smem limit (fuel + 1) bs bestBlock bestThreads = some block := by
  induction fuel generalizing j bs bestBlock bestThreads with
  | zero =>
    have hgt : ¬ bs ≤ limit := by
      rw [Int32.le_iff_toInt_le, h.here]
      rw [Nat.add_zero] at hfuel
      omega
    unfold searchBlocks
    rw [if_neg hgt]
    exact ⟨_, rfl⟩
  | succ fuel ih =>
    have hfuel' : limit.toInt < ((j + 1 + fuel) * prop.core.warpSize : ℕ) := by
      rwa [show j + 1 + fuel = j + (fuel + 1) by omega]
    unfold searchBlocks
    split
    next hle =>
      dsimp only
      split
      next hbetter => exact ih (h.take hc hle hbetter) hfuel'
      next hworse => exact ih (h.skip hc hle hworse) hfuel'
    next => exact ⟨_, rfl⟩

/-- Of a warp that has no threads the loop never comes to an end. -/
theorem searchBlocks_zero (hwarp : prop.warpSize = 0) (hlimit : 0 ≤ limit) :
    searchBlocks prop smem limit fuel 0 bestBlock bestThreads = none := by
  induction fuel generalizing bestBlock bestThreads with
  | zero => rfl
  | succ fuel ih =>
    unfold searchBlocks
    rw [if_pos hlimit, hwarp]
    dsimp only
    split
    · exact ih
    · exact ih

end Loop

/-! ## The search -/

/-- The shared bytes of a block: what the search asks for, and what the kernel has, where it is known. -/
def searchBytes (k : Option KernelBinding) (dynamicSMemSize : UInt64) : ℕ :=
  dynamicSMemSize.toNat + ((k.map fun k => k.staticSmem.toNat).getD 0)

/-- What a search answers: its blocks are resident, they fill the grid, and no block up to the limit has
more threads resident. -/
structure SearchAnswer (prop : DeviceProp) (bytes : ℕ) (limit block grid : Int32) : Prop where
  le : block.toInt ≤ limit.toInt
  resident : ∃ n, IsGreatest {n | prop.core.Resident block.toInt.toNat bytes n} n ∧
    grid.toInt = (n * prop.cores : ℕ) ∧
    ∀ b m : ℕ, 0 < b → (b : ℤ) ≤ limit.toInt → prop.core.Resident b bytes m →
      m * b ≤ n * block.toInt.toNat

/-- The search comes to an end, and its answer is right. -/
structure SearchExact (t : TableDevice) (k : Option KernelBinding) (dynamicSMemSize : UInt64)
    (blockSizeLimit : Int32) : Prop where
  ends : ∀ (out : Bool) (acquire : Option GrxError), ∃ fuel answer,
    grxOccupancyMaxPotentialBlockSize fuel t.prop k dynamicSMemSize blockSizeLimit out acquire =
      some answer
  answers : ∀ (fuel : ℕ) (out : Bool) (acquire : Option GrxError) (block grid : Int32),
    grxOccupancyMaxPotentialBlockSize fuel t.prop k dynamicSMemSize blockSizeLimit out acquire =
      some (.ok (block, grid)) →
      SearchAnswer t.prop (searchBytes k dynamicSMemSize) (searchLimit t.prop blockSizeLimit) block grid

/-- The limit has no more threads resident than some whole warps up to it, or, where the bytes wrap as
the code rounds them, no grid has a block. -/
def LimitServed (prop : DeviceProp) (bytes limit : ℕ) : Prop :=
  if bytes + prop.core.granule ≤ 2 ^ 64 then
    ∃ i, 0 < i ∧ i * prop.core.warpSize ≤ limit ∧ prop.core.most limit bytes * limit ≤
      prop.core.most (i * prop.core.warpSize) bytes * (i * prop.core.warpSize)
  else prop.cores = 0 ∨ (2 ^ 64 ≤ bytes ∧ prop.core.most prop.core.warpSize (bytes - 2 ^ 64) = 0)

/-- The bytes that the code counts a block with: none, where their rounding wraps to none. -/
def countedBytes (prop : DeviceProp) (smem : UInt64) : ℕ :=
  if smem.toNat + prop.core.granule ≤ 2 ^ 64 then smem.toNat else 0

section Search

variable {prop : DeviceProp} {smem : UInt64} {blockSize : Int32}

/-- A size whose rounding wraps counts as none. -/
theorem residentBlocksPerSm_wrapped (h : ¬ smem.toNat + prop.core.granule ≤ 2 ^ 64) :
    residentBlocksPerSm prop blockSize smem = residentBlocksPerSm prop blockSize 0 := by
  have hg := prop.granule_pos
  have hgranule : (if 0 < prop.cacheLineSize then prop.cacheLineSize.toInt64.toUInt64 else 64
      : UInt64).toNat = prop.core.granule := toNat_granule prop
  have hlt := smem.toNat_lt
  have hglt := prop.granule_lt
  have hpos : 0 < smem := by
    rw [UInt64.lt_iff_toNat_lt]
    show 0 < smem.toNat
    omega
  unfold residentBlocksPerSm
  dsimp only
  set granule : UInt64 :=
    if 0 < prop.cacheLineSize then prop.cacheLineSize.toInt64.toUInt64 else 64 with hdef
  have hstride : (smem + granule - 1) / granule * granule = 0 := by
    have hadd : (smem + granule - 1).toNat = smem.toNat + prop.core.granule - 1 - 2 ^ 64 := by
      rw [UInt64.toNat_sub, UInt64.toNat_add, hgranule, show (1 : UInt64).toNat = 1 from rfl]
      omega
    have hzero : (smem + granule - 1) / granule = 0 := by
      apply UInt64.toNat_inj.mp
      rw [UInt64.toNat_div, hadd, hgranule]
      exact Nat.div_eq_of_lt (by omega)
    rw [hzero, UInt64.zero_mul]
  rw [if_pos hpos, if_pos hstride, if_neg (show ¬ (0 : UInt64) < 0 by decide)]

theorem residentBlocksPerSm_counted (h : prop.Sane) (hw : 0 < prop.core.warpSize)
    (hb : 0 < blockSize.toInt) : (residentBlocksPerSm prop blockSize smem).toInt =
      prop.core.most blockSize.toInt.toNat (countedBytes prop smem) := by
  unfold countedBytes
  split
  next hs => exact residentBlocksPerSm_eq h hw hb hs
  next hs =>
    rw [residentBlocksPerSm_wrapped hs]
    have hg := prop.granule_lt
    have hzero : (0 : UInt64).toNat + prop.core.granule ≤ 2 ^ 64 := by
      show 0 + prop.core.granule ≤ 2 ^ 64
      omega
    exact residentBlocksPerSm_eq h hw hb hzero

/-- The limit of the search is the device's at most. -/
theorem searchLimit_le (h : prop.Sane) (blockSizeLimit : Int32) :
    (searchLimit prop blockSizeLimit).toInt ≤ (prop.core.warpSize * prop.core.warps : ℕ) := by
  have hmax := h.maxThreads
  unfold searchLimit
  split
  next hlt =>
    have hle := Int32.lt_iff_toInt_lt.mp hlt.2
    push_cast
    omega
  next =>
    push_cast
    omega

theorem searchLimit_nonneg (h : prop.Sane) (blockSizeLimit : Int32) :
    0 ≤ searchLimit prop blockSizeLimit := by
  have hmax := h.maxThreads
  rw [Int32.le_iff_toInt_le, show (0 : Int32).toInt = 0 from rfl]
  unfold searchLimit
  split
  next hlt => exact (int32_pos_iff.mp hlt.1).le
  next => exact hmax ▸ Int.natCast_nonneg (prop.core.warpSize * prop.core.warps)

theorem counts_counted (h : prop.Sane) (hw : 0 < prop.core.warpSize) (blockSizeLimit : Int32) :
    Counts prop smem (searchLimit prop blockSizeLimit)
      fun b => prop.core.most b (countedBytes prop smem) := by
  have hle := searchLimit_le h blockSizeLimit
  have hlanes := h.lanes
  refine ⟨hw, (Int.toNat_of_nonneg h.warpSize).symm, by omega, fun b hb _ => ?_, fun b hb _ => ?_⟩
  · exact residentBlocksPerSm_counted h hw hb
  · have hthreads : prop.core.most b (countedBytes prop smem) * b ≤
        prop.core.warps * prop.core.warpSize := Core.most_mul_le hw prop.granule_pos hb
    show prop.core.most b (countedBytes prop smem) * b < 2 ^ 31
    rw [mul_comm prop.core.warps] at hthreads
    omega

/-- Where the loop begins. -/
theorem searching_start {limit : Int32} {f : ℕ → ℕ} (hc : Counts prop smem limit f)
    (hle : (prop.core.warpSize : ℤ) ≤ limit.toInt) :
    Searching prop limit f 1 prop.warpSize prop.warpSize 0 := by
  have hone : 1 * prop.core.warpSize = prop.core.warpSize := one_mul _
  refine ⟨one_pos, ?_, ?_, ⟨1, one_pos, ?_, ?_, ?_⟩, ?_⟩
  · rw [hone]
    exact hc.word
  · rw [hone]
    omega
  · rw [hone]
    exact hle
  · rw [hone]
    exact hc.word
  · exact Int.natCast_nonneg _
  · intro i hi hlt
    omega

/-- The blocks of the grid that is answered. -/
theorem toInt_grid (h : prop.Sane) (hw : 0 < prop.core.warpSize) (hb : 0 < blockSize.toInt) :
    (residentBlocksPerSm prop blockSize smem * prop.multiProcessorCount).toInt =
      (prop.core.most blockSize.toInt.toNat (countedBytes prop smem) * prop.cores : ℕ) := by
  have hper : (residentBlocksPerSm prop blockSize smem).toInt =
      prop.core.most blockSize.toInt.toNat (countedBytes prop smem) :=
    residentBlocksPerSm_counted h hw hb
  have hcores : prop.multiProcessorCount.toInt = prop.cores := (Int.toNat_of_nonneg h.count).symm
  have hgrid := h.grid
  have hle := Nat.mul_le_mul_right prop.cores
    (prop.core.most_le_warps blockSize.toInt.toNat (countedBytes prop smem))
  have hprod : (residentBlocksPerSm prop blockSize smem).toInt * prop.multiProcessorCount.toInt =
      (prop.core.most blockSize.toInt.toNat (countedBytes prop smem) * prop.cores : ℕ) := by
    rw [hper, hcores, ← Int.natCast_mul]
  rw [Words.int32_mul_of_range (by omega) (by omega), hprod]

variable {limit block : Int32} {bytes : ℕ}

/-- Bytes that do not wrap: the best of the whole warps is right where the limit itself is no better. -/
theorem answer_iff_of_le (h : prop.Sane) (hw : 0 < prop.core.warpSize)
    (hcounted : countedBytes prop smem = bytes)
    (hbest : BestMultiple prop limit (fun b => prop.core.most b (countedBytes prop smem)) block) :
    SearchAnswer prop bytes limit block
        (residentBlocksPerSm prop block smem * prop.multiProcessorCount) ↔
      ∃ i, 0 < i ∧ i * prop.core.warpSize ≤ limit.toInt.toNat ∧
        prop.core.most limit.toInt.toNat bytes * limit.toInt.toNat ≤
          prop.core.most (i * prop.core.warpSize) bytes * (i * prop.core.warpSize) := by
  obtain ⟨i, hi, hle, hblock, hmax⟩ := hbest
  have hpos : 0 < i * prop.core.warpSize := Nat.mul_pos hi hw
  have hnat : block.toInt.toNat = i * prop.core.warpSize := by omega
  have hgreatest : IsGreatest {n | prop.core.Resident block.toInt.toNat bytes n}
      (prop.core.most block.toInt.toNat bytes) :=
    Core.most_isGreatest hw prop.granule_pos (hnat ▸ hpos)
  have hgrid : (residentBlocksPerSm prop block smem * prop.multiProcessorCount).toInt =
      (prop.core.most block.toInt.toNat (countedBytes prop smem) * prop.cores : ℕ) :=
    toInt_grid h hw (by omega)
  rw [hcounted] at hgrid hmax
  constructor
  · rintro ⟨-, n, hn, -, hall⟩
    have hsame := hn.unique hgreatest
    have hlimit := hall limit.toInt.toNat (prop.core.most limit.toInt.toNat bytes) (by omega) (by omega)
      ((Core.resident_iff hw prop.granule_pos (by omega)).mpr le_rfl)
    rw [hsame, hnat] at hlimit
    exact ⟨i, hi, by omega, hlimit⟩
  · rintro ⟨i', hi', hle', hlimit⟩
    refine ⟨by omega, _, hgreatest, hgrid, fun b m hb hble hm => ?_⟩
    have hlimit' : prop.core.most limit.toInt.toNat bytes * limit.toInt.toNat ≤
        prop.core.most (i * prop.core.warpSize) bytes * (i * prop.core.warpSize) :=
      hlimit.trans (hmax i' hi' (by omega))
    have hbest := Core.most_mul_le_of_multiples hw (fun j hj hjle => hmax j hj (by omega)) hlimit' hb
      (show b ≤ limit.toInt.toNat by omega)
    have hmost := (Core.resident_iff hw prop.granule_pos hb).mp hm
    rw [hnat]
    exact (Nat.mul_le_mul_right _ hmost).trans hbest

/-- Bytes that wrap fit no core: the grid that is right is empty. -/
theorem answer_iff_of_gt (h : prop.Sane) (hw : 0 < prop.core.warpSize)
    (hlimit : (prop.core.warpSize : ℤ) ≤ limit.toInt) (hbytes : prop.core.localMem < bytes)
    (hbest : BestMultiple prop limit (fun b => prop.core.most b (countedBytes prop smem)) block) :
    SearchAnswer prop bytes limit block
        (residentBlocksPerSm prop block smem * prop.multiProcessorCount) ↔
      prop.cores = 0 ∨ prop.core.most prop.core.warpSize (countedBytes prop smem) = 0 := by
  obtain ⟨i, hi, hle, hblock, hmax⟩ := hbest
  have hpos : 0 < i * prop.core.warpSize := Nat.mul_pos hi hw
  have hnat : block.toInt.toNat = i * prop.core.warpSize := by omega
  have hgreatest : IsGreatest {n | prop.core.Resident block.toInt.toNat bytes n}
      (prop.core.most block.toInt.toNat bytes) :=
    Core.most_isGreatest hw prop.granule_pos (hnat ▸ hpos)
  have hnone : ∀ b, 0 < b → prop.core.most b bytes = 0 :=
    fun b hb => Core.most_eq_zero hw prop.granule_pos hb hbytes
  have hgrid : (residentBlocksPerSm prop block smem * prop.multiProcessorCount).toInt =
      (prop.core.most block.toInt.toNat (countedBytes prop smem) * prop.cores : ℕ) :=
    toInt_grid h hw (by omega)
  rw [hnat] at hgrid
  have hfirst := hmax 1 one_pos (by omega)
  dsimp only at hfirst
  rw [one_mul] at hfirst
  constructor
  · rintro ⟨-, n, hn, hn', -⟩
    have hzero : n = 0 := (hn.unique hgreatest).trans (hnone _ (hnat ▸ hpos))
    rw [hgrid, hzero, zero_mul] at hn'
    rcases Nat.mul_eq_zero.mp (Int.natCast_inj.mp hn') with hmost | hcores
    · right
      rw [hmost, zero_mul] at hfirst
      have hmul := Nat.eq_zero_of_le_zero hfirst
      exact (Nat.mul_eq_zero.mp hmul).resolve_right hw.ne'
    · exact .inl hcores
  · intro hor
    refine ⟨by omega, _, hgreatest, ?_, fun b m hb hble hm => ?_⟩
    · rw [hgrid, hnone _ (hnat ▸ hpos), zero_mul]
      rcases hor with hcores | hmost
      · rw [hcores, mul_zero]
      · have hantitone : prop.core.most (i * prop.core.warpSize) (countedBytes prop smem) = 0 := by
          apply Nat.eq_zero_of_le_zero
          rw [← hmost]
          exact Core.most_anti hw prop.granule_pos hw (Nat.le_mul_of_pos_left _ hi)
        rw [hantitone, zero_mul]
    · have hmost := (Core.resident_iff hw prop.granule_pos hb).mp hm
      rw [hnone b hb] at hmost
      rw [Nat.eq_zero_of_le_zero hmost, zero_mul]
      exact Nat.zero_le _

end Search

/-- The sizes, as the code adds them. -/
def searchWord (k : Option KernelBinding) (dynamicSMemSize : UInt64) : UInt64 :=
  dynamicSMemSize + (k.map fun k => k.staticSmem.toUInt64).getD 0

section Occupancy

variable {t : TableDevice} {prop : DeviceProp} {k : Option KernelBinding} {dynamicSMemSize : UInt64}
  {blockSizeLimit : Int32} {fuel : ℕ}

theorem toNat_searchWord : (searchWord k dynamicSMemSize).toNat =
    searchBytes k dynamicSMemSize % 2 ^ 64 := by
  unfold searchWord searchBytes
  cases k with
  | none =>
    rw [UInt64.toNat_add]
    rfl
  | some k =>
    rw [UInt64.toNat_add]
    show (dynamicSMemSize.toNat + k.staticSmem.toUInt64.toNat) % 2 ^ 64 = _
    rw [UInt32.toNat_toUInt64]
    rfl

theorem searchBytes_lt : searchBytes k dynamicSMemSize < 2 ^ 64 + 2 ^ 32 := by
  have hlt := dynamicSMemSize.toNat_lt
  unfold searchBytes
  cases k with
  | none =>
    show dynamicSMemSize.toNat + 0 < _
    omega
  | some k =>
    have hstatic := k.staticSmem.toNat_lt
    show dynamicSMemSize.toNat + k.staticSmem.toNat < _
    omega

/-- The search counts with the bytes there are where they do not wrap, with what is left of them where
their sum does, and with none where only their rounding does. -/
theorem countedBytes_searchWord : countedBytes prop (searchWord k dynamicSMemSize) =
    if searchBytes k dynamicSMemSize + prop.core.granule ≤ 2 ^ 64 then searchBytes k dynamicSMemSize
    else searchBytes k dynamicSMemSize - 2 ^ 64 := by
  have hg := prop.granule_pos
  have hglt := prop.granule_lt
  have hlt : searchBytes k dynamicSMemSize < 2 ^ 64 + 2 ^ 32 := searchBytes_lt
  unfold countedBytes
  rw [toNat_searchWord]
  by_cases hsum : searchBytes k dynamicSMemSize < 2 ^ 64
  · rw [Nat.mod_eq_of_lt hsum]
    split
    · rfl
    · omega
  · rw [Nat.mod_eq_sub_mod (by omega), Nat.mod_eq_of_lt (by omega), if_pos (by omega), if_neg (by omega)]

/-- A search of a table device ends with the block that its loop finds. -/
theorem occupancy_ok (block grid : Int32) {out : Bool} {acquire : Option GrxError}
    (h : grxOccupancyMaxPotentialBlockSize fuel prop k dynamicSMemSize blockSizeLimit out acquire =
      some (.ok (block, grid))) :
    searchBlocks prop (searchWord k dynamicSMemSize) (searchLimit prop blockSizeLimit) fuel prop.warpSize
        prop.warpSize 0 = some block ∧
      grid = residentBlocksPerSm prop block (searchWord k dynamicSMemSize) *
        prop.multiProcessorCount := by
  unfold grxOccupancyMaxPotentialBlockSize at h
  split at h
  · cases h
  split at h
  · cases h
  obtain ⟨found, hfound, heq⟩ := Option.map_eq_some_iff.mp h
  cases heq
  exact ⟨hfound, rfl⟩

theorem occupancy_of_search {block : Int32}
    (h : searchBlocks prop (searchWord k dynamicSMemSize) (searchLimit prop blockSizeLimit) fuel
      prop.warpSize prop.warpSize 0 = some block) :
    grxOccupancyMaxPotentialBlockSize fuel prop k dynamicSMemSize blockSizeLimit true none =
      some (.ok (block, residentBlocksPerSm prop block (searchWord k dynamicSMemSize) *
        prop.multiProcessorCount)) := by
  show (searchBlocks prop (searchWord k dynamicSMemSize) (searchLimit prop blockSizeLimit) fuel
    prop.warpSize prop.warpSize 0).map _ = _
  rw [h]
  rfl

/-- A loop that ends is a search that ends, whatever it is asked. -/
theorem ends_of_search {block : Int32}
    (h : searchBlocks prop (searchWord k dynamicSMemSize) (searchLimit prop blockSizeLimit) fuel
      prop.warpSize prop.warpSize 0 = some block) (out : Bool) (acquire : Option GrxError) :
    ∃ fuel answer, grxOccupancyMaxPotentialBlockSize fuel prop k dynamicSMemSize blockSizeLimit out
      acquire = some answer := by
  cases out with
  | false => exact ⟨0, _, rfl⟩
  | true =>
    cases acquire with
    | some e => exact ⟨0, _, rfl⟩
    | none => exact ⟨fuel, _, occupancy_of_search h⟩

/-- The right answers, once a warp fits the limit. -/
theorem answer_iff (h : prop.Sane) (hw : 0 < prop.core.warpSize)
    (hlimit : (prop.core.warpSize : ℤ) ≤ (searchLimit prop blockSizeLimit).toInt) {block : Int32}
    (hbest : BestMultiple prop (searchLimit prop blockSizeLimit)
      (fun b => prop.core.most b (countedBytes prop (searchWord k dynamicSMemSize))) block) :
    SearchAnswer prop (searchBytes k dynamicSMemSize) (searchLimit prop blockSizeLimit) block
        (residentBlocksPerSm prop block (searchWord k dynamicSMemSize) * prop.multiProcessorCount) ↔
      LimitServed prop (searchBytes k dynamicSMemSize)
        (searchLimit prop blockSizeLimit).toInt.toNat := by
  have hg := prop.granule_lt
  have hlocal := h.localMem
  have hcounted : countedBytes prop (searchWord k dynamicSMemSize) = _ := countedBytes_searchWord
  unfold LimitServed
  split
  next hle =>
    rw [if_pos hle] at hcounted
    exact answer_iff_of_le h hw hcounted hbest
  next hgt =>
    rw [if_neg hgt] at hcounted
    rw [answer_iff_of_gt h hw hlimit (by omega) hbest, hcounted]
    apply or_congr_right
    constructor
    · intro hmost
      refine ⟨?_, hmost⟩
      -- Where only the rounding wraps, no bytes are counted, and a warp is resident.
      by_contra hsum
      rw [Nat.sub_eq_zero_of_le (by omega)] at hmost
      have hle := searchLimit_le h blockSizeLimit
      have hwarps : 0 < prop.core.warps := by
        apply Nat.pos_of_ne_zero
        intro hzero
        rw [hzero, mul_zero] at hle
        omega
      have hone : prop.core.Resident prop.core.warpSize 0 1 := by
        refine ⟨?_, hwarps, by simp⟩
        rw [one_mul]
        apply (ceilDiv_le_iff_le_mul hw).mpr
        exact Nat.le_mul_of_pos_right _ hwarps
      have hpos := (Core.resident_iff hw prop.granule_pos hw).mp hone
      omega
    · exact fun hmost => hmost.2

end Occupancy

/-- The search is right if and only if a warp has threads and fits the limit, and the limit is served by
whole warps. -/
theorem search_exact_iff (t : TableDevice) (k : Option KernelBinding) (dynamicSMemSize : UInt64)
    (blockSizeLimit : Int32) (hfits : t.Fits) :
    SearchExact t k dynamicSMemSize blockSizeLimit ↔
      t.prop.warpSize ≠ 0 ∧ t.prop.warpSize ≤ searchLimit t.prop blockSizeLimit ∧
        LimitServed t.prop (searchBytes k dynamicSMemSize)
          (searchLimit t.prop blockSizeLimit).toInt.toNat := by
  have h := hfits.sane
  have hwarp : t.prop.warpSize.toInt = t.prop.core.warpSize := (Int.toNat_of_nonneg h.warpSize).symm
  by_cases hzero : t.prop.warpSize = 0
  · constructor
    · intro hexact
      obtain ⟨fuel, answer, hanswer⟩ := hexact.ends true none
      have hlimit := searchLimit_nonneg h blockSizeLimit
      have hnone : searchBlocks t.prop (searchWord k dynamicSMemSize) (searchLimit t.prop blockSizeLimit)
          fuel t.prop.warpSize t.prop.warpSize 0 = none := by
        rw [hzero]
        exact searchBlocks_zero hzero hlimit
      obtain ⟨block, hblock, -⟩ := Option.map_eq_some_iff.mp hanswer
      exact absurd (hnone.symm.trans hblock) nofun
    · exact fun hne => absurd hzero hne.1
  have hw : 0 < t.prop.core.warpSize := by
    apply Nat.pos_of_ne_zero
    intro hn
    apply hzero
    apply Int32.toInt_inj.mp
    rw [hwarp, hn]
    rfl
  have hc : Counts t.prop (searchWord k dynamicSMemSize) _ _ := counts_counted h hw blockSizeLimit
  by_cases hlimit : t.prop.warpSize ≤ searchLimit t.prop blockSizeLimit
  · have hle : (t.prop.core.warpSize : ℤ) ≤ (searchLimit t.prop blockSizeLimit).toInt := by
      rw [← hwarp]
      exact Int32.le_iff_toInt_le.mp hlimit
    have hstart := searching_start hc hle
    have hpasses : (searchLimit t.prop blockSizeLimit).toInt <
        ((1 + (searchLimit t.prop blockSizeLimit).toInt.toNat) * t.prop.core.warpSize : ℕ) := by
      have hmul := Nat.le_mul_of_pos_right (1 + (searchLimit t.prop blockSizeLimit).toInt.toNat) hw
      omega
    obtain ⟨block, hblock⟩ := searchBlocks_terminates hc hstart hpasses
    constructor
    · intro hexact
      have hanswer := hexact.answers _ _ _ _ _ (occupancy_of_search hblock)
      exact ⟨hzero, hlimit, (answer_iff h hw hle (searchBlocks_sound hc hstart hblock)).mp hanswer⟩
    · rintro ⟨-, -, hserved⟩
      refine ⟨ends_of_search hblock, ?_⟩
      intro fuel out acquire block grid hok
      obtain ⟨hfound, rfl⟩ := occupancy_ok block grid hok
      exact (answer_iff h hw hle (searchBlocks_sound hc hstart hfound)).mpr hserved
  · constructor
    · intro hexact
      have hone : searchBlocks t.prop (searchWord k dynamicSMemSize) (searchLimit t.prop blockSizeLimit)
          1 t.prop.warpSize t.prop.warpSize 0 = some t.prop.warpSize := by
        unfold searchBlocks
        rw [if_neg hlimit]
      have hanswer := hexact.answers _ _ _ _ _ (occupancy_of_search hone)
      exact absurd (Int32.le_iff_toInt_le.mpr hanswer.le) hlimit
    · exact fun hle => absurd hle.2.1 hlimit

/-- A device whose numbers fit. -/
theorem search_exact_iff_default :
    (TableDevice.gpu {}).Fits ∧ (SearchExact (.gpu {}) none 0 0 ↔
      (TableDevice.gpu {}).prop.warpSize ≠ 0 ∧
        (TableDevice.gpu {}).prop.warpSize ≤ searchLimit (TableDevice.gpu {}).prop 0 ∧
        LimitServed (TableDevice.gpu {}).prop (searchBytes none 0)
          (searchLimit (TableDevice.gpu {}).prop 0).toInt.toNat) := by
  have hfits : (TableDevice.gpu {}).Fits := by constructor <;> decide
  exact ⟨hfits, search_exact_iff _ _ _ _ hfits⟩

/-- On a PTA the loop does not end. -/
theorem search_exact_not :
    ¬ ∀ (t : TableDevice) (k : Option KernelBinding) (dynamicSMemSize : UInt64)
      (blockSizeLimit : Int32), SearchExact t k dynamicSMemSize blockSizeLimit := by
  intro h
  obtain ⟨fuel, answer, hanswer⟩ := (h .pta none 0 0).ends true none
  obtain ⟨block, hblock, -⟩ := Option.map_eq_some_iff.mp hanswer
  have hnone : searchBlocks TableDevice.pta.prop 0 (searchLimit TableDevice.pta.prop 0) fuel 0 0 0 =
      none := searchBlocks_zero rfl (by decide)
  exact absurd (hnone.symm.trans hblock) nofun

end Grxcp.Runtime
