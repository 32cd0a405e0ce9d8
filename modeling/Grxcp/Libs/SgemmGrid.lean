import Grxcp.Device.SgemmLaunch
import Grxcp.Lib.Words
import Grxcp.Libs.Grxblas

/-!
# The grid of a single-precision GEMM

`sgemm_batched` counts the tiles of `C` in `int` and `size_t`, and the threads and the warps in `unsigned`
and `int`. Where no count passes its type the grid covers the tiles of every batch element, and a probe
that is too small is refused; and nowhere else (`sgemm_law_iff`).
-/

namespace Grxcp.Blas

open Grxcp.Runtime Words

/-! ## Exact counts -/

/-- The rows of `C` that a thread of a kernel has, as the module reported them. -/
def Context.tileRows (ctx : Context) : BlasKernel → Int32
  | .sgemmRb => ctx.rbRows
  | .sgemm2d => ctx.tdRows
  | .sgemm2dI => ctx.tdRows
  | .sgemm4x2 => ctx.mdRows
  | .sgemm4x4 => ctx.wdRows
  | _ => 1

/-- Its columns. -/
def Context.tileCols (ctx : Context) : BlasKernel → Int32
  | .sgemm2d => ctx.tdCols
  | .sgemm2dI => ctx.tdCols
  | .sgemm4x2 => ctx.mdCols
  | .sgemm4x4 => ctx.wdCols
  | _ => 1

/-- How many tiles of `rows` there are in `x`. -/
def tileCount (x rows : Int32) : ℕ :=
  Tiles.blocks x.toInt.toNat rows.toInt.toNat

/-- How many tiles `C` has. -/
def Context.tiles (ctx : Context) (kernel : BlasKernel) (m n : Int32) : ℕ :=
  tileCount m (ctx.tileRows kernel) * tileCount n (ctx.tileCols kernel)

/-- The threads of a block. -/
def DeviceProp.block (prop : DeviceProp) : ℕ :=
  prop.warpSize.toUInt32.toNat

/-- How many warps a launch over these tiles has, over all of the batch. -/
def DeviceProp.warps (prop : DeviceProp) (tiles : ℕ) (batch : Int32) : ℕ :=
  Tiles.blocks tiles prop.block * batch.toInt.toNat

/-! ## The law -/

/-- What `sgemm_batched` checks of its arguments, and that there is something to do. -/
structure SgemmArgs.Accepted (s : SgemmArgs) : Prop where
  scalars : s.scalars = true
  m : 0 < s.m.toInt
  n : 0 < s.n.toInt
  k : 0 ≤ s.k.toInt
  batch : 0 < s.batch.toInt
  operands : ¬(0 < s.k ∧ (s.a = 0 ∨ s.b = 0))
  output : s.c ≠ 0
  strides : ¬(s.lda < (if s.transa then s.k else s.m) ∨ s.ldb < (if s.transb then s.n else s.k) ∨ s.ldc < s.m)

/-- The blocks of the launch, as `sgemm_batched` counts them. -/
def sgemmGrid (ctx : Context) (prop : DeviceProp) (kernel : BlasKernel) (m n : Int32) : UInt32 :=
  flatGrid (sgemmTiles ctx kernel m n).toUInt32 prop

/-- The launch of a call. -/
def sgemmLaunch (ctx : Context) (prop : DeviceProp) (s : SgemmArgs) (kernel : BlasKernel)
    (refused : Option GrxError) : Launch where
  kernel := kernel
  device := ctx.loaded.device
  grid := (sgemmGrid ctx prop kernel s.m s.n, s.batch.toUInt32)
  block := prop.warpSize.toUInt32
  stream := ctx.stream
  cycles := ctx.probe
  refused := refused

/-- The law of a call, which leaves this handle after it has asked for these launches to load its module:
what it counts is exact, its threads cover the tiles of every batch element with less than a block over, the
interior kernel has no edge, and it is refused when its warps are more than the probe that is attached has
slots for, and launched otherwise. -/
structure SgemmLaw (ctx : Context) (load : List Issue) (prop : DeviceProp) (s : SgemmArgs)
    (kernel : BlasKernel) (refused : Option GrxError) (call : Outcome) : Prop where
  interior : kernel = .sgemm2dI → ctx.tdRows.toInt ∣ s.m.toInt ∧ ctx.tdCols.toInt ∣ s.n.toInt
  rows : (tilesOf s.m (ctx.tileRows kernel)).toNat = tileCount s.m (ctx.tileRows kernel)
  cols : (tilesOf s.n (ctx.tileCols kernel)).toNat = tileCount s.n (ctx.tileCols kernel)
  covers : ctx.tiles kernel s.m s.n ≤ (sgemmGrid ctx prop kernel s.m s.n).toNat * prop.block
  exact : (sgemmGrid ctx prop kernel s.m s.n).toNat * prop.block < ctx.tiles kernel s.m s.n + prop.block
  batch : (s.batch.toUInt32.toNat : ℤ) = s.batch.toInt
  outcome : call =
    if ctx.probe ≠ 0 ∧ ctx.probeCapacity.toInt < prop.warps (ctx.tiles kernel s.m s.n) s.batch then
      { ctx := ctx, issued := load, status := .invalidValue }
    else
      { ctx := ctx, issued := load ++ [.launch (sgemmLaunch ctx prop s kernel refused)]
        status := fromGrx refused }

/-- What a call counts is in its type: the padded sizes in `int`, the threads in `unsigned`, and with a
probe the warps in `int`, or what is left of them there is still too many. -/
structure SgemmFits (ctx : Context) (prop : DeviceProp) (s : SgemmArgs) (kernel : BlasKernel) : Prop where
  block : 0 < prop.block
  rows : s.m.toInt + (ctx.tileRows kernel).toInt - 1 < 2 ^ 31
  cols : s.n.toInt + (ctx.tileCols kernel).toInt - 1 < 2 ^ 31
  threads : ctx.tiles kernel s.m s.n + prop.block - 1 < 2 ^ 32
  warps : ctx.probe ≠ 0 → prop.warps (ctx.tiles kernel s.m s.n) s.batch < 2 ^ 31 ∨
    ctx.probeCapacity.toInt < Int.bmod (prop.warps (ctx.tiles kernel s.m s.n) s.batch) (2 ^ 32)

section Counts

variable {ctx : Context} {prop : DeviceProp} {m n batch : Int32} {force : Forced}

/-! ## The kernel -/

theorem dvd_of_mod_eq_zero {x rows : Int32} (h : x % rows = 0) : rows.toInt ∣ x.toInt := by
  have hzero : (x % rows).toInt = 0 := by
    rw [h]
    rfl
  rw [Int32.toInt_mod] at hzero
  exact Int.dvd_of_tmod_eq_zero hzero

theorem toNat_dvd {a b : ℤ} (ha : 0 ≤ a) (hb : 0 ≤ b) (h : b ∣ a) : b.toNat ∣ a.toNat := by
  rw [← Int.natCast_dvd_natCast, Int.toNat_of_nonneg ha, Int.toNat_of_nonneg hb]
  exact h

/-- The interior kernel is chosen only where there is no edge. -/
theorem interior_of_decide (h : decideSgemmKernel ctx prop m n batch force = .sgemm2dI) :
    ctx.tdRows.toInt ∣ m.toInt ∧ ctx.tdCols.toInt ∣ n.toInt := by
  have hwhole : m % ctx.tdRows = 0 ∧ n % ctx.tdCols = 0 := by
    unfold decideSgemmKernel at h
    dsimp only at h
    split_ifs at h with _ _ _ _ _ hedge
    · simpa using hedge
    · unfold ruleSgemmKernel at h
      dsimp only at h
      split_ifs at h with _ hinterior
      simp only [Bool.and_eq_true, decide_eq_true_eq] at hinterior
      exact hinterior.2.2
  exact ⟨dvd_of_mod_eq_zero hwhole.1, dvd_of_mod_eq_zero hwhole.2⟩

/-- A kernel with a tile. -/
def Context.HasTile (ctx : Context) (kernel : BlasKernel) : Prop :=
  0 < (ctx.tileRows kernel).toInt ∧ 0 < (ctx.tileCols kernel).toInt

theorem int32_one_pos : (0 : Int32) < 1 := by
  decide

theorem hasTile_sgemm : ctx.HasTile .sgemm :=
  ⟨Int.one_pos, Int.one_pos⟩

theorem hasTile_of_lt {kernel : BlasKernel} (hrows : 0 < ctx.tileRows kernel)
    (hcols : 0 < ctx.tileCols kernel) : ctx.HasTile kernel :=
  ⟨Int32.lt_iff_toInt_lt.mp hrows, Int32.lt_iff_toInt_lt.mp hcols⟩

theorem hasTile_of_rule : ctx.HasTile (ruleSgemmKernel ctx prop m n batch) := by
  unfold ruleSgemmKernel
  dsimp only
  split_ifs with htwoD _ hrb
  · simp only [Bool.and_eq_true, decide_eq_true_eq] at htwoD
    exact hasTile_of_lt htwoD.2.2.1 htwoD.2.2.2
  · simp only [Bool.and_eq_true, decide_eq_true_eq] at htwoD
    exact hasTile_of_lt htwoD.2.2.1 htwoD.2.2.2
  · simp only [Bool.and_eq_true, decide_eq_true_eq] at hrb
    exact hasTile_of_lt hrb.2.2.1 int32_one_pos
  · exact hasTile_sgemm

/-- A kernel that is chosen has a tile. -/
theorem hasTile_of_decide : ctx.HasTile (decideSgemmKernel ctx prop m n batch force) := by
  unfold decideSgemmKernel
  dsimp only
  split_ifs with _ hmid hwide htwoD htwoDI _ _ hrb
  · exact hasTile_sgemm
  · exact hasTile_of_lt hmid.2.1 hmid.2.2.1
  · exact hasTile_of_lt hwide.2.1 hwide.2.2.1
  · simp only [Bool.and_eq_true, decide_eq_true_eq] at htwoD
    exact hasTile_of_lt htwoD.1.2.1 htwoD.1.2.2
  · simp only [Bool.and_eq_true, decide_eq_true_eq] at htwoDI
    exact hasTile_of_lt htwoDI.2.1.2.1 htwoDI.2.1.2.2
  · simp only [Bool.and_eq_true, decide_eq_true_eq] at htwoDI
    exact hasTile_of_lt htwoDI.2.1.2.1 htwoDI.2.1.2.2
  · exact hasTile_sgemm
  · simp only [not_or, Int32.not_le] at hrb
    exact hasTile_of_lt hrb.2.1 int32_one_pos
  · exact hasTile_of_rule

/-! ## The tiles -/

/-- Tiles of one row are the rows, whatever wraps on the way. -/
theorem tilesOf_one (x : Int32) : tilesOf x 1 = x.toInt64.toUInt64 := by
  unfold tilesOf
  rw [Int32.add_sub_cancel, Int32.div_one]

theorem sgemmTiles_eq (kernel : BlasKernel) :
    sgemmTiles ctx kernel m n = tilesOf m (ctx.tileRows kernel) * tilesOf n (ctx.tileCols kernel) := by
  cases kernel <;>
    simp only [sgemmTiles, Context.tileRows, Context.tileCols, tilesOf_one]

theorem padded_toInt (x rows : Int32) :
    (x + rows - 1).toInt = Int.bmod (x.toInt + rows.toInt - 1) (2 ^ 32) := by
  have hone : (1 : Int32).toInt = 1 := rfl
  rw [Int32.toInt_sub, Int32.toInt_add, hone, Int.bmod_sub_bmod]

/-- A count of tiles that is right as a `size_t` is right as an `int`. -/
theorem toInt_of_tilesOf {x rows : Int32} {count : ℕ} (hcount : count < 2 ^ 31)
    (h : (tilesOf x rows).toNat = count) : ((x + rows - 1) / rows).toInt = count := by
  have hword : ((x + rows - 1) / rows).toInt64.toInt = Int.bmod (tilesOf x rows).toNat (2 ^ 64) :=
    BitVec.toInt_eq_toNat_bmod _
  rw [Int32.toInt_toInt64, h] at hword
  rw [hword]
  exact Int.bmod_eq_of_le (by omega) (by omega)

theorem tileCount_pos {x rows : Int32} (hx : 0 < x.toInt) (hrows : 0 < rows.toInt) :
    0 < tileCount x rows := by
  have hle : x.toInt.toNat ≤ rows.toInt.toNat * tileCount x rows := Tiles.le_blocks_mul (by omega)
  by_contra hnot
  rw [Nat.eq_zero_of_not_pos hnot, Nat.mul_zero] at hle
  omega

theorem tileCount_lt {x rows : Int32} (hrows : 0 < rows.toInt) : tileCount x rows < 2 ^ 31 := by
  have hle : tileCount x rows ≤ x.toInt.toNat := Tiles.blocks_le (by omega)
  have hlt := x.toInt_lt
  omega

/-- The tiles of a side are counted right if the padded size is in `int`, and only then: a padded size that
wraps is negative, and so is its quotient, or it is none. -/
theorem tilesOf_eq_iff {x rows : Int32} (hx : 0 < x.toInt) (hrows : 0 < rows.toInt) :
    (tilesOf x rows).toNat = tileCount x rows ↔ x.toInt + rows.toInt - 1 < 2 ^ 31 := by
  have hpadded := padded_toInt x rows
  have hx' := x.toInt_lt
  have hrows' := rows.toInt_lt
  constructor
  · intro h
    have hquotient := toInt_of_tilesOf (tileCount_lt hrows) h
    have hpos := tileCount_pos hx hrows
    by_contra hwrap
    have hsum : (x + rows - 1).toInt = x.toInt + rows.toInt - 1 - 2 ^ 32 := by
      rw [hpadded, ← Int.sub_bmod_right]
      exact Int.bmod_eq_of_le (by omega) (by omega)
    have hnonpos : Int.tdiv (x + rows - 1).toInt rows.toInt ≤ 0 := by
      rw [hsum]
      have hneg := Int.tdiv_nonneg (a := -(x.toInt + rows.toInt - 1 - 2 ^ 32)) (by omega) hrows.le
      rw [Int.neg_tdiv] at hneg
      omega
    have hne : rows ≠ -1 := by
      rintro rfl
      exact absurd hrows (by decide)
    rw [Int32.toInt_div_of_ne_right _ _ hne] at hquotient
    omega
  · intro hfits
    have hsum : (x + rows - 1).toInt = x.toInt + rows.toInt - 1 := by
      rw [hpadded]
      exact Int.bmod_eq_of_le (by omega) (by omega)
    have hdiv := int32_div_of_nonneg (a := x + rows - 1) (b := rows) (by omega) hrows.le
    have hnonneg : 0 ≤ (x.toInt + rows.toInt - 1) / rows.toInt := Int.ediv_nonneg (by omega) hrows.le
    unfold tilesOf tileCount Tiles.blocks
    rw [toUInt64_toNat (by rw [hdiv, hsum]; exact hnonneg), hdiv, hsum]
    have hpad : x.toInt + rows.toInt - 1 = ((x.toInt.toNat + rows.toInt.toNat - 1 : ℕ) : ℤ) := by omega
    have hden : rows.toInt = (rows.toInt.toNat : ℤ) := by omega
    rw [hpad, hden]
    exact Int.toNat_natCast _

theorem sgemmTiles_toNat {kernel : BlasKernel} (htile : ctx.HasTile kernel)
    (hrows : (tilesOf m (ctx.tileRows kernel)).toNat = tileCount m (ctx.tileRows kernel))
    (hcols : (tilesOf n (ctx.tileCols kernel)).toNat = tileCount n (ctx.tileCols kernel)) :
    (sgemmTiles ctx kernel m n).toNat = ctx.tiles kernel m n := by
  have hlt : tileCount m (ctx.tileRows kernel) * tileCount n (ctx.tileCols kernel) < 2 ^ 31 * 2 ^ 31 :=
    Nat.mul_lt_mul'' (tileCount_lt htile.1) (tileCount_lt htile.2)
  rw [sgemmTiles_eq, UInt64.toNat_mul, hrows, hcols]
  exact Nat.mod_eq_of_lt (by omega)

/-! ## The threads -/

theorem flatGrid_toNat (threads : UInt32) (prop : DeviceProp) : (flatGrid threads prop).toNat =
    (threads.toNat + prop.block + (2 ^ 32 - 1)) % 2 ^ 32 / prop.block := by
  have hone : (1 : UInt32).toNat = 1 := rfl
  unfold flatGrid DeviceProp.block
  have hsum : (2 ^ 32 - 1 + (threads.toNat + prop.warpSize.toUInt32.toNat) % 2 ^ 32) % 2 ^ 32 =
      (threads.toNat + prop.warpSize.toUInt32.toNat + (2 ^ 32 - 1)) % 2 ^ 32 := by
    omega
  rw [UInt32.toNat_div, UInt32.toNat_sub, UInt32.toNat_add, hone, hsum]

/-- Threads counted modulo `2 ^ 32` cover the tiles if the count with a block to spare does not wrap, and
only then. -/
theorem threads_cover_iff {tiles block : ℕ} (htiles : 0 < tiles) (hblock : block < 2 ^ 32) :
    tiles ≤ (tiles % 2 ^ 32 + block + (2 ^ 32 - 1)) % 2 ^ 32 / block * block ↔
      0 < block ∧ tiles + block - 1 < 2 ^ 32 := by
  constructor
  · intro h
    have hle := Nat.div_mul_le_self ((tiles % 2 ^ 32 + block + (2 ^ 32 - 1)) % 2 ^ 32) block
    refine ⟨?_, by omega⟩
    by_contra hnot
    rw [Nat.eq_zero_of_not_pos hnot, Nat.mul_zero] at h
    omega
  · rintro ⟨hpos, hfits⟩
    have hsum : (tiles % 2 ^ 32 + block + (2 ^ 32 - 1)) % 2 ^ 32 = tiles + block - 1 := by omega
    rw [hsum, Nat.mul_comm]
    exact Tiles.le_blocks_mul hpos

theorem sgemmGrid_toNat {kernel : BlasKernel} (htile : ctx.HasTile kernel)
    (hrows : (tilesOf m (ctx.tileRows kernel)).toNat = tileCount m (ctx.tileRows kernel))
    (hcols : (tilesOf n (ctx.tileCols kernel)).toNat = tileCount n (ctx.tileCols kernel)) :
    (sgemmGrid ctx prop kernel m n).toNat =
      (ctx.tiles kernel m n % 2 ^ 32 + prop.block + (2 ^ 32 - 1)) % 2 ^ 32 / prop.block := by
  unfold sgemmGrid
  rw [flatGrid_toNat, UInt64.toNat_toUInt32, sgemmTiles_toNat htile hrows hcols]

theorem block_lt (prop : DeviceProp) : prop.block < 2 ^ 32 :=
  prop.warpSize.toUInt32.toNat_lt

theorem tiles_pos {kernel : BlasKernel} (hm : 0 < m.toInt) (hn : 0 < n.toInt) (htile : ctx.HasTile kernel) :
    0 < ctx.tiles kernel m n :=
  Nat.mul_pos (tileCount_pos hm htile.1) (tileCount_pos hn htile.2)

/-- The blocks that cover the tiles, where the counts are exact. -/
theorem sgemmGrid_exact {kernel : BlasKernel} (htile : ctx.HasTile kernel)
    (hm : 0 < m.toInt) (hn : 0 < n.toInt)
    (hrows : (tilesOf m (ctx.tileRows kernel)).toNat = tileCount m (ctx.tileRows kernel))
    (hcols : (tilesOf n (ctx.tileCols kernel)).toNat = tileCount n (ctx.tileCols kernel))
    (hpos : 0 < prop.block) (hfits : ctx.tiles kernel m n + prop.block - 1 < 2 ^ 32) :
    (sgemmGrid ctx prop kernel m n).toNat = Tiles.blocks (ctx.tiles kernel m n) prop.block := by
  have htiles := tiles_pos hm hn htile
  have hsum : (ctx.tiles kernel m n % 2 ^ 32 + prop.block + (2 ^ 32 - 1)) % 2 ^ 32 =
      ctx.tiles kernel m n + prop.block - 1 := by
    omega
  rw [sgemmGrid_toNat htile hrows hcols, hsum]
  rfl

/-! ## The warps -/

/-- The warps that the capacity of a probe is held against. -/
theorem warps_toInt {grid : UInt32} {tiles : ℕ} (hgrid : grid.toNat = Tiles.blocks tiles prop.block)
    (hbatch : 0 < batch.toInt) :
    (grid.toInt32 * batch).toInt = Int.bmod (prop.warps tiles batch) (2 ^ 32) := by
  have hword : grid.toInt32.toInt = Int.bmod grid.toNat (2 ^ 32) := BitVec.toInt_eq_toNat_bmod _
  have hcast : (batch.toInt.toNat : ℤ) = batch.toInt := Int.toNat_of_nonneg hbatch.le
  unfold DeviceProp.warps
  rw [Int32.toInt_mul, hword, Int.bmod_mul_bmod, hgrid, Nat.cast_mul, hcast]

end Counts

/-! ## The call -/

section Calls

variable {M : Machine} {current : ℕ} {handle ctx : Context} {load : List Issue} {prop : DeviceProp}
  {s : SgemmArgs} {r : LoadReplies} {force : Forced} {refused : Option GrxError} {kernel : BlasKernel}

/-- A call whose arguments are in order loads the module and goes on to the launch. -/
theorem sgemmBatched_accepted (hs : s.Accepted)
    (hload : ensureModule M current handle r = { ctx := ctx, issued := load }) :
    sgemmBatched M current handle s r force refused =
      { launchSgemm M ctx s force refused with
        issued := load ++ (launchSgemm M ctx s force refused).issued } := by
  have hzero : (0 : Int32).toInt = 0 := rfl
  have hsizes : ¬(s.m < 0 ∨ s.n < 0 ∨ s.k < 0) := by
    have hm := hs.m
    have hn := hs.n
    have hk := hs.k
    simp only [Int32.lt_iff_toInt_lt, hzero]
    omega
  have hbatch : ¬s.batch < 0 := by
    have hb := hs.batch
    rw [Int32.lt_iff_toInt_lt, hzero]
    omega
  have hwork : ¬(s.m = 0 ∨ s.n = 0 ∨ s.batch = 0) := by
    rintro (h | h | h)
    · exact absurd hs.m (by rw [h]; decide)
    · exact absurd hs.n (by rw [h]; decide)
    · exact absurd hs.batch (by rw [h]; decide)
  unfold sgemmBatched
  rw [if_neg (by rw [hs.scalars]; exact Bool.true_eq_false.mp), if_neg hsizes, if_neg hbatch, if_neg hwork,
    if_neg hs.operands, if_neg hs.output, if_neg hs.strides, hload]
  rfl

/-- The launch, with the grid and the refusal as the code has them. -/
theorem launchSgemm_eq (hprop : M.props 0 = .ok prop)
    (hkernel : decideSgemmKernel ctx prop s.m s.n s.batch force = kernel) :
    launchSgemm M ctx s force refused =
      if ctx.probe ≠ 0 ∧ ctx.probeCapacity < (sgemmGrid ctx prop kernel s.m s.n).toInt32 * s.batch then
        { ctx := ctx, status := .invalidValue }
      else
        { ctx := ctx, issued := [.launch (sgemmLaunch ctx prop s kernel refused)], status := fromGrx refused } := by
  unfold launchSgemm
  rw [hprop]
  dsimp only
  rw [hkernel]
  rfl

/-- The call is refused on this condition if the condition is the code's, and only then: a call that is
refused has launched nothing but its load. -/
theorem outcome_iff {P : Prop} [Decidable P] (hs : s.Accepted) (hprop : M.props 0 = .ok prop)
    (hload : ensureModule M current handle r = { ctx := ctx, issued := load })
    (hkernel : decideSgemmKernel ctx prop s.m s.n s.batch force = kernel) :
    (sgemmBatched M current handle s r force refused = if P then
        { ctx := ctx, issued := load, status := .invalidValue }
      else
        { ctx := ctx, issued := load ++ [.launch (sgemmLaunch ctx prop s kernel refused)]
          status := fromGrx refused }) ↔
      (ctx.probe ≠ 0 ∧ ctx.probeCapacity < (sgemmGrid ctx prop kernel s.m s.n).toInt32 * s.batch ↔ P) := by
  have hne : ∀ i : Issue, load ≠ load ++ [i] := by
    intro i h
    have hlength := congrArg List.length h
    rw [List.length_append, List.length_singleton] at hlength
    omega
  rw [sgemmBatched_accepted hs hload, launchSgemm_eq hprop hkernel]
  split_ifs with hcode hP hP
  · simp only [List.append_nil, true_iff]
    exact ⟨fun _ => hP, fun _ => hcode⟩
  · simp only [List.append_nil]
    refine ⟨fun h => (hne _ (congrArg Outcome.issued h)).elim, fun h => (hP (h.mp hcode)).elim⟩
  · refine ⟨fun h => (hne _ (congrArg Outcome.issued h).symm).elim, fun h => (hcode (h.mpr hP)).elim⟩
  · simp only [true_iff]
    exact ⟨fun h => (hcode h).elim, fun h => (hP h).elim⟩

/-- A capacity that the warps pass is passed by what is left of them in `int` if they are in `int`, or if it
happens so. -/
theorem refusal_iff {capacity : Int32} {warps : ℕ} :
    (capacity.toInt < Int.bmod warps (2 ^ 32) ↔ capacity.toInt < warps) ↔
      (warps < 2 ^ 31 ∨ capacity.toInt < Int.bmod warps (2 ^ 32)) := by
  have hlt := capacity.toInt_lt
  by_cases hwarps : warps < 2 ^ 31
  · rw [Int.bmod_eq_of_le (by omega) (by omega)]
    simp only [iff_self, true_iff]
    exact .inl hwarps
  · constructor
    · intro h
      exact .inr (h.mpr (by omega))
    · intro h
      have hpassed := h.resolve_left hwarps
      exact ⟨fun _ => by omega, fun _ => hpassed⟩

/-- A call keeps the law if what it counts is in its type, and only then. -/
theorem sgemm_law_iff (hs : s.Accepted) (hprop : M.props 0 = .ok prop)
    (hload : ensureModule M current handle r = { ctx := ctx, issued := load })
    (hkernel : decideSgemmKernel ctx prop s.m s.n s.batch force = kernel) :
    SgemmLaw ctx load prop s kernel refused (sgemmBatched M current handle s r force refused) ↔
      SgemmFits ctx prop s kernel := by
  have htile : ctx.HasTile kernel := hkernel ▸ hasTile_of_decide
  have htiles := tiles_pos hs.m hs.n htile
  have hrowsIff := tilesOf_eq_iff hs.m htile.1
  have hcolsIff := tilesOf_eq_iff hs.n htile.2
  -- with an exact grid, the two refusals are compared on the warps
  have hwarps : ∀ (hgrid : (sgemmGrid ctx prop kernel s.m s.n).toNat =
      Tiles.blocks (ctx.tiles kernel s.m s.n) prop.block),
      (ctx.probe ≠ 0 ∧ ctx.probeCapacity < (sgemmGrid ctx prop kernel s.m s.n).toInt32 * s.batch ↔
        ctx.probe ≠ 0 ∧ ctx.probeCapacity.toInt < prop.warps (ctx.tiles kernel s.m s.n) s.batch) ↔
      (ctx.probe ≠ 0 → prop.warps (ctx.tiles kernel s.m s.n) s.batch < 2 ^ 31 ∨
        ctx.probeCapacity.toInt < Int.bmod (prop.warps (ctx.tiles kernel s.m s.n) s.batch) (2 ^ 32)) := by
    intro hgrid
    rw [Int32.lt_iff_toInt_lt, warps_toInt hgrid hs.batch, ← refusal_iff]
    exact and_congr_right_iff
  constructor
  · intro law
    have hgridNat : (sgemmGrid ctx prop kernel s.m s.n).toNat = _ := sgemmGrid_toNat htile law.rows law.cols
    have hcovers := law.covers
    rw [hgridNat] at hcovers
    obtain ⟨hpos, hfits⟩ := (threads_cover_iff htiles (block_lt prop)).mp hcovers
    have hgrid := sgemmGrid_exact htile hs.m hs.n law.rows law.cols hpos hfits
    exact ⟨hpos, hrowsIff.mp law.rows, hcolsIff.mp law.cols, hfits,
      (hwarps hgrid).mp ((outcome_iff hs hprop hload hkernel).mp law.outcome)⟩
  · intro fits
    have hrows := hrowsIff.mpr fits.rows
    have hcols := hcolsIff.mpr fits.cols
    have hgrid := sgemmGrid_exact htile hs.m hs.n hrows hcols fits.block fits.threads
    have hbatch : (s.batch.toUInt32.toNat : ℤ) = s.batch.toInt := by
      rw [toUInt32_toNat hs.batch.le]
      exact Int.toNat_of_nonneg hs.batch.le
    refine ⟨fun h => interior_of_decide (hkernel.trans h), hrows, hcols, ?_, ?_, hbatch, ?_⟩
    · rw [hgrid, Nat.mul_comm]
      exact Tiles.le_blocks_mul fits.block
    · rw [hgrid, Nat.mul_comm]
      exact Tiles.blocks_mul_lt fits.block
    · exact (outcome_iff hs hprop hload hkernel).mpr ((hwarps hgrid).mpr fits.warps)

/-! ## What the launch stores -/

/-- The blocked kernel of a launch, with the tile that the module reported. -/
def Context.shape (ctx : Context) : BlasKernel → Option Sgemm.Shape
  | .sgemmRb => some (.rb ctx.rbRows.toUInt32)
  | .sgemm2d => some (.micro ctx.tdRows.toUInt32 ctx.tdCols.toUInt32 false)
  | .sgemm2dI => some (.micro ctx.tdRows.toUInt32 ctx.tdCols.toUInt32 true)
  | .sgemm4x2 => some (.micro ctx.mdRows.toUInt32 ctx.mdCols.toUInt32 false)
  | .sgemm4x4 => some (.micro ctx.wdRows.toUInt32 ctx.wdCols.toUInt32 false)
  | _ => none

theorem shape_rows {shape : Sgemm.Shape} (h : ctx.shape kernel = some shape) :
    shape.rows = (ctx.tileRows kernel).toUInt32 := by
  cases kernel <;> cases h <;> rfl

theorem shape_cols {shape : Sgemm.Shape} (h : ctx.shape kernel = some shape) :
    shape.cols = (ctx.tileCols kernel).toUInt32 := by
  cases kernel <;> cases h <;> rfl

theorem shape_interior {RM RN : UInt32} (h : ctx.shape kernel = some (.micro RM RN true)) :
    kernel = .sgemm2dI := by
  cases kernel <;> cases h <;> rfl

/-- The grid of a launch, as the threads see it. -/
def Launch.toGrid (l : Launch) : Sgemm.Grid where
  x := l.grid.1
  batch := l.grid.2
  block := l.block

/-- The launch of a call whose counts are in their types has a thread for each tile, with an index of its
own. -/
theorem sgemmLaunch_covers (hs : s.Accepted) (htile : ctx.HasTile kernel) (fits : SgemmFits ctx prop s kernel) :
    (sgemmLaunch ctx prop s kernel refused).toGrid.Covers (ctx.tiles kernel s.m s.n) ∧
      (sgemmLaunch ctx prop s kernel refused).toGrid.Indexed := by
  have hrows := (tilesOf_eq_iff hs.m htile.1).mpr fits.rows
  have hcols := (tilesOf_eq_iff hs.n htile.2).mpr fits.cols
  have hgrid := sgemmGrid_exact htile hs.m hs.n hrows hcols fits.block fits.threads
  have hle := Tiles.le_blocks_mul (m := ctx.tiles kernel s.m s.n) fits.block
  have hlt := Tiles.blocks_mul_lt (m := ctx.tiles kernel s.m s.n) fits.block
  have hthreads := fits.threads
  rw [Nat.mul_comm, ← hgrid] at hle hlt
  refine ⟨hle, ?_⟩
  show (sgemmGrid ctx prop kernel s.m s.n).toNat * prop.block ≤ 2 ^ 32
  omega

/-- A call whose counts are in their types has its kernel store every element of `C` once. -/
theorem sgemm_call_stores {F : Type} {f : Sgemm.Arith F} {A B : ℤ → F} {x : Sgemm.SgemmArgs F}
    {shape : Sgemm.Shape} (hs : s.Accepted)
    (hkernel : decideSgemmKernel ctx prop s.m s.n s.batch force = kernel) (fits : SgemmFits ctx prop s kernel)
    (hshape : ctx.shape kernel = some shape) (hx : x.InRange) (hm : x.m = s.m.toUInt32)
    (hn : x.n = s.n.toUInt32) (batch : UInt32) :
    ((sgemmLaunch ctx prop s kernel refused).toGrid.stores (shape.kernel f A B x) batch).Perm
      (x.elements f A B batch) := by
  have htile : ctx.HasTile kernel := hkernel ▸ hasTile_of_decide
  have hgrid : (sgemmLaunch ctx prop s kernel refused).toGrid.Covers (ctx.tiles kernel s.m s.n) ∧
      (sgemmLaunch ctx prop s kernel refused).toGrid.Indexed := sgemmLaunch_covers hs htile fits
  have hmNat : x.m.toNat = s.m.toInt.toNat := by rw [hm, toUInt32_toNat hs.m.le]
  have hnNat : x.n.toNat = s.n.toInt.toNat := by rw [hn, toUInt32_toNat hs.n.le]
  have hrows : shape.rows.toNat = (ctx.tileRows kernel).toInt.toNat := by
    rw [shape_rows hshape, toUInt32_toNat htile.1.le]
  have hcols : shape.cols.toNat = (ctx.tileCols kernel).toInt.toNat := by
    rw [shape_cols hshape, toUInt32_toNat htile.2.le]
  have hpadRows := fits.rows
  have hpadCols := fits.cols
  have hm' := hs.m
  have hn' := hs.n
  obtain ⟨hrowsPos, hcolsPos⟩ := htile
  apply Sgemm.Shape.stores_perm hx
  · refine ⟨by omega, by omega, fun RM RN hint => ?_⟩
    subst hint
    have htwoDI := shape_interior hshape
    subst htwoDI
    obtain ⟨hdvdRows, hdvdCols⟩ := interior_of_decide hkernel
    rw [hmNat, hnNat]
    exact ⟨hrows.symm ▸ toNat_dvd hm'.le hrowsPos.le hdvdRows, hcols.symm ▸ toNat_dvd hn'.le hcolsPos.le hdvdCols⟩
  · exact ⟨by omega, by omega⟩
  · exact hgrid.2
  · unfold Sgemm.Shape.tiles
    rw [hmNat, hnNat, hrows, hcols]
    exact hgrid.1

end Calls

/-- A device with warps of four, and a handle that has its module with a tile of `2 x 2` and a probe. -/
def oneDevice : Machine where
  props := fun _ => .ok {}
  slotCount := fun _ => .ok 4

def probedHandle : Context where
  module := some { device := 0 }
  tdRows := 2
  tdCols := 2
  probe := 0x8000
  probeCapacity := 8

def noReplies : LoadReplies where
  module := none
  alloc := true
  launch := none
  shape := none

/-- A product of `m x 1` by `1 x n`. -/
def outerProduct (m n : Int32) : SgemmArgs where
  m := m
  n := n
  k := 1
  a := 0x1000
  lda := m
  b := 0x2000
  ldb := 1
  c := 0x3000
  ldc := m

/-- `7 x 5` in tiles of `2 x 2` is twelve tiles, in three warps. -/
theorem sgemm_law_7x5 : SgemmLaw probedHandle [] {} (outerProduct 7 5) .sgemm2d none
    (sgemmBatched oneDevice 0 probedHandle (outerProduct 7 5) noReplies {} none) :=
  (sgemm_law_iff ⟨rfl, by decide, by decide, by decide, by decide, by decide, by decide, by decide⟩ rfl rfl
    (by decide)).mpr ⟨by decide, by decide, by decide, by decide, fun _ => .inl (by decide)⟩

/-- `131074 x 131072` in tiles of `2 x 2` is `2 ^ 32 + 65536` tiles, and 65536 threads are launched. -/
theorem sgemm_law_not : (outerProduct 131074 131072).Accepted ∧
    launches (sgemmBatched oneDevice 0 { probedHandle with probe := 0 } (outerProduct 131074 131072)
      noReplies {} none).issued =
        [{ kernel := .sgemm2dI, device := 0, grid := (16384, 1), block := 4, stream := none, refused := none }] ∧
      16384 * 4 < probedHandle.tiles .sgemm2dI 131074 131072 ∧
      ¬SgemmLaw { probedHandle with probe := 0 } [] {} (outerProduct 131074 131072) .sgemm2dI none
        (sgemmBatched oneDevice 0 { probedHandle with probe := 0 } (outerProduct 131074 131072)
          noReplies {} none) := by
  have htiles : 16384 * 4 < probedHandle.tiles .sgemm2dI 131074 131072 := by
    decide +kernel
  refine ⟨⟨rfl, by decide, by decide, by decide, by decide, by decide, by decide, by decide⟩,
    by decide +kernel, htiles, fun law => ?_⟩
  have hthreads : (sgemmGrid { probedHandle with probe := 0 } {} .sgemm2dI 131074 131072).toNat *
      ({} : DeviceProp).block = 16384 * 4 := by
    decide +kernel
  exact absurd (law.covers.trans_eq hthreads) (Nat.not_le.mpr htiles)

end Grxcp.Blas
