import Grxcp.Device.SgemmTiles
import Grxcp.Lib.Lanes

/-!
# The tensor-core kernel

`gemm_body` of `hgemm_tcu.cpp`, over any pairing of types: what a warp stages, multiplies and stores. The
tensor unit and the copy engine are not the kernel's: they are given, with the calls that it makes of them.
The warps have a staging area each, and the lanes of a warp go in lockstep, so that a warp is followed as
one. The cycle probe and the barriers are left out: a transfer is over once it has been waited for.
-/

namespace Grxcp.TensorGemm

open Sgemm (Arith Store affine_toNat kLoop toNat_ofNat_lt)
open Lanes (strided)

def GRXBLAS_HGEMM_ABI_VERSION : UInt32 := 4

def GRXBLAS_ABI_OP_N : UInt32 := 0

def GRXBLAS_ABI_OP_T : UInt32 := 1

/-- `grxblas_hgemm_args`, without the address of `C`. -/
structure HgemmArgs (Acc : Type) where
  abiVersion : UInt32 := GRXBLAS_HGEMM_ABI_VERSION
  m : UInt32
  n : UInt32
  k : UInt32
  ldc : UInt32
  mTiles : UInt32
  tiles : UInt32
  kSteps : UInt32
  slotA : UInt32
  slotB : UInt32
  transa : UInt32
  transb : UInt32
  alpha : Acc
  beta : Acc

/-- `w::tile` and the fragments of a build, with the calls on them. A matrix in shared memory is its elements
by index, and a store in row major order leaves such. -/
structure TensorUnit (In Acc : Type) where
  m : UInt32
  n : UInt32
  k : UInt32
  FragA : Type
  FragB : Type
  FragAcc : Type
  fillFragment : Acc → FragAcc
  loadA : (ℕ → In) → UInt32 → FragA
  loadB : (ℕ → In) → UInt32 → FragB
  mmaSync : FragA → FragB → FragAcc → FragAcc
  storeMatrix : FragAcc → UInt32 → ℕ → Acc

/-- The copy engine: the tile of a slot at two coordinates, as it lands in shared memory. -/
abbrev CopyEngine (In : Type) :=
  UInt32 → UInt32 → UInt32 → ℕ → In

/-- `kTilesM` and `kTilesN`. A loop over the tiles of a block has one round. -/
def kTilesM : UInt32 := 1

def kTilesN : UInt32 := 1

section Kernel

variable {In Acc : Type} [OfNat In 0] (f : Arith Acc) (u : TensorUnit In Acc) (memcpyAsync : CopyEngine In)
  (W : UInt32) (arg : HgemmArgs Acc)

/-- `smem_layout::blockM`. -/
def TensorUnit.blockM : UInt32 :=
  kTilesM * u.m

/-- `smem_layout::blockN`. -/
def TensorUnit.blockN : UInt32 :=
  kTilesN * u.n

/-- The loop that zeroes what the last step overhangs, by the lanes of a warp of `W`. -/
def zeroTail (tk kValid count : UInt32) (s : ℕ → In) : ℕ → In :=
  ((List.range W.toNat).flatMap fun lane => strided count W (UInt32.ofNat lane)).foldl
    (fun s i => if kValid ≤ i % tk then Function.update s i.toNat 0 else s) s

/-- What is staged of `A` for a step, of the block of rows from `row0` on. -/
def stageA (row0 k0 : UInt32) : ℕ → In :=
  if arg.transa = GRXBLAS_ABI_OP_N then memcpyAsync arg.slotA row0 k0 else memcpyAsync arg.slotA k0 row0

/-- And of `B`, of the block of columns from `col0` on. -/
def stageB (k0 col0 : UInt32) : ℕ → In :=
  if arg.transb = GRXBLAS_ABI_OP_N then memcpyAsync arg.slotB k0 col0 else memcpyAsync arg.slotB col0 k0

/-- A step over `k`. -/
def gemmStep (row0 col0 : UInt32) (acc : u.FragAcc) (step : UInt32) : u.FragAcc :=
  let k0 := step * u.k
  let sA := stageA memcpyAsync arg row0 k0
  let sB := stageB memcpyAsync arg k0 col0
  let kValid := if k0 < arg.k then arg.k - k0 else 0
  let sA := if kValid < u.k then zeroTail W u.k kValid (u.blockM * u.k) sA else sA
  let sB := if kValid < u.k then zeroTail W u.k kValid (u.blockN * u.k) sB else sB
  u.mmaSync (u.loadA sA u.k) (u.loadB sB u.k) acc

/-- `*dst = ...`, for a row and a column of `C`. -/
def HgemmArgs.store (row col : UInt32) (value : Acc) : Store Acc where
  addr := (row + col * arg.ldc).toNat
  value := fun c =>
    if f.isZero arg.beta then f.mul arg.alpha value else f.add (f.mul arg.alpha value) (f.mul arg.beta c)

/-- What a warp stores for block `b`. -/
def blockStores (b : UInt32) : List (Store Acc) :=
  let blockRow := b % arg.mTiles
  let blockCol := b / arg.mTiles
  let row0 := blockRow * u.blockM
  let col0 := blockCol * u.blockN
  let acc := kLoop arg.kSteps (gemmStep u memcpyAsync W arg row0 col0) (u.fillFragment f.zero)
  let sC := u.storeMatrix acc u.n
  (List.range W.toNat).flatMap fun lane => (strided (u.m * u.n) W (UInt32.ofNat lane)).flatMap fun idx =>
    let row := row0 + idx / u.n
    let col := col0 + idx % u.n
    if arg.m ≤ row ∨ arg.n ≤ col then [] else [arg.store f row col (sC idx.toNat)]

/-- `gemm_body`, of a warp of `warps`. -/
def gemmBody (warps warp : UInt32) : List (Store Acc) :=
  (strided arg.tiles warps warp).flatMap (blockStores f u memcpyAsync W arg)

/-- `hgemm_tcu` and `igemm_tcu`: what the warps of the block store. -/
def hgemmTcu (warps : UInt32) : List (Store Acc) :=
  if arg.abiVersion ≠ GRXBLAS_HGEMM_ABI_VERSION then []
  else (List.range warps.toNat).flatMap fun warp => gemmBody f u memcpyAsync W arg warps (UInt32.ofNat warp)

end Kernel

/-! ## The unit -/

section Unit

variable {In Acc : Type} [OfNat In 0]

/-- The shape of a build: a tile has two rows and two columns at least, its outputs are counted in an `int`,
and so are the elements that are staged for it. A warp has lanes. -/
structure TensorUnit.Shaped (u : TensorUnit In Acc) (W : UInt32) : Prop where
  rows : 2 ≤ u.m.toNat
  cols : 2 ≤ u.n.toNat
  depth : 0 < u.k.toNat
  outputs : u.m.toNat * u.n.toNat < 2 ^ 31
  stagedA : u.m.toNat * u.k.toNat < 2 ^ 31
  stagedB : u.n.toNat * u.k.toNat < 2 ^ 31
  lanes : 0 < W.toNat
  width : W.toNat < 2 ^ 31

/-- The int8 unit multiplies and accumulates exactly, in an accumulator of 32 bits: of `A` it takes rows and
of `B` columns, from the leading dimension that they were loaded with. -/
structure TensorUnit.Exact (u : TensorUnit Int8 Int32) : Prop where
  fill : ∀ x, ∀ i < u.m.toNat, ∀ j < u.n.toNat,
    u.storeMatrix (u.fillFragment x) u.n (i * u.n.toNat + j) = x
  mma : ∀ sA sB acc, ∀ i < u.m.toNat, ∀ j < u.n.toNat,
    u.storeMatrix (u.mmaSync (u.loadA sA u.k) (u.loadB sB u.k) acc) u.n (i * u.n.toNat + j) =
      u.storeMatrix acc u.n (i * u.n.toNat + j) + Int32.ofInt (∑ l ∈ Finset.range u.k.toNat,
        (sA (i * u.k.toNat + l)).toInt * (sB (j * u.k.toNat + l)).toInt)

variable {u : TensorUnit In Acc} {W : UInt32}

theorem blockM_eq : u.blockM = u.m :=
  UInt32.one_mul _

theorem blockN_eq : u.blockN = u.n :=
  UInt32.one_mul _

/-! ## The tail -/

/-- A zeroing loop over some indices zeroes those that are past the valid ones. -/
theorem foldl_zero {tk kValid : UInt32} (is : List UInt32) (s : ℕ → In) (p : ℕ) :
    is.foldl (fun s i => if kValid ≤ i % tk then Function.update s i.toNat 0 else s) s p =
      if ∃ i ∈ is, i.toNat = p ∧ kValid ≤ i % tk then 0 else s p := by
  induction is generalizing s with
  | nil => rw [if_neg (by rintro ⟨i, hi, -⟩; exact absurd hi List.not_mem_nil)]; rfl
  | cons i is ih =>
    rw [List.foldl_cons, ih]
    by_cases htail : ∃ i ∈ is, i.toNat = p ∧ kValid ≤ i % tk
    · obtain ⟨j, hj, hjp⟩ := htail
      rw [if_pos ⟨j, hj, hjp⟩, if_pos ⟨j, List.mem_cons_of_mem i hj, hjp⟩]
    · rw [if_neg htail]
      by_cases hhere : i.toNat = p ∧ kValid ≤ i % tk
      · rw [if_pos hhere.2, if_pos ⟨i, List.mem_cons_self, hhere⟩, hhere.1, Function.update_self]
      · have hnone : ¬∃ j ∈ i :: is, j.toNat = p ∧ kValid ≤ j % tk := by
          rintro ⟨j, hj, hjp⟩
          rcases List.mem_cons.mp hj with rfl | hj
          · exact hhere hjp
          · exact htail ⟨j, hj, hjp⟩
        rw [if_neg hnone]
        split
        next hvalid => exact Function.update_of_ne (fun hp => hhere ⟨hp.symm, hvalid⟩) _ _
        next => rfl

/-- A staged tile after its tail is zeroed. -/
theorem zeroTail_apply {tk kValid count : UInt32} (hW : 0 < W.toNat) (hfits : count.toNat + W.toNat ≤ 2 ^ 32)
    (s : ℕ → In) {p : ℕ} (hp : p < count.toNat) :
    zeroTail W tk kValid count s p = if kValid.toNat ≤ p % tk.toNat then 0 else s p := by
  have hpw : (UInt32.ofNat p).toNat = p := UInt32.toNat_ofNat_of_lt' (lt_trans hp count.toNat_lt)
  have hlanes := Lanes.strided_perm hW hfits
  unfold zeroTail
  rw [foldl_zero]
  apply if_congr _ rfl rfl
  constructor
  · rintro ⟨i, -, rfl, hvalid⟩
    rw [← UInt32.toNat_mod]
    exact UInt32.le_iff_toNat_le.mp hvalid
  · intro hvalid
    have hmem := hlanes.mem_iff.mpr (List.mem_range.mpr hp)
    rw [← List.map_flatMap] at hmem
    obtain ⟨i, hi, rfl⟩ := List.mem_map.mp hmem
    refine ⟨i, hi, rfl, ?_⟩
    rw [UInt32.le_iff_toNat_le, UInt32.toNat_mod]
    exact hvalid

end Unit

/-! ## A block -/

/-- What the host leaves in the arguments: the counts of blocks and steps that cover the problem, and elements
of `C` whose index is below `2 ^ 32`. -/
structure HgemmArgs.Sized {In Acc : Type} (arg : HgemmArgs Acc) (u : TensorUnit In Acc) : Prop where
  abi : arg.abiVersion = GRXBLAS_HGEMM_ABI_VERSION
  m : arg.m.toNat < 2 ^ 31
  n : arg.n.toNat < 2 ^ 31
  k : arg.k.toNat < 2 ^ 31
  mTiles : arg.mTiles.toNat = Tiles.blocks arg.m.toNat u.m.toNat
  tiles : arg.tiles.toNat = Tiles.blocks arg.m.toNat u.m.toNat * Tiles.blocks arg.n.toNat u.n.toNat
  kSteps : arg.kSteps.toNat = Tiles.blocks arg.k.toNat u.k.toNat
  index : ∀ i < arg.m.toNat, ∀ j < arg.n.toNat, i + j * arg.ldc.toNat < 2 ^ 32

/-- The operands that the copy engine stages from: `a i l` and `b l j` are the elements of the products. What it
stages for rows and columns that `C` does not have, and past `k`, is anything. -/
structure HgemmArgs.Stages {In Acc : Type} (arg : HgemmArgs Acc) (u : TensorUnit In Acc)
    (memcpyAsync : CopyEngine In) (a b : ℕ → ℕ → In) : Prop where
  rows : ∀ row0 k0 : UInt32, ∀ i < u.m.toNat, ∀ l < u.k.toNat, row0.toNat + i < arg.m.toNat →
    k0.toNat + l < arg.k.toNat →
      stageA memcpyAsync arg row0 k0 (i * u.k.toNat + l) = a (row0.toNat + i) (k0.toNat + l)
  cols : ∀ k0 col0 : UInt32, ∀ j < u.n.toNat, ∀ l < u.k.toNat, col0.toNat + j < arg.n.toNat →
    k0.toNat + l < arg.k.toNat →
      stageB memcpyAsync arg k0 col0 (j * u.k.toNat + l) = b (k0.toNat + l) (col0.toNat + j)

/-- The arithmetic of `int32_t`. -/
def int32Arith : Arith Int32 where
  zero := 0
  add := (· + ·)
  mul := (· * ·)
  isZero := (· == 0)

/-- The exact sum over `k` for an element of `C`. -/
def dot (k : ℕ) (a b : ℕ → ℕ → Int8) (i j : ℕ) : ℤ :=
  ∑ l ∈ Finset.range k, (a i l).toInt * (b l j).toInt

/-- The store to an element of `C`: `alpha` times the exact sum plus `beta` times what was there. -/
def HgemmArgs.element (arg : HgemmArgs Int32) (a b : ℕ → ℕ → Int8) (c : ℕ × ℕ) : Store Int32 where
  addr := (c.1 + c.2 * arg.ldc.toNat : ℕ)
  value := fun old => arg.alpha * Int32.ofInt (dot arg.k.toNat a b c.1 c.2) + arg.beta * old

section Block

variable {u : TensorUnit Int8 Int32} {W : UInt32} {arg : HgemmArgs Int32} {memcpyAsync : CopyEngine Int8}
  {a b : ℕ → ℕ → Int8}

/-- A staged tile in which what is past `k` is zero. -/
theorem tail_apply {tk kValid rows : UInt32} (hW : 0 < W.toNat) (hcount : (rows * tk).toNat = rows.toNat * tk.toNat)
    (hfits : rows.toNat * tk.toNat + W.toNat ≤ 2 ^ 32) (s : ℕ → Int8) {r l : ℕ} (hr : r < rows.toNat)
    (hl : l < tk.toNat) :
    (if kValid < tk then zeroTail W tk kValid (rows * tk) s else s) (r * tk.toNat + l) =
      if l < kValid.toNat then s (r * tk.toNat + l) else 0 := by
  have hmod : (r * tk.toNat + l) % tk.toNat = l := by
    rw [Nat.mul_comm, Nat.mul_add_mod, Nat.mod_eq_of_lt hl]
  have hp : r * tk.toNat + l < rows.toNat * tk.toNat := by
    have hle := Nat.mul_le_mul_right tk.toNat (Nat.succ_le_of_lt hr)
    rw [Nat.succ_mul] at hle
    omega
  split
  next htail =>
    rw [zeroTail_apply hW (by rwa [hcount]) s (by rwa [hcount]), hmod]
    by_cases hvalid : l < kValid.toNat
    · rw [if_neg (Nat.not_le.mpr hvalid), if_pos hvalid]
    · rw [if_pos (Nat.not_lt.mp hvalid), if_neg hvalid]
  next hfull =>
    have hle := UInt32.le_iff_toNat_le.mp (UInt32.not_lt.mp hfull)
    rw [if_pos (lt_of_lt_of_le hl hle)]

/-- A step adds its terms of the sum. -/
theorem gemmStep_apply (hu : u.Shaped W) (hexact : u.Exact) (hstages : arg.Stages u memcpyAsync a b)
    {row0 col0 step : UInt32} (hk0 : (step * u.k).toNat = step.toNat * u.k.toNat) (acc : u.FragAcc) {i j : ℕ}
    (hi : i < u.m.toNat) (hj : j < u.n.toNat) (hrow : row0.toNat + i < arg.m.toNat)
    (hcol : col0.toNat + j < arg.n.toNat) :
    u.storeMatrix (gemmStep u memcpyAsync W arg row0 col0 acc step) u.n (i * u.n.toNat + j) =
      u.storeMatrix acc u.n (i * u.n.toNat + j) + Int32.ofInt (∑ l ∈ Finset.range u.k.toNat,
        if step.toNat * u.k.toNat + l < arg.k.toNat then
          (a (row0.toNat + i) (step.toNat * u.k.toNat + l)).toInt *
            (b (step.toNat * u.k.toNat + l) (col0.toNat + j)).toInt else 0) := by
  have hwidth := hu.width
  have hlanes := hu.lanes
  have hstagedA := hu.stagedA
  have hstagedB := hu.stagedB
  have hcountA : (u.blockM * u.k).toNat = u.m.toNat * u.k.toNat := by
    rw [blockM_eq, UInt32.toNat_mul, Nat.mod_eq_of_lt (by omega)]
  have hcountB : (u.blockN * u.k).toNat = u.n.toNat * u.k.toNat := by
    rw [blockN_eq, UInt32.toNat_mul, Nat.mod_eq_of_lt (by omega)]
  have hvalid : ∀ l, l < (if step * u.k < arg.k then arg.k - step * u.k else 0 : UInt32).toNat ↔
      step.toNat * u.k.toNat + l < arg.k.toNat := by
    intro l
    split
    next hlt =>
      rw [UInt32.toNat_sub_of_le _ _ (UInt32.le_of_lt hlt), hk0]
      have hlt := UInt32.lt_iff_toNat_lt.mp hlt
      omega
    next hge =>
      have hle := UInt32.le_iff_toNat_le.mp (UInt32.not_lt.mp hge)
      rw [hk0] at hle
      rw [UInt32.toNat_zero]
      omega
  unfold gemmStep
  dsimp only
  rw [hexact.mma _ _ _ i hi j hj]
  apply congrArg (_ + Int32.ofInt ·)
  apply Finset.sum_congr rfl
  intro l hl
  have hl := Finset.mem_range.mp hl
  rw [tail_apply hlanes (by rw [hcountA, blockM_eq]) (by rw [blockM_eq]; omega) _ (by rwa [blockM_eq]) hl,
    tail_apply hlanes (by rw [hcountB, blockN_eq]) (by rw [blockN_eq]; omega) _ (by rwa [blockN_eq]) hl]
  by_cases hin : step.toNat * u.k.toNat + l < arg.k.toNat
  · have hk : (step * u.k).toNat + l < arg.k.toNat := by rwa [hk0]
    rw [if_pos ((hvalid l).mpr hin), if_pos ((hvalid l).mpr hin), if_pos hin,
      hstages.rows row0 _ i hi l hl hrow hk, hstages.cols _ col0 j hj l hl hcol hk, hk0]
  · rw [if_neg (mt (hvalid l).mp hin), if_neg (mt (hvalid l).mp hin), if_neg hin]
    rfl

/-- The loop over `k` sums it all. -/
theorem kLoop_gemmStep (hu : u.Shaped W) (hexact : u.Exact) (hstages : arg.Stages u memcpyAsync a b)
    (harg : arg.Sized u) {row0 col0 : UInt32} {i j : ℕ} (hi : i < u.m.toNat) (hj : j < u.n.toNat)
    (hrow : row0.toNat + i < arg.m.toNat) (hcol : col0.toNat + j < arg.n.toNat) :
    u.storeMatrix (kLoop arg.kSteps (gemmStep u memcpyAsync W arg row0 col0) (u.fillFragment int32Arith.zero)) u.n
      (i * u.n.toNat + j) = Int32.ofInt (dot arg.k.toNat a b (row0.toNat + i) (col0.toNat + j)) := by
  have hcover := Tiles.le_blocks_mul (m := arg.k.toNat) hu.depth
  have hbound := Tiles.blocks_mul_lt (m := arg.k.toNat) hu.depth
  have hk := harg.k
  have hdepth : u.k.toNat < 2 ^ 31 := by
    have hmul := Nat.mul_le_mul_right u.k.toNat hu.rows
    have hstaged := hu.stagedA
    omega
  rw [← harg.kSteps, Nat.mul_comm] at hcover hbound
  have hloop : ∀ t ≤ arg.kSteps.toNat,
      u.storeMatrix ((List.range t).foldl
        (fun s l => gemmStep u memcpyAsync W arg row0 col0 s (UInt32.ofNat l)) (u.fillFragment int32Arith.zero)) u.n
        (i * u.n.toNat + j) = Int32.ofInt (∑ l ∈ Finset.range (t * u.k.toNat), if l < arg.k.toNat then
          (a (row0.toNat + i) l).toInt * (b l (col0.toNat + j)).toInt else 0) := by
    intro t ht
    induction t with
    | zero =>
      rw [Nat.zero_mul, Finset.sum_range_zero]
      exact hexact.fill 0 i hi j hj
    | succ t ih =>
      have hstep := toNat_ofNat_lt (k := arg.kSteps) ht
      have hmul := Nat.mul_le_mul_right u.k.toNat ht
      rw [Nat.succ_mul] at hmul
      have hk0 : (UInt32.ofNat t * u.k).toNat = (UInt32.ofNat t).toNat * u.k.toNat := by
        rw [UInt32.toNat_mul, hstep, Nat.mod_eq_of_lt (by omega)]
      rw [List.range_succ, List.foldl_append, List.foldl_cons, List.foldl_nil,
        gemmStep_apply hu hexact hstages hk0 _ hi hj hrow hcol, ih (Nat.le_of_succ_le ht), Nat.succ_mul,
        Finset.sum_range_add, Int32.ofInt_add, hstep]
  unfold kLoop
  rw [hloop _ le_rfl]
  apply congrArg
  obtain ⟨extra, hextra⟩ := Nat.exists_eq_add_of_le hcover
  rw [hextra, Finset.sum_range_add]
  have htail : ∀ l ∈ Finset.range extra, (if arg.k.toNat + l < arg.k.toNat then
      (a (row0.toNat + i) (arg.k.toNat + l)).toInt * (b (arg.k.toNat + l) (col0.toNat + j)).toInt else 0) = 0 :=
    fun l _ => if_neg (by omega)
  rw [Finset.sum_eq_zero htail, add_zero]
  apply Finset.sum_congr rfl
  intro l hl
  rw [if_pos (Finset.mem_range.mp hl)]

/-- The row and the column of an output of block `t` are where its tile is. -/
theorem place_toNat (hu : u.Shaped W) (harg : arg.Sized u) {t idx : UInt32} (ht : t.toNat < arg.tiles.toNat)
    (hidx : idx.toNat < u.m.toNat * u.n.toNat) :
    ((t % arg.mTiles * u.blockM).toNat = t.toNat % Tiles.blocks arg.m.toNat u.m.toNat * u.m.toNat ∧
        (t % arg.mTiles * u.blockM + idx / u.n).toNat =
          t.toNat % Tiles.blocks arg.m.toNat u.m.toNat * u.m.toNat + idx.toNat / u.n.toNat) ∧
      (t / arg.mTiles * u.blockN).toNat = t.toNat / Tiles.blocks arg.m.toNat u.m.toNat * u.n.toNat ∧
        (t / arg.mTiles * u.blockN + idx % u.n).toNat =
          t.toNat / Tiles.blocks arg.m.toNat u.m.toNat * u.n.toNat + idx.toNat % u.n.toNat := by
  have hm := harg.m
  have hn := harg.n
  have hrows := hu.rows
  have hcols := hu.cols
  have houtputs := hu.outputs
  have hoverM := Tiles.blocks_mul_lt (m := arg.m.toNat) (r := u.m.toNat) (by omega)
  have hoverN := Tiles.blocks_mul_lt (m := arg.n.toNat) (r := u.n.toNat) (by omega)
  rw [harg.tiles] at ht
  have hmod : t.toNat % Tiles.blocks arg.m.toNat u.m.toNat < Tiles.blocks arg.m.toNat u.m.toNat :=
    Nat.mod_lt _ (Nat.pos_of_mul_pos_right (Nat.zero_lt_of_lt ht))
  have hdiv : t.toNat / Tiles.blocks arg.m.toNat u.m.toNat < Tiles.blocks arg.n.toNat u.n.toNat :=
    Nat.div_lt_of_lt_mul ht
  have hrowIn : idx.toNat / u.n.toNat < u.m.toNat := Nat.div_lt_of_lt_mul (by rwa [Nat.mul_comm])
  have hcolIn : idx.toNat % u.n.toNat < u.n.toNat := Nat.mod_lt _ (by omega)
  have hmulM := Nat.mul_le_mul_right u.m.toNat (Nat.succ_le_of_lt hmod)
  have hmulN := Nat.mul_le_mul_right u.n.toNat (Nat.succ_le_of_lt hdiv)
  have hlowM : u.m.toNat * 2 ≤ u.m.toNat * u.n.toNat := Nat.mul_le_mul_left _ hcols
  have hlowN : 2 * u.n.toNat ≤ u.m.toNat * u.n.toNat := Nat.mul_le_mul_right _ hrows
  rw [Nat.succ_mul, Nat.mul_comm (Tiles.blocks _ _)] at hmulM hmulN
  have hrow0 : (t % arg.mTiles * u.blockM).toNat = t.toNat % Tiles.blocks arg.m.toNat u.m.toNat * u.m.toNat := by
    rw [blockM_eq, UInt32.toNat_mul, UInt32.toNat_mod, harg.mTiles, Nat.mod_eq_of_lt (by omega)]
  have hcol0 : (t / arg.mTiles * u.blockN).toNat = t.toNat / Tiles.blocks arg.m.toNat u.m.toNat * u.n.toNat := by
    rw [blockN_eq, UInt32.toNat_mul, UInt32.toNat_div, harg.mTiles, Nat.mod_eq_of_lt (by omega)]
  refine ⟨⟨hrow0, ?_⟩, hcol0, ?_⟩
  · rw [UInt32.toNat_add, UInt32.toNat_div, hrow0, Nat.mod_eq_of_lt (by omega)]
  · rw [UInt32.toNat_add, UInt32.toNat_mod, hcol0, Nat.mod_eq_of_lt (by omega)]

/-- What is stored for an element. A `beta` of zero adds nothing, and reads nothing. -/
theorem store_eq (harg : arg.Sized u) {row col : UInt32} {i j : ℕ} (hrow : row.toNat = i) (hcol : col.toNat = j)
    (hi : i < arg.m.toNat) (hj : j < arg.n.toNat) :
    arg.store int32Arith row col (Int32.ofInt (dot arg.k.toNat a b i j)) = arg.element a b (i, j) := by
  have hindex := harg.index i hi j hj
  have haddr : (row + col * arg.ldc).toNat = i + j * arg.ldc.toNat := by
    rw [affine_toNat (by rwa [hrow, hcol]), hrow, hcol]
  unfold HgemmArgs.store HgemmArgs.element
  rw [haddr]
  apply congrArg
  funext old
  dsimp only
  split
  next hzero =>
    have hbeta : arg.beta = 0 := eq_of_beq hzero
    rw [hbeta, Int32.zero_mul, Int32.add_zero]
    rfl
  next => rfl

/-- A block stores the elements of its tile that are in `C`. -/
theorem blockStores_perm (hu : u.Shaped W) (hexact : u.Exact) (hstages : arg.Stages u memcpyAsync a b)
    (harg : arg.Sized u) {t : UInt32} (ht : t.toNat < arg.tiles.toNat) :
    (blockStores int32Arith u memcpyAsync W arg t).Perm
      ((Tiles.tile arg.m.toNat arg.n.toNat (Tiles.blocks arg.m.toNat u.m.toNat) u.m.toNat u.n.toNat t.toNat).map
        (arg.element a b)) := by
  have houtputs := hu.outputs
  have hwidth := hu.width
  have hcount : (u.m * u.n).toNat = u.m.toNat * u.n.toNat := by
    rw [UInt32.toNat_mul, Nat.mod_eq_of_lt (by omega)]
  have htile : (Tiles.tile arg.m.toNat arg.n.toNat (Tiles.blocks arg.m.toNat u.m.toNat) u.m.toNat u.n.toNat
      t.toNat).map (arg.element a b) = (List.range (u.m * u.n).toNat).flatMap fun idx =>
        if t.toNat % Tiles.blocks arg.m.toNat u.m.toNat * u.m.toNat + idx / u.n.toNat < arg.m.toNat ∧
            t.toNat / Tiles.blocks arg.m.toNat u.m.toNat * u.n.toNat + idx % u.n.toNat < arg.n.toNat then
          [arg.element a b (t.toNat % Tiles.blocks arg.m.toNat u.m.toNat * u.m.toNat + idx / u.n.toNat,
            t.toNat / Tiles.blocks arg.m.toNat u.m.toNat * u.n.toNat + idx % u.n.toNat)] else [] := by
    unfold Tiles.tile
    rw [hcount, Tiles.flatMap_ite (fun idx =>
      t.toNat % Tiles.blocks arg.m.toNat u.m.toNat * u.m.toNat + idx / u.n.toNat < arg.m.toNat ∧
        t.toNat / Tiles.blocks arg.m.toNat u.m.toNat * u.n.toNat + idx % u.n.toNat < arg.n.toNat), List.filter_map,
      List.map_map, List.map_eq_flatMap]
    rfl
  rw [htile]
  unfold blockStores
  apply Lanes.strided_flatMap hu.lanes (by rw [hcount]; omega)
  intro idx hidx
  have hlt := UInt32.lt_iff_toNat_lt.mp hidx
  rw [hcount] at hlt
  obtain ⟨⟨hrow0, hrow⟩, hcol0, hcol⟩ := place_toNat hu harg ht hlt
  have hguard : arg.m ≤ t % arg.mTiles * u.blockM + idx / u.n ∨ arg.n ≤ t / arg.mTiles * u.blockN + idx % u.n ↔
      ¬(t.toNat % Tiles.blocks arg.m.toNat u.m.toNat * u.m.toNat + idx.toNat / u.n.toNat < arg.m.toNat ∧
        t.toNat / Tiles.blocks arg.m.toNat u.m.toNat * u.n.toNat + idx.toNat % u.n.toNat < arg.n.toNat) := by
    rw [UInt32.le_iff_toNat_le, UInt32.le_iff_toNat_le, hrow, hcol, not_and_or, Nat.not_lt, Nat.not_lt]
  dsimp only
  by_cases hin : t.toNat % Tiles.blocks arg.m.toNat u.m.toNat * u.m.toNat + idx.toNat / u.n.toNat < arg.m.toNat ∧
      t.toNat / Tiles.blocks arg.m.toNat u.m.toNat * u.n.toNat + idx.toNat % u.n.toNat < arg.n.toNat
  · have hcols : 0 < u.n.toNat := lt_of_lt_of_le Nat.two_pos hu.cols
    have hrowIn : idx.toNat / u.n.toNat < u.m.toNat := Nat.div_lt_of_lt_mul (by rwa [Nat.mul_comm])
    have hrowC : (t % arg.mTiles * u.blockM).toNat + idx.toNat / u.n.toNat < arg.m.toNat := by
      rw [hrow0]
      exact hin.1
    have hcolC : (t / arg.mTiles * u.blockN).toNat + idx.toNat % u.n.toNat < arg.n.toNat := by
      rw [hcol0]
      exact hin.2
    have hsum := kLoop_gemmStep hu hexact hstages harg hrowIn (Nat.mod_lt _ hcols) hrowC hcolC
    rw [Nat.div_add_mod', hrow0, hcol0] at hsum
    rw [if_neg (fun h => hguard.mp h hin), if_pos hin, hsum]
    exact congrArg ([·]) (store_eq harg hrow hcol hin.1 hin.2)
  · rw [if_pos (hguard.mpr hin), if_neg hin]

/-- The warps store every element of `C` once between them. -/
theorem hgemmTcu_perm (hu : u.Shaped W) (hexact : u.Exact) (hstages : arg.Stages u memcpyAsync a b)
    (harg : arg.Sized u) {warps : UInt32} (hwarps : 0 < warps.toNat)
    (hfits : arg.tiles.toNat + warps.toNat ≤ 2 ^ 32) :
    (hgemmTcu int32Arith u memcpyAsync W arg warps).Perm
      ((Tiles.cells arg.m.toNat arg.n.toNat).map (arg.element a b)) := by
  have hrows : 0 < u.m.toNat := lt_of_lt_of_le Nat.two_pos hu.rows
  have hcols : 0 < u.n.toNat := lt_of_lt_of_le Nat.two_pos hu.cols
  unfold hgemmTcu gemmBody
  rw [if_neg (not_not.mpr harg.abi)]
  have hwalk : ∀ t < arg.tiles, blockStores int32Arith u memcpyAsync W arg t =
      blockStores int32Arith u memcpyAsync W arg (UInt32.ofNat t.toNat) := by
    intro t _
    rw [UInt32.ofNat_toNat]
  apply (Lanes.strided_flatMap hwarps hfits (g := fun t => blockStores int32Arith u memcpyAsync W arg (UInt32.ofNat t))
    hwalk).trans
  apply List.Perm.trans _ ((Tiles.tiles_perm hrows hcols).map (arg.element a b))
  rw [List.map_flatMap, ← harg.tiles]
  apply List.Perm.flatMap_left
  intro t ht
  have hlt := List.mem_range.mp ht
  have hof := toNat_ofNat_lt hlt
  have hblock := blockStores_perm hu hexact hstages harg (hof.trans_lt hlt)
  rwa [hof] at hblock

end Block

end Grxcp.TensorGemm
