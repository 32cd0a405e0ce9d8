import Grxcp.Device.TensorGemm
import Grxcp.Lib.Words
import Grxcp.Libs.SlotRuns

/-!
# The tensor-core path

`grxblasGemmEx` on int8 operands, and the kernel that it launches: the arguments that the host makes, and what
lands where by the descriptors that it programs. Whatever the transposes and the remainders, the launch stores
every element of `C` once, with the exact sum (`igemm_exact`).
-/

namespace Grxcp.Blas

open Grxcp.Runtime
open Sgemm (Store blocks_toNat)
open Words (int32_div_of_nonneg toUInt32_toNat)
open TensorGemm (CopyEngine GRXBLAS_ABI_OP_N GRXBLAS_ABI_OP_T HgemmArgs TensorUnit hgemmTcu hgemmTcu_perm int32Arith)

/-! ## Arguments and descriptors -/

/-- The arguments of the kernel: `args`. -/
def hgemmArgs {Acc : Type} (ctx : Context) (s : GemmExArgs) (alpha beta : Acc) : HgemmArgs Acc :=
  let bm := ctx.i8BlockM
  let bn := ctx.i8BlockN
  let tk := ctx.i8TileK
  let mTiles := (s.m.toUInt32 + bm - 1) / bm
  let nTiles := (s.n.toUInt32 + bn - 1) / bn
  { m := s.m.toUInt32
    n := s.n.toUInt32
    k := s.k.toUInt32
    ldc := s.ldc.toUInt32
    mTiles := mTiles
    tiles := mTiles * nTiles
    kSteps := (s.k.toUInt32 + tk - 1) / tk
    slotA := ctx.slotA.toUInt32
    slotB := ctx.slotB.toUInt32
    transa := if s.transa then GRXBLAS_ABI_OP_T else GRXBLAS_ABI_OP_N
    transb := if s.transb then GRXBLAS_ABI_OP_T else GRXBLAS_ABI_OP_N
    alpha := alpha
    beta := beta }

/-- What a launch of `igemm_tcu` stores, on a device of `W` lanes a warp. -/
def igemmStores (u : TensorUnit Int8 Int32) (memcpyAsync : CopyEngine Int8) (W : UInt32) (arg : HgemmArgs Int32)
    (l : Launch) : List (Store Int32) :=
  match l.kernel, l.slots with
  | .igemmTcu, some _ => hgemmTcu int32Arith u memcpyAsync W arg (l.block / W)
  | _, _ => []

/-- Where an element of a tile lands. -/
def landing (d : GrxTensorMapDesc) (e0 e1 : ℕ) : ℕ :=
  match d.layout with
  | .rowMajor => e1 * (d.tile 0).toNat + e0
  | .kMajor => e0 * (d.tile 1).toNat + e1

/-- The copy engine stages by a descriptor: it reads on past the size of dimension 0, and puts zeros past the
size of dimension 1. -/
def Follows (mem : ℕ → Int8) (memcpyAsync : CopyEngine Int8) (d : GrxTensorMapDesc) : Prop :=
  ∀ c0 c1 : UInt32, ∀ e0 < (d.tile 0).toNat, ∀ e1 < (d.tile 1).toNat,
    memcpyAsync (Int32.ofInt d.slot).toUInt32 c0 c1 (landing d e0 e1) =
      if c1.toNat + e1 < (d.size 1).toNat then
        mem (d.base + (c0.toNat + e0) * d.elementBytes.toNat + (c1.toNat + e1) * (d.strideBytes 0).toNat)
      else 0

/-- `op(A)`. -/
def GemmExArgs.opA (s : GemmExArgs) (mem : ℕ → Int8) (i l : ℕ) : Int8 :=
  mem (s.a.toNat + if s.transa then l + i * s.lda.toUInt32.toNat else i + l * s.lda.toUInt32.toNat)

/-- `op(B)`. -/
def GemmExArgs.opB (s : GemmExArgs) (mem : ℕ → Int8) (l j : ℕ) : Int8 :=
  mem (s.b.toNat + if s.transb then j + l * s.ldb.toUInt32.toNat else l + j * s.ldb.toUInt32.toNat)

/-- The shape that the handle has is the kernel's. -/
structure Context.Reports (ctx : Context) (u : TensorUnit Int8 Int32) : Prop where
  tileK : ctx.i8TileK = u.k
  blockM : ctx.i8BlockM = u.blockM
  blockN : ctx.i8BlockN = u.blockN

section Host

variable {M : Machine} {current : ℕ} {ctx : Context} {s : GemmExArgs} {r : LoadReplies} {h i8 : ShapeReplies}
  {g : GemmReplies}

theorem Outcome.andThen_success {o : Outcome} {f : Context → Outcome} (hok : (o.andThen f).status = .success) :
    o.status = .success ∧ (f o.ctx).status = .success ∧ (o.andThen f).ctx = (f o.ctx).ctx ∧
      (o.andThen f).issued = o.issued ++ (f o.ctx).issued := by
  unfold Outcome.andThen at hok ⊢
  split_ifs at hok ⊢ with ho
  · exact ⟨ho, hok, rfl, rfl⟩
  · exact absurd hok ho

/-- A call that succeeds was not refused. -/
theorem Outcome.not_refused {c : Prop} [Decidable c] {status : Status} {o : Outcome} (hstatus : status ≠ .success)
    (hok : (if c then ({ ctx, status } : Outcome) else o).status = .success) : ¬c := by
  intro hc
  rw [if_pos hc] at hok
  exact hstatus hok

/-- A call that succeeds on the tensor path: its arguments are in order, and it goes there after launches that
have no descriptors. -/
theorem gemmEx_success (hgpu : decideGemmEngine M current s.types = .gpuTensor) (hm : s.m ≠ 0) (hn : s.n ≠ 0)
    (hok : (grxblasGemmEx M current ctx s r h i8 g).status = .success) :
    (0 ≤ s.m ∧ 0 ≤ s.n ∧ 0 ≤ s.k) ∧ s.m ≤ s.ldc ∧ ∃ ctx' before,
      (∀ i ∈ before, ∃ l, i = .launch l ∧ l.slots = none) ∧ (tensorGemm M current ctx' s g).status = .success ∧
      (grxblasGemmEx M current ctx s r h i8 g).ctx = (tensorGemm M current ctx' s g).ctx ∧
      (grxblasGemmEx M current ctx s r h i8 g).issued = before ++ (tensorGemm M current ctx' s g).issued := by
  unfold grxblasGemmEx at hok ⊢
  have hscalars := Outcome.not_refused (by decide) hok
  rw [if_neg hscalars] at hok ⊢
  have hneg := Outcome.not_refused (by decide) hok
  rw [if_neg hneg, if_neg (not_or.mpr ⟨hm, hn⟩)] at hok ⊢
  have hab := Outcome.not_refused (by decide) hok
  rw [if_neg hab] at hok ⊢
  have hc := Outcome.not_refused (by decide) hok
  rw [if_neg hc] at hok ⊢
  have hld := Outcome.not_refused (by decide) hok
  rw [if_neg hld] at hok ⊢
  rw [hgpu] at hok ⊢
  obtain ⟨-, hgemm, hctx, hissued⟩ := Outcome.andThen_success hok
  simp only [not_or, Int32.not_lt] at hneg hld
  exact ⟨hneg, hld.2.2, _, _, (prelude_ensureHgemm ctx r h i8).issued, hgemm, hctx, hissued⟩

/-- A call that succeeds on no elements asks for nothing. -/
theorem gemmEx_empty (hempty : s.m = 0 ∨ s.n = 0)
    (hok : (grxblasGemmEx M current ctx s r h i8 g).status = .success) :
    (grxblasGemmEx M current ctx s r h i8 g).issued = [] := by
  unfold grxblasGemmEx at hok ⊢
  have hscalars := Outcome.not_refused (by decide) hok
  rw [if_neg hscalars] at hok ⊢
  have hneg := Outcome.not_refused (by decide) hok
  rw [if_neg hneg, if_pos hempty]

/-- The warps of the launch: as many as there is work for, and as the device has. -/
def gemmWarps (prop : DeviceProp) (tiles : UInt32) : UInt32 :=
  let warps := (prop.maxThreadsPerBlock / prop.warpSize).toUInt32
  let warps := if warps = 0 then 1 else warps
  if tiles < warps then tiles else warps

/-- A call of the tensor path that succeeds: the descriptors of both operands, if there is anything to sum, and
the launch. -/
theorem tensorGemm_success {prop : DeviceProp} (hprop : M.props 0 = .ok prop) (hint8 : s.types = .int8)
    (hok : (tensorGemm M current ctx s g).status = .success) :
    (tensorGemm M current ctx s g).ctx = ctx ∧ ∃ l,
      l.kernel = .igemmTcu ∧ l.slots = some (ctx.slotA, ctx.slotB) ∧
      l.block = gemmWarps prop (hgemmArgs ctx s (0 : Int32) 0).tiles * prop.warpSize.toUInt32 ∧
      launches (tensorGemm M current ctx s g).issued = [l] ∧ (0 < s.k →
        (∃ p, .program p ∈ (tensorGemm M current ctx s g).issued ∧
          p.desc = (gemmDescs ctx s 1 ctx.i8BlockM ctx.i8BlockN ctx.i8TileK).1) ∧
        ∃ p, .program p ∈ (tensorGemm M current ctx s g).issued ∧
          p.desc = (gemmDescs ctx s 1 ctx.i8BlockM ctx.i8BlockN ctx.i8TileK).2) := by
  have hlaunches : ∀ ctx', (launchGemmEx ctx' prop s ctx.i8BlockM ctx.i8BlockN g.launch).status = .success →
      ctx' = ctx → (launchGemmEx ctx' prop s ctx.i8BlockM ctx.i8BlockN g.launch).ctx = ctx ∧ ∃ l,
        l.kernel = .igemmTcu ∧ l.slots = some (ctx.slotA, ctx.slotB) ∧
        l.block = gemmWarps prop (hgemmArgs ctx s (0 : Int32) 0).tiles * prop.warpSize.toUInt32 ∧
        (launchGemmEx ctx' prop s ctx.i8BlockM ctx.i8BlockN g.launch).issued = [.launch l] := by
    rintro ctx' hlaunch rfl
    unfold launchGemmEx at hlaunch ⊢
    dsimp only at hlaunch ⊢
    have hprobe := Outcome.not_refused (by decide) hlaunch
    rw [if_neg hprobe]
    exact ⟨rfl, _, if_pos hint8, rfl, rfl, rfl⟩
  unfold tensorGemm at hok ⊢
  dsimp only at hok ⊢
  have htypes := Outcome.not_refused (by decide) hok
  rw [if_neg htypes] at hok ⊢
  have hintegral := Outcome.not_refused (by decide) hok
  rw [if_neg hintegral] at hok ⊢
  rw [hprop] at hok ⊢
  simp only [hint8, if_true] at hok ⊢
  obtain ⟨hprogrammed, hlaunch, hctx, hissued⟩ := Outcome.andThen_success hok
  rw [hctx, hissued]
  split_ifs at hprogrammed hlaunch ⊢ with hk
  · obtain ⟨-, -, hctx, hissued⟩ := Outcome.andThen_success hprogrammed
    obtain ⟨hctx, l, hkernel, hslots, hblock, hl⟩ := hlaunches _ hlaunch hctx
    rw [hissued, hl]
    exact ⟨hctx, l, hkernel, hslots, hblock, rfl, fun _ => ⟨⟨_, List.mem_cons_self, rfl⟩,
      ⟨_, List.mem_cons_of_mem _ List.mem_cons_self, rfl⟩⟩⟩
  · obtain ⟨hctx, l, hkernel, hslots, hblock, hl⟩ := hlaunches _ hlaunch rfl
    rw [hl]
    exact ⟨hctx, l, hkernel, hslots, hblock, rfl, fun hpos => absurd hpos hk⟩

/-! ## What the host leaves -/

/-- `C` has an element at every index that is counted in 32 bits. -/
def GemmExArgs.Indexed (s : GemmExArgs) : Prop :=
  ∀ i < s.m.toInt.toNat, ∀ j < s.n.toInt.toNat, i + j * s.ldc.toInt.toNat < 2 ^ 32

variable {u : TensorUnit Int8 Int32} {W : UInt32}

/-- Tiles of two rows and two columns or more are few. -/
theorem tiles_le {m n R C : ℕ} (hR : 2 ≤ R) (hC : 2 ≤ C) (hm : m < 2 ^ 31) (hn : n < 2 ^ 31)
    (hmn : n * m ≤ 2 ^ 32) : Tiles.blocks m R * Tiles.blocks n C ≤ 2 ^ 31 := by
  have hhalf : ∀ {x r : ℕ}, 2 ≤ r → 2 * Tiles.blocks x r ≤ x + 1 := by
    intro x r hr
    have hover := Tiles.blocks_mul_lt (m := x) (r := r) (by omega)
    rcases Nat.eq_zero_or_pos (Tiles.blocks x r) with hzero | hpos
    · omega
    · have hmul : 2 * (Tiles.blocks x r - 1) ≤ r * (Tiles.blocks x r - 1) := Nat.mul_le_mul_right _ hr
      have hone : r * 1 ≤ r * Tiles.blocks x r := Nat.mul_le_mul_left r hpos
      rw [Nat.mul_sub r, Nat.mul_one] at hmul
      omega
  have hmul := Nat.mul_le_mul (hhalf (x := m) hR) (hhalf (x := n) hC)
  have hleft : 2 * Tiles.blocks m R * (2 * Tiles.blocks n C) = 4 * (Tiles.blocks m R * Tiles.blocks n C) := by ring
  have hright : (m + 1) * (n + 1) = n * m + m + n + 1 := by ring
  rw [hleft, hright] at hmul
  omega

/-- The arguments of a call that is in order are those that the kernel counts with. -/
theorem hgemmArgs_sized (hu : u.Shaped W) (hreports : ctx.Reports u) (hm : 0 < s.m.toInt) (hn : 0 < s.n.toInt)
    (hk : 0 ≤ s.k.toInt) (hldc : s.m.toInt ≤ s.ldc.toInt) (hindex : s.Indexed) (alpha beta : Int32) :
    (hgemmArgs ctx s alpha beta).Sized u ∧ (hgemmArgs ctx s alpha beta).tiles.toNat ≤ 2 ^ 31 := by
  have hmNat := toUInt32_toNat hm.le
  have hnNat := toUInt32_toNat hn.le
  have hkNat := toUInt32_toNat hk
  have hldcNat := toUInt32_toNat (hm.le.trans hldc)
  have hmMax := s.m.toInt_lt
  have hnMax := s.n.toInt_lt
  have hkMax := s.k.toInt_lt
  have hrows := hu.rows
  have hcols := hu.cols
  have houtputs := hu.outputs
  have hmulM := Nat.mul_le_mul_left u.m.toNat hcols
  have hmulN := Nat.mul_le_mul_right u.n.toNat hrows
  have hstagedA := hu.stagedA
  have hdepth := Nat.mul_le_mul_right u.k.toNat hrows
  have hprodMN : s.n.toInt.toNat * s.m.toInt.toNat ≤ 2 ^ 32 := by
    have hlast := hindex (s.m.toInt.toNat - 1) (by omega) (s.n.toInt.toNat - 1) (by omega)
    have hld := Nat.mul_le_mul_left (s.n.toInt.toNat - 1) (Int.toNat_le_toNat hldc)
    have hn1 := Nat.mul_le_mul_right s.m.toInt.toNat (Nat.sub_add_cancel (show 1 ≤ s.n.toInt.toNat by omega)).ge
    rw [Nat.add_mul, Nat.one_mul] at hn1
    omega
  have hfew := tiles_le hrows hcols (m := s.m.toInt.toNat) (n := s.n.toInt.toNat) (by omega) (by omega) hprodMN
  have hmTiles : ((s.m.toUInt32 + u.m - 1) / u.m).toNat = Tiles.blocks s.m.toInt.toNat u.m.toNat := by
    rw [blocks_toNat (by omega) (by rw [hmNat]; omega), hmNat]
  have hnTiles : ((s.n.toUInt32 + u.n - 1) / u.n).toNat = Tiles.blocks s.n.toInt.toNat u.n.toNat := by
    rw [blocks_toNat (by omega) (by rw [hnNat]; omega), hnNat]
  have hkSteps : ((s.k.toUInt32 + u.k - 1) / u.k).toNat = Tiles.blocks s.k.toInt.toNat u.k.toNat := by
    rw [blocks_toNat hu.depth (by rw [hkNat]; omega), hkNat]
  have htiles : ((s.m.toUInt32 + u.m - 1) / u.m * ((s.n.toUInt32 + u.n - 1) / u.n)).toNat =
      Tiles.blocks s.m.toInt.toNat u.m.toNat * Tiles.blocks s.n.toInt.toNat u.n.toNat := by
    rw [UInt32.toNat_mul, hmTiles, hnTiles, Nat.mod_eq_of_lt (by omega)]
  unfold hgemmArgs
  rw [hreports.blockM, hreports.blockN, hreports.tileK, TensorGemm.blockM_eq, TensorGemm.blockN_eq]
  dsimp only
  refine ⟨⟨rfl, ?_, ?_, ?_, ?_, ?_, ?_, ?_⟩, ?_⟩
  · show s.m.toUInt32.toNat < _
    omega
  · show s.n.toUInt32.toNat < _
    omega
  · show s.k.toUInt32.toNat < _
    omega
  · show _ = Tiles.blocks s.m.toUInt32.toNat _
    rw [hmNat, hmTiles]
  · show _ = Tiles.blocks s.m.toUInt32.toNat _ * Tiles.blocks s.n.toUInt32.toNat _
    rw [hmNat, hnNat, htiles]
  · show _ = Tiles.blocks s.k.toUInt32.toNat _
    rw [hkNat, hkSteps]
  · show ∀ i < s.m.toUInt32.toNat, ∀ j < s.n.toUInt32.toNat, i + j * s.ldc.toUInt32.toNat < 2 ^ 32
    rw [hmNat, hnNat, hldcNat]
    exact hindex
  · rw [htiles]
    exact hfew

/-- What an operand's descriptor stages: the elements of the operand, with the tile that is past the size of
dimension 1 padded. -/
theorem operandDesc_lands {mem : ℕ → Int8} {memcpyAsync : CopyEngine Int8} {slot : Int32} {base : UInt64}
    {ld rows cols tr tc : UInt32} {layout : GrxTensorMapLayout}
    (hfollows : Follows mem memcpyAsync (operandDesc slot base ld 1 rows cols tr tc layout)) {c0 c1 : UInt32}
    {e0 e1 : ℕ} (he0 : e0 < tr.toNat) (he1 : e1 < tc.toNat) (hin : c1.toNat + e1 < cols.toNat) :
    memcpyAsync slot.toUInt32 c0 c1 (landing (operandDesc slot base ld 1 rows cols tr tc layout) e0 e1) =
      mem (base.toNat + (c0.toNat + e0 + (c1.toNat + e1) * ld.toNat)) := by
  have hlands := hfollows c0 c1 e0 he0 e1 he1
  have hslot : (operandDesc slot base ld 1 rows cols tr tc layout).slot = slot.toInt := rfl
  have hbase : (operandDesc slot base ld 1 rows cols tr tc layout).base = base.toNat := rfl
  have hbytes : (operandDesc slot base ld 1 rows cols tr tc layout).elementBytes.toNat = 1 := rfl
  have hstride : (operandDesc slot base ld 1 rows cols tr tc layout).strideBytes 0 = ld * 1 := rfl
  have hsize : (operandDesc slot base ld 1 rows cols tr tc layout).size 1 = cols := rfl
  rw [hslot, Int32.ofInt_toInt, hsize, if_pos hin, hbase, hbytes, hstride, UInt32.mul_one, Nat.mul_one,
    Nat.add_assoc] at hlands
  exact hlands

/-- What the kernel stages by the descriptors of a call is the call's operands. -/
theorem hgemmArgs_stages {mem : ℕ → Int8} {memcpyAsync : CopyEngine Int8} (hreports : ctx.Reports u)
    (hA : 0 < s.k → Follows mem memcpyAsync (gemmDescs ctx s 1 ctx.i8BlockM ctx.i8BlockN ctx.i8TileK).1)
    (hB : 0 < s.k → Follows mem memcpyAsync (gemmDescs ctx s 1 ctx.i8BlockM ctx.i8BlockN ctx.i8TileK).2)
    (hk : 0 ≤ s.k) (alpha beta : Int32) :
    (hgemmArgs ctx s alpha beta).Stages u memcpyAsync (s.opA mem) (s.opB mem) := by
  have hpos : ∀ {x : ℕ}, x < s.k.toUInt32.toNat → 0 < s.k ∧ s.k ≠ 0 := by
    intro x hx
    have hne : s.k ≠ 0 := by
      rintro hzero
      rw [hzero] at hx
      exact Nat.not_lt_zero _ hx
    exact ⟨Int32.lt_of_le_of_ne hk hne.symm, hne⟩
  rw [hreports.blockM, hreports.blockN, hreports.tileK, TensorGemm.blockM_eq, TensorGemm.blockN_eq] at hA hB
  constructor
  · intro row0 k0 i hi l hl hrow hkl
    obtain ⟨hlt, hne⟩ := hpos hkl
    have hfollows := hA hlt
    unfold gemmDescs at hfollows
    unfold TensorGemm.stageA hgemmArgs GemmExArgs.opA
    dsimp only at hfollows ⊢
    rw [if_neg hne] at hfollows
    cases htrans : s.transa with
    | true =>
      rw [htrans] at hfollows
      exact operandDesc_lands hfollows hl hi hrow
    | false =>
      rw [htrans] at hfollows
      exact operandDesc_lands hfollows hi hl hkl
  · intro k0 col0 j hj l hl hcol hkl
    obtain ⟨hlt, hne⟩ := hpos hkl
    have hfollows := hB hlt
    unfold gemmDescs at hfollows
    unfold TensorGemm.stageB hgemmArgs GemmExArgs.opB
    dsimp only at hfollows ⊢
    rw [if_neg hne] at hfollows
    cases htrans : s.transb with
    | true =>
      rw [htrans] at hfollows
      exact operandDesc_lands hfollows hj hl hkl
    | false =>
      rw [htrans] at hfollows
      exact operandDesc_lands hfollows hl hj hcol

/-- The launch has a warp, no more of them than there are tiles, and a block that is whole warps. -/
theorem gemmWarps_spec {prop : DeviceProp} (hwarp : 0 < prop.warpSize.toInt)
    (hthreads : 0 ≤ prop.maxThreadsPerBlock.toInt) {tiles : UInt32} (htiles : 0 < tiles.toNat) :
    0 < (gemmWarps prop tiles).toNat ∧ (gemmWarps prop tiles).toNat ≤ tiles.toNat ∧
      gemmWarps prop tiles * prop.warpSize.toUInt32 / prop.warpSize.toUInt32 = gemmWarps prop tiles := by
  have hW := toUInt32_toNat hwarp.le
  have hdiv := int32_div_of_nonneg hthreads hwarp.le
  have hper : (prop.maxThreadsPerBlock / prop.warpSize).toUInt32.toNat =
      prop.maxThreadsPerBlock.toInt.toNat / prop.warpSize.toInt.toNat := by
    have hnonneg : 0 ≤ (prop.maxThreadsPerBlock / prop.warpSize).toInt := by
      rw [hdiv]
      exact Int.ediv_nonneg hthreads hwarp.le
    rw [toUInt32_toNat hnonneg, hdiv]
    apply Int.ofNat_inj.mp
    rw [Int.natCast_ediv, Int.toNat_of_nonneg hthreads, Int.toNat_of_nonneg hwarp.le,
      Int.toNat_of_nonneg (Int.ediv_nonneg hthreads hwarp.le)]
  have hfit := Nat.div_mul_le_self prop.maxThreadsPerBlock.toInt.toNat prop.warpSize.toInt.toNat
  have hthreadsMax := prop.maxThreadsPerBlock.toInt_lt
  have hwarpMax := prop.warpSize.toInt_lt
  rw [← hper] at hfit
  generalize hdevice : (prop.maxThreadsPerBlock / prop.warpSize).toUInt32 = device at hfit
  have hsome : 0 < (if device = 0 then 1 else device : UInt32).toNat ∧
      (if device = 0 then 1 else device : UInt32).toNat * prop.warpSize.toInt.toNat < 2 ^ 32 := by
    split_ifs with hzero
    · rw [UInt32.toNat_one, Nat.one_mul]
      omega
    · have hne : device.toNat ≠ 0 := fun h => hzero (UInt32.toNat_inj.mp h)
      omega
  have hwarps : 0 < (gemmWarps prop tiles).toNat ∧ (gemmWarps prop tiles).toNat ≤ tiles.toNat ∧
      (gemmWarps prop tiles).toNat * prop.warpSize.toInt.toNat < 2 ^ 32 := by
    unfold gemmWarps
    dsimp only
    rw [hdevice]
    generalize (if device = 0 then 1 else device : UInt32) = warps at hsome ⊢
    split_ifs with hfew
    · have hle := Nat.mul_le_mul_right prop.warpSize.toInt.toNat (UInt32.lt_iff_toNat_lt.mp hfew).le
      exact ⟨htiles, le_rfl, hle.trans_lt hsome.2⟩
    · exact ⟨hsome.1, UInt32.le_iff_toNat_le.mp (UInt32.not_lt.mp hfew), hsome.2⟩
  refine ⟨hwarps.1, hwarps.2.1, UInt32.toNat_inj.mp ?_⟩
  rw [UInt32.toNat_div, UInt32.toNat_mul, hW, Nat.mod_eq_of_lt hwarps.2.2, Nat.mul_div_cancel _ (by omega)]

/-- What the call leaves to `C`, whatever of it the kernel's arguments and the device decide: the elements of `C`,
each once. -/
theorem igemmStores_perm {memcpyAsync : CopyEngine Int8} {a b : ℕ → ℕ → Int8} {prop : DeviceProp} {l : Launch}
    {arg : HgemmArgs Int32} (hu : u.Shaped W) (hexact : u.Exact) (hstages : arg.Stages u memcpyAsync a b)
    (harg : arg.Sized u) (hfew : arg.tiles.toNat ≤ 2 ^ 31) (hm : 0 < arg.m.toNat) (hn : 0 < arg.n.toNat)
    (hwarp : 0 < prop.warpSize.toInt) (hthreads : 0 ≤ prop.maxThreadsPerBlock.toInt)
    (hW : prop.warpSize.toUInt32 = W) (hkernel : l.kernel = .igemmTcu) {slots : Int32 × Int32}
    (hslots : l.slots = some slots) (hblock : l.block = gemmWarps prop arg.tiles * prop.warpSize.toUInt32) :
    (igemmStores u memcpyAsync W arg l).Perm ((Tiles.cells arg.m.toNat arg.n.toNat).map (arg.element a b)) := by
  have hcover : ∀ {x r : ℕ}, 0 < x → 2 ≤ r → 0 < Tiles.blocks x r := by
    intro x r hx hr
    have hle := Tiles.le_blocks_mul (m := x) (r := r) (by omega)
    exact Nat.pos_of_mul_pos_left (hx.trans_le hle)
  have htiles : 0 < arg.tiles.toNat := by
    rw [harg.tiles]
    exact Nat.mul_pos (hcover hm hu.rows) (hcover hn hu.cols)
  obtain ⟨hpos, hle, hdiv⟩ := gemmWarps_spec hwarp hthreads htiles
  unfold igemmStores
  rw [hkernel, hslots, hblock, ← hW, hdiv]
  rw [← hW] at hu
  exact hgemmTcu_perm hu hexact hstages harg hpos (by omega)

/-- An element of `C` after the call: `alpha` times the exact sum of the products plus `beta` times what was there,
modulo `2 ^ 32`. -/
def GemmExArgs.element (s : GemmExArgs) (mem : ℕ → Int8) (alpha beta : Int32) (c : ℕ × ℕ) : Store Int32 where
  addr := (c.1 + c.2 * s.ldc.toInt.toNat : ℕ)
  value := fun old => alpha * Int32.ofInt (∑ l ∈ Finset.range s.k.toInt.toNat,
    (s.opA mem c.1 l).toInt * (s.opB mem l c.2).toInt) + beta * old

/-- The elements of `C` have an address each. -/
theorem nodup_addr {m n ld : ℕ} (hld : m ≤ ld) :
    ((Tiles.cells m n).map fun c => ((c.1 + c.2 * ld : ℕ) : ℤ)).Nodup := by
  apply List.Nodup.map_on _ Tiles.nodup_cells
  intro c hc c' hc' heq
  have hrow := (Tiles.mem_cells.mp hc).1.trans_le hld
  have hrow' := (Tiles.mem_cells.mp hc').1.trans_le hld
  have heq : c.1 + c.2 * ld = c'.1 + c'.2 * ld := Int.ofNat_inj.mp heq
  have hmod := congrArg (· % ld) heq
  have hdiv := congrArg (· / ld) heq
  simp only [Nat.add_mul_mod_self_right, Nat.mod_eq_of_lt hrow, Nat.mod_eq_of_lt hrow'] at hmod
  simp only [Nat.add_mul_div_right _ _ (Nat.zero_lt_of_lt hrow), Nat.div_eq_of_lt hrow, Nat.div_eq_of_lt hrow',
    Nat.zero_add] at hdiv
  exact Prod.ext hmod hdiv

/-- A call that the tensor path takes stores every element of `C` once, with the exact sum, and nothing else,
whatever the transposes and whatever of a tile is left over in any dimension. -/
theorem igemm_exact (hu : u.Shaped W) (hexact : u.Exact) (hint8 : s.types = .int8)
    (hgpu : decideGemmEngine M current s.types = .gpuTensor) {o : Outcome}
    (ho : grxblasGemmEx M current ctx s r h i8 g = o) (hok : o.status = .success) {prop : DeviceProp}
    (hprop : M.props 0 = .ok prop) (hwarp : 0 < prop.warpSize.toInt) (hthreads : 0 ≤ prop.maxThreadsPerBlock.toInt)
    (hW : prop.warpSize.toUInt32 = W) (hreports : o.ctx.Reports u) (mem : ℕ → Int8) (memcpyAsync : CopyEngine Int8)
    (hengine : ∀ p, .program p ∈ o.issued → Follows mem memcpyAsync p.desc) (hindex : s.Indexed)
    (alpha beta : Int32) :
    ((launches o.issued).flatMap (igemmStores u memcpyAsync W (hgemmArgs o.ctx s alpha beta))).Perm
        ((Tiles.cells s.m.toInt.toNat s.n.toInt.toNat).map (s.element mem alpha beta)) ∧
      ((Tiles.cells s.m.toInt.toNat s.n.toInt.toNat).map fun c => (s.element mem alpha beta c).addr).Nodup := by
  subst ho
  by_cases hempty : s.m = 0 ∨ s.n = 0
  · have hnone : Tiles.cells s.m.toInt.toNat s.n.toInt.toNat = [] := by
      unfold Tiles.cells
      rcases hempty with hzero | hzero
      · rw [hzero, Int32.toInt_zero, Int.toNat_zero, Nat.zero_mul]
        rfl
      · rw [hzero, Int32.toInt_zero, Int.toNat_zero, Nat.mul_zero]
        rfl
    rw [gemmEx_empty hempty hok, hnone]
    exact ⟨List.Perm.nil, List.nodup_nil⟩
  obtain ⟨hm, hn⟩ := not_or.mp hempty
  obtain ⟨⟨hm0, hn0, hk0⟩, hldc, ctx', before, hbefore, htensor, hctx, hissued⟩ := gemmEx_success hgpu hm hn hok
  obtain ⟨hctx', l, hkernel, hslots, hblock, hlaunches, hprograms⟩ := tensorGemm_success hprop hint8 htensor
  rw [hctx'] at hctx
  rw [hctx] at hreports ⊢
  rw [hissued] at hengine ⊢
  have hpos : ∀ {x : Int32}, 0 ≤ x → x ≠ 0 → 0 < x.toInt := by
    intro x hx hne
    exact Int32.lt_iff_toInt_lt.mp (Int32.lt_of_le_of_ne hx hne.symm)
  have hldcInt := Int32.le_iff_toInt_le.mp hldc
  have hm := hpos hm0 hm
  have hn := hpos hn0 hn
  have hk := Int32.le_iff_toInt_le.mp hk0
  have hmNat := toUInt32_toNat hm.le
  have hnNat := toUInt32_toNat hn.le
  have hkNat := toUInt32_toNat hk
  have hldcNat := toUInt32_toNat (hm.le.trans hldcInt)
  obtain ⟨hsized, hfew⟩ := hgemmArgs_sized hu hreports hm hn hk hldcInt hindex alpha beta
  have hA : 0 < s.k → Follows mem memcpyAsync (gemmDescs ctx' s 1 ctx'.i8BlockM ctx'.i8BlockN ctx'.i8TileK).1 := by
    intro hpos
    obtain ⟨⟨p, hp, hdesc⟩, -⟩ := hprograms hpos
    exact hdesc ▸ hengine p (List.mem_append_right _ hp)
  have hB : 0 < s.k → Follows mem memcpyAsync (gemmDescs ctx' s 1 ctx'.i8BlockM ctx'.i8BlockN ctx'.i8TileK).2 := by
    intro hpos
    obtain ⟨-, p, hp, hdesc⟩ := hprograms hpos
    exact hdesc ▸ hengine p (List.mem_append_right _ hp)
  have hstages := hgemmArgs_stages hreports hA hB hk0 alpha beta
  have hstores := igemmStores_perm hu hexact hstages hsized hfew (by
    show 0 < s.m.toUInt32.toNat
    omega) (by
    show 0 < s.n.toUInt32.toNat
    omega) hwarp hthreads hW hkernel hslots hblock
  have hnone : (launches before).flatMap (igemmStores u memcpyAsync W (hgemmArgs ctx' s alpha beta)) = [] := by
    rw [List.flatMap_eq_nil_iff]
    intro l hl
    obtain ⟨i, hi, hil⟩ := List.mem_filterMap.mp hl
    obtain ⟨l', rfl, hslots⟩ := hbefore i hi
    cases hil
    unfold igemmStores
    rw [hslots]
    split
    next hsome => cases hsome
    next => rfl
  have hsplit : launches (before ++ (tensorGemm M current ctx' s g).issued) = launches before ++ [l] := by
    rw [← hlaunches]
    exact List.filterMap_append
  have helement : s.element mem alpha beta = (hgemmArgs ctx' s alpha beta).element (s.opA mem) (s.opB mem) := by
    funext c
    unfold GemmExArgs.element HgemmArgs.element TensorGemm.dot hgemmArgs
    dsimp only
    rw [hkNat, hldcNat]
  refine ⟨?_, nodup_addr (Int.toNat_le_toNat hldcInt)⟩
  rw [hsplit, List.flatMap_append, hnone, List.nil_append, List.flatMap_singleton, helement, ← hmNat, ← hnNat]
  exact hstores

end Host

/-! ## A unit and an engine -/

/-- A unit of any shape that multiplies exactly, with fragments by row and column. -/
def exactUnit (m n k : UInt32) : TensorUnit Int8 Int32 where
  m := m
  n := n
  k := k
  FragA := ℕ → ℕ → Int8
  FragB := ℕ → ℕ → Int8
  FragAcc := ℕ → ℕ → Int32
  fillFragment := fun x _ _ => x
  loadA := fun s ld i l => s (i * ld.toNat + l)
  loadB := fun s ld j l => s (j * ld.toNat + l)
  mmaSync := fun a b acc i j => acc i j +
    Int32.ofInt (∑ l ∈ Finset.range k.toNat, (a i l).toInt * (b j l).toInt)
  storeMatrix := fun acc ld idx => acc (idx / ld.toNat) (idx % ld.toNat)

theorem exactUnit_exact (m n k : UInt32) : (exactUnit m n k).Exact := by
  have hplace : ∀ {i j : ℕ}, j < n.toNat → (i * n.toNat + j) / n.toNat = i ∧ (i * n.toNat + j) % n.toNat = j := by
    intro i j hj
    rw [Nat.mul_comm, Nat.mul_add_div (Nat.zero_lt_of_lt hj), Nat.div_eq_of_lt hj, Nat.mul_add_mod,
      Nat.mod_eq_of_lt hj]
    exact ⟨rfl, rfl⟩
  constructor
  · exact fun _ _ _ _ _ => rfl
  · intro sA sB acc i _ j hj
    obtain ⟨hrow, hcol⟩ := hplace (i := i) hj
    show acc ((i * n.toNat + j) / n.toNat) ((i * n.toNat + j) % n.toNat) + Int32.ofInt (∑ l ∈ Finset.range k.toNat,
      (sA ((i * n.toNat + j) / n.toNat * k.toNat + l)).toInt *
        (sB ((i * n.toNat + j) % n.toNat * k.toNat + l)).toInt) =
      acc ((i * n.toNat + j) / n.toNat) ((i * n.toNat + j) % n.toNat) + _
    rw [hrow, hcol]
    rfl

/-- An engine that stages by the descriptors of its slots. -/
def slotEngine (mem : ℕ → Int8) (descs : List GrxTensorMapDesc) : CopyEngine Int8 := fun slot c0 c1 idx =>
  match descs.find? fun d => (Int32.ofInt d.slot).toUInt32 = slot with
  | none => 0
  | some d =>
    let e := match d.layout with
      | .rowMajor => (idx % (d.tile 0).toNat, idx / (d.tile 0).toNat)
      | .kMajor => (idx / (d.tile 1).toNat, idx % (d.tile 1).toNat)
    if c1.toNat + e.2 < (d.size 1).toNat then
      mem (d.base + (c0.toNat + e.1) * d.elementBytes.toNat + (c1.toNat + e.2) * (d.strideBytes 0).toNat)
    else 0

theorem slotEngine_follows (mem : ℕ → Int8) {descs : List GrxTensorMapDesc} {d : GrxTensorMapDesc}
    (hfind : descs.find? (fun d' => (Int32.ofInt d'.slot).toUInt32 = (Int32.ofInt d.slot).toUInt32) = some d) :
    Follows mem (slotEngine mem descs) d := by
  intro c0 c1 e0 he0 e1 he1
  unfold slotEngine landing
  rw [hfind]
  dsimp only
  cases d.layout with
  | rowMajor =>
    dsimp only
    rw [Nat.mul_comm, Nat.mul_add_div (Nat.zero_lt_of_lt he0), Nat.div_eq_of_lt he0, Nat.mul_add_mod,
      Nat.mod_eq_of_lt he0, Nat.add_zero]
  | kMajor =>
    dsimp only
    rw [Nat.mul_comm, Nat.mul_add_div (Nat.zero_lt_of_lt he1), Nat.div_eq_of_lt he1, Nat.mul_add_mod,
      Nat.mod_eq_of_lt he1, Nat.add_zero]

section Ragged

/-- A device with warps of four lanes. -/
def fourLanes : Machine where
  props := fun _ => .ok {}
  slotCount := fun _ => .ok 4

/-- A handle whose kernel has tiles of 8 x 4 x 16. -/
def deepHandle : Context where
  module := some { device := 0 }
  hgemmFn := true
  igemmFn := true
  i8TileK := 16
  i8BlockM := 8
  i8BlockN := 4

/-- A transposed `A`, and something left over in every dimension. -/
def raggedCall : GemmExArgs where
  transa := true
  m := 11
  n := 5
  k := 19
  a := 64
  lda := 20
  b := 1024
  ldb := 19
  c := 4096
  ldc := 12

def raggedOutcome : Outcome :=
  grxblasGemmEx fourLanes 0 deepHandle raggedCall {} {} {} {}

def raggedDescs : GrxTensorMapDesc × GrxTensorMapDesc :=
  gemmDescs deepHandle raggedCall 1 8 4 16

/-- The memory whose bytes count up. -/
def raggedMem : ℕ → Int8 :=
  Int8.ofNat

/-- It is exact. -/
theorem igemm_exact_ragged : ((launches raggedOutcome.issued).flatMap
    (igemmStores (exactUnit 8 4 16) (slotEngine raggedMem [raggedDescs.1, raggedDescs.2]) 4
      (hgemmArgs raggedOutcome.ctx raggedCall 3 (-1)))).Perm
        ((Tiles.cells 11 5).map (raggedCall.element raggedMem 3 (-1))) := by
  have hu : (exactUnit 8 4 16).Shaped 4 := by
    constructor <;> decide
  have hissued : raggedOutcome.issued =
      [.program { desc := raggedDescs.1, device := 0, stream := none, refused := none },
        .program { desc := raggedDescs.2, device := 0, stream := none, refused := none },
        .launch { kernel := .igemmTcu, device := 0, grid := (1, 1), block := 16, stream := none
                  slots := some (0, 1), refused := none }] := rfl
  have hengine : ∀ p, .program p ∈ raggedOutcome.issued →
      Follows raggedMem (slotEngine raggedMem [raggedDescs.1, raggedDescs.2]) p.desc := by
    intro p hp
    rw [hissued] at hp
    rcases List.mem_cons.mp hp with hp | hp
    · cases hp
      exact slotEngine_follows raggedMem rfl
    rcases List.mem_cons.mp hp with hp | hp
    · cases hp
      exact slotEngine_follows raggedMem rfl
    · cases List.mem_singleton.mp hp
  have hindex : raggedCall.Indexed := by
    intro i hi j hj
    have hi : i < 11 := hi
    have hj : j < 5 := hj
    show i + j * 12 < 2 ^ 32
    omega
  exact (igemm_exact hu (exactUnit_exact 8 4 16) rfl rfl rfl rfl rfl (by decide) (by decide) rfl ⟨rfl, rfl, rfl⟩
    raggedMem (slotEngine raggedMem [raggedDescs.1, raggedDescs.2]) hengine hindex 3 (-1)).1

end Ragged

end Grxcp.Blas
