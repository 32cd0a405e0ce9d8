import Grxcp.Device.Sgemm
import Grxcp.Lib.Tiles

/-!
# What a thread of an sgemm kernel stores

A thread of the plain kernel stores one element of `C`. A thread of a blocked one stores a patch of them
(`Tiles.patch`), and sums each in the order in which the plain kernel does. Neither reads past its operands.
-/

namespace Grxcp.Sgemm

/-! ## What is computed -/

section Spec

variable {F : Type} (f : Arith F) (A B : ℤ → F) (x : SgemmArgs F)

/-- Where `op(A)(row, l)` is stored. -/
def SgemmArgs.aIndex (row l : ℕ) : ℕ :=
  if x.transa = GRXBLAS_ABI_OP_T then l + row * x.lda.toNat else row + l * x.lda.toNat

/-- Where `op(B)(l, col)` is stored. -/
def SgemmArgs.bIndex (l col : ℕ) : ℕ :=
  if x.transb = GRXBLAS_ABI_OP_T then col + l * x.ldb.toNat else l + col * x.ldb.toNat

/-- Where `C(row, col)` is stored. -/
def SgemmArgs.cIndex (row col : ℕ) : ℕ :=
  row + col * x.ldc.toNat

/-- The sum over the first `l` products of a row and a column, in their order. -/
def SgemmArgs.dotUpto (batch : UInt32) (row col l : ℕ) : F :=
  (List.range l).foldl (fun acc l => f.add acc (f.mul
    (A (SgemmArgs.offset batch x.strideA + x.aIndex row l))
    (B (SgemmArgs.offset batch x.strideB + x.bIndex l col)))) f.zero

/-- What is stored for an element of `C`. -/
def SgemmArgs.element (batch : UInt32) (c : ℕ × ℕ) : Store F where
  addr := SgemmArgs.offset batch x.strideC + x.cIndex c.1 c.2
  value := x.finish f (x.dotUpto f A B batch c.1 c.2 x.k.toNat)

/-- The elements of `C`, each once. -/
def SgemmArgs.elements (batch : UInt32) : List (Store F) :=
  (Tiles.cells x.m.toNat x.n.toNat).map (x.element f A B batch)

/-- The argument block is this kernel's, and what it counts and indexes is below `2 ^ 32`. -/
structure SgemmArgs.InRange : Prop where
  abi : x.abiVersion = GRXBLAS_SGEMM_ABI_VERSION
  outputs : x.m.toNat * x.n.toNat < 2 ^ 32
  a : ∀ row < x.m.toNat, ∀ l < x.k.toNat, x.aIndex row l < 2 ^ 32
  b : ∀ l < x.k.toNat, ∀ col < x.n.toNat, x.bIndex l col < 2 ^ 32
  c : ∀ row < x.m.toNat, ∀ col < x.n.toNat, x.cIndex row col < 2 ^ 32

/-- The elements of `A`, of `B` and of `C` of a batch element. -/
def SgemmArgs.InA (batch : UInt32) (p : ℤ) : Prop :=
  ∃ row < x.m.toNat, ∃ l < x.k.toNat, p = SgemmArgs.offset batch x.strideA + x.aIndex row l

def SgemmArgs.InB (batch : UInt32) (p : ℤ) : Prop :=
  ∃ l < x.k.toNat, ∃ col < x.n.toNat, p = SgemmArgs.offset batch x.strideB + x.bIndex l col

def SgemmArgs.InC (batch : UInt32) (p : ℤ) : Prop :=
  ∃ row < x.m.toNat, ∃ col < x.n.toNat, p = SgemmArgs.offset batch x.strideC + x.cIndex row col

/-- A trace reads only elements of the operands, and `C` only where `beta` is not zero. -/
structure SgemmArgs.Within (batch : UInt32) (tr : Trace F) : Prop where
  a : ∀ p ∈ tr.a, x.InA batch p
  b : ∀ p ∈ tr.b, x.InB batch p
  c : ∀ p ∈ tr.c, f.isZero x.beta = false ∧ x.InC batch p

/-- A trace stores these elements and reads only elements of the operands. -/
structure SgemmArgs.Computes (batch : UInt32) (cells : List (ℕ × ℕ)) (tr : Trace F) : Prop where
  stores : tr.stores = cells.map (x.element f A B batch)
  within : x.Within f batch tr

end Spec

section Threads

variable {F : Type} {f : Arith F} {A B : ℤ → F} {x : SgemmArgs F} {t : Thread}

theorem SgemmArgs.dotUpto_succ (batch : UInt32) (row col l : ℕ) :
    x.dotUpto f A B batch row col (l + 1) = f.add (x.dotUpto f A B batch row col l) (f.mul
      (A (SgemmArgs.offset batch x.strideA + x.aIndex row l))
      (B (SgemmArgs.offset batch x.strideB + x.bIndex l col))) := by
  unfold SgemmArgs.dotUpto
  rw [List.range_succ, List.foldl_append]
  rfl

/-! ## Indices -/

theorem toNat_ofNat_lt {l : ℕ} {k : UInt32} (hl : l < k.toNat) : (UInt32.ofNat l).toNat = l :=
  UInt32.toNat_ofNat_of_lt' (lt_trans hl k.toNat_lt)

/-- An affine index that is in range is the index on numbers. -/
theorem affine_toNat {p q ld : UInt32} (h : p.toNat + q.toNat * ld.toNat < 2 ^ 32) :
    (p + q * ld).toNat = p.toNat + q.toNat * ld.toNat := by
  rw [UInt32.toNat_add, UInt32.toNat_mul, Nat.mod_eq_of_lt (a := q.toNat * ld.toNat) (by omega),
    Nat.mod_eq_of_lt h]

theorem SgemmArgs.InRange.aSub (hx : x.InRange) {row l : UInt32} (hrow : row.toNat < x.m.toNat)
    (hl : l.toNat < x.k.toNat) : (x.aSub row l).toNat = x.aIndex row.toNat l.toNat := by
  have hlt := hx.a _ hrow _ hl
  unfold SgemmArgs.aSub
  unfold SgemmArgs.aIndex at hlt ⊢
  split
  next ht =>
    rw [if_pos ht] at hlt
    exact affine_toNat hlt
  next ht =>
    rw [if_neg ht] at hlt
    exact affine_toNat hlt

theorem SgemmArgs.InRange.bSub (hx : x.InRange) {l col : UInt32} (hl : l.toNat < x.k.toNat)
    (hcol : col.toNat < x.n.toNat) : (x.bSub l col).toNat = x.bIndex l.toNat col.toNat := by
  have hlt := hx.b _ hl _ hcol
  unfold SgemmArgs.bSub
  unfold SgemmArgs.bIndex at hlt ⊢
  split
  next ht =>
    rw [if_pos ht] at hlt
    exact affine_toNat hlt
  next ht =>
    rw [if_neg ht] at hlt
    exact affine_toNat hlt

/-- The count of tiles, with the padded size below `2 ^ 32`. -/
theorem blocks_toNat {m r : UInt32} (hr : 0 < r.toNat) (hpad : m.toNat + r.toNat - 1 < 2 ^ 32) :
    ((m + r - 1) / r).toNat = Tiles.blocks m.toNat r.toNat := by
  have hsum : (m + r - 1).toNat = m.toNat + r.toNat - 1 := by
    have hm := m.toNat_lt
    have hr' := r.toNat_lt
    have hone : (1 : UInt32).toNat = 1 := rfl
    rw [UInt32.toNat_sub, UInt32.toNat_add, hone]
    omega
  rw [UInt32.toNat_div, hsum]
  rfl

/-! ## The loop -/

/-- What each round of the loop keeps, the loop keeps. -/
theorem kLoop_spec {S : Type} {k : UInt32} {body : S → UInt32 → S} {s : S} {I : ℕ → S → Prop} (hzero : I 0 s)
    (hstep : ∀ l < k.toNat, ∀ s, I l s → I (l + 1) (body s (UInt32.ofNat l))) :
    I k.toNat (kLoop k body s) := by
  have hupto : ∀ l ≤ k.toNat, I l ((List.range l).foldl (fun s l => body s (UInt32.ofNat l)) s) := by
    intro l hl
    induction l with
    | zero => exact hzero
    | succ l ih =>
      rw [List.range_succ, List.foldl_append]
      exact hstep l hl _ (ih (Nat.le_of_succ_le hl))
  exact hupto k.toNat le_rfl

/-- Stores of the sums of some elements, after reads of the operands. -/
theorem computes_storeAll {a b : List ℤ} {outputs : List (ℤ × F)} {batch : UInt32} {cells : List (ℕ × ℕ)}
    (hcells : ∀ c ∈ cells, c.1 < x.m.toNat ∧ c.2 < x.n.toNat)
    (houtputs : outputs = cells.map fun c =>
      (SgemmArgs.offset batch x.strideC + (x.cIndex c.1 c.2 : ℤ), x.dotUpto f A B batch c.1 c.2 x.k.toNat))
    (ha : ∀ p ∈ a, x.InA batch p) (hb : ∀ p ∈ b, x.InB batch p) :
    x.Computes f A B batch cells (x.storeAll f a b outputs) := by
  refine ⟨?_, ha, hb, fun p hp => ?_⟩
  · show outputs.map _ = _
    rw [houtputs, List.map_map]
    rfl
  · have hp : p ∈ (if f.isZero x.beta then [] else outputs.map (·.1)) := hp
    by_cases hzero : f.isZero x.beta = true
    · rw [if_pos hzero] at hp
      exact absurd hp List.not_mem_nil
    · rw [if_neg hzero, houtputs, List.map_map] at hp
      obtain ⟨c, hc, rfl⟩ := List.mem_map.mp hp
      obtain ⟨hrow, hcol⟩ := hcells c hc
      exact ⟨Bool.eq_false_of_not_eq_true hzero, c.1, hrow, c.2, hcol, rfl⟩

theorem computes_nothing {batch : UInt32} : x.Computes f A B batch [] {} :=
  ⟨rfl, nofun, nofun, nofun⟩

/-! ## What one thread does -/

/-- The loop of the plain kernel: the sum, and reads of the row and the column. -/
theorem plainLoop_spec (hx : x.InRange) (batch : UInt32) {row col : UInt32} (hrow : row.toNat < x.m.toNat)
    (hcol : col.toNat < x.n.toNat) :
    (kLoop x.k (PlainLoop.step f A B x batch row col) { acc := f.zero }).acc =
        x.dotUpto f A B batch row.toNat col.toNat x.k.toNat ∧
      (∀ p ∈ (kLoop x.k (PlainLoop.step f A B x batch row col) { acc := f.zero }).a, x.InA batch p) ∧
      ∀ p ∈ (kLoop x.k (PlainLoop.step f A B x batch row col) { acc := f.zero }).b, x.InB batch p := by
  apply kLoop_spec (I := fun l (s : PlainLoop F) =>
    s.acc = x.dotUpto f A B batch row.toNat col.toNat l ∧ (∀ p ∈ s.a, x.InA batch p) ∧
      ∀ p ∈ s.b, x.InB batch p)
  · exact ⟨rfl, nofun, nofun⟩
  rintro l hl s ⟨hacc, ha, hb⟩
  have hlk := toNat_ofNat_lt hl
  have hai := hx.aSub hrow (l := UInt32.ofNat l) (by rwa [hlk])
  have hbi := hx.bSub (l := UInt32.ofNat l) (by rwa [hlk]) hcol
  rw [hlk] at hai hbi
  unfold PlainLoop.step
  dsimp only
  rw [hai, hbi]
  refine ⟨by rw [SgemmArgs.dotUpto_succ, hacc], fun p hp => ?_, fun p hp => ?_⟩
  · rcases List.mem_append.mp hp with hp | hp
    · exact ha p hp
    · exact ⟨row.toNat, hrow, l, hl, List.mem_singleton.mp hp⟩
  · rcases List.mem_append.mp hp with hp | hp
    · exact hb p hp
    · exact ⟨l, hl, col.toNat, hcol, List.mem_singleton.mp hp⟩

/-- A thread of the plain kernel. -/
theorem sgemm_computes (hx : x.InRange) :
    x.Computes f A B t.blockIdxY
      (if t.idx.toNat < x.m.toNat * x.n.toNat then [(t.idx.toNat % x.m.toNat, t.idx.toNat / x.m.toNat)] else [])
      (sgemm f A B x t) := by
  unfold sgemm
  rw [if_neg (not_not.mpr hx.abi)]
  have hcount : (x.m * x.n).toNat = x.m.toNat * x.n.toNat := by
    rw [UInt32.toNat_mul, Nat.mod_eq_of_lt hx.outputs]
  have hwork : t.idx < x.m * x.n ↔ t.idx.toNat < x.m.toNat * x.n.toNat := by
    rw [UInt32.lt_iff_toNat_lt, hcount]
  dsimp only
  by_cases hidx : t.idx < x.m * x.n
  · rw [if_pos hidx, if_pos (hwork.mp hidx)]
    have hlt := hwork.mp hidx
    have hpos : 0 < x.m.toNat := by
      by_contra hnot
      rw [Nat.eq_zero_of_not_pos hnot, Nat.zero_mul] at hlt
      exact Nat.not_lt_zero _ hlt
    have hrow : (t.idx % x.m).toNat < x.m.toNat := by
      rw [UInt32.toNat_mod]
      exact Nat.mod_lt _ hpos
    have hcol : (t.idx / x.m).toNat < x.n.toNat := by
      rw [UInt32.toNat_div]
      exact Nat.div_lt_of_lt_mul hlt
    rw [← UInt32.toNat_mod, ← UInt32.toNat_div]
    generalize t.idx % x.m = row at hrow ⊢
    generalize t.idx / x.m = col at hcol ⊢
    have hc : ((row + col * x.ldc).toNat : ℤ) = (x.cIndex row.toNat col.toNat : ℕ) :=
      congrArg _ (affine_toNat (hx.c _ hrow _ hcol))
    obtain ⟨hacc, ha, hb⟩ := plainLoop_spec (f := f) (A := A) (B := B) hx t.blockIdxY hrow hcol
    apply computes_storeAll ?_ ?_ ha hb
    · intro c hc
      rw [List.mem_singleton.mp hc]
      exact ⟨hrow, hcol⟩
    · rw [hc, List.map_singleton]
      exact congrArg (fun acc => [(_, acc)]) hacc
  · rw [if_neg hidx, if_neg (mt hwork.mpr hidx)]
    exact computes_nothing

/-- The row of an output of a patch. -/
theorem row_toNat {idx m RM rowBlocks : UInt32} (hRM : 0 < RM.toNat) (hpad : m.toNat + RM.toNat - 1 < 2 ^ 32)
    (hblocks : rowBlocks.toNat = Tiles.blocks m.toNat RM.toNat) (hpos : 0 < rowBlocks.toNat) {i : ℕ}
    (hi : i < RM.toNat) : (idx % rowBlocks + UInt32.ofNat i * rowBlocks).toNat =
      idx.toNat % Tiles.blocks m.toNat RM.toNat + i * Tiles.blocks m.toNat RM.toNat := by
  have hlt : idx.toNat % rowBlocks.toNat + i * rowBlocks.toNat < 2 ^ 32 := by
    have hbound := Tiles.blocks_mul_lt (m := m.toNat) hRM
    have hmod := Nat.mod_lt idx.toNat hpos
    have hmul : (i + 1) * rowBlocks.toNat ≤ RM.toNat * rowBlocks.toNat := Nat.mul_le_mul_right _ hi
    rw [← hblocks] at hbound
    rw [Nat.add_mul, Nat.one_mul] at hmul
    omega
  have hof := toNat_ofNat_lt hi
  rw [affine_toNat (by rwa [UInt32.toNat_mod, hof]), UInt32.toNat_mod, hof, hblocks]

/-- Its column. -/
theorem col_toNat {idx n RN rowBlocks : UInt32} (hRN : 0 < RN.toNat) (hpad : n.toNat + RN.toNat - 1 < 2 ^ 32)
    (hidx : idx.toNat < rowBlocks.toNat * Tiles.blocks n.toNat RN.toNat) {j : ℕ} (hj : j < RN.toNat) :
    (idx / rowBlocks * RN + UInt32.ofNat j).toNat = idx.toNat / rowBlocks.toNat * RN.toNat + j := by
  have hlt : j + idx.toNat / rowBlocks.toNat * RN.toNat < 2 ^ 32 := by
    have hbound := Tiles.blocks_mul_lt (m := n.toNat) hRN
    have hblock : idx.toNat / rowBlocks.toNat < Tiles.blocks n.toNat RN.toNat := Nat.div_lt_of_lt_mul hidx
    have hmul : RN.toNat * (idx.toNat / rowBlocks.toNat + 1) ≤ RN.toNat * Tiles.blocks n.toNat RN.toNat :=
      Nat.mul_le_mul_left _ hblock
    rw [Nat.mul_add, Nat.mul_one, Nat.mul_comm] at hmul
    omega
  have hof := toNat_ofNat_lt hj
  rw [UInt32.add_comm, affine_toNat (by rwa [UInt32.toNat_div, hof]), UInt32.toNat_div, hof, Nat.add_comm]

/-- A row that is past the edge is the last one. -/
theorem clamped_lt {r m : UInt32} (hm : m ≠ 0) : (if decide (r < m) then r else m - 1).toNat < m.toNat := by
  have hpos : 0 < m.toNat := by
    rw [Nat.pos_iff_ne_zero, ← UInt32.toNat_zero]
    exact fun heq => hm (UInt32.toNat_inj.mp heq)
  have hone : (1 : UInt32).toNat = 1 := rfl
  have hlast : (m - 1).toNat = m.toNat - 1 := by
    have hlt := m.toNat_lt
    rw [UInt32.toNat_sub, hone]
    omega
  split
  next hlive => exact UInt32.lt_iff_toNat_lt.mp (of_decide_eq_true hlive)
  · omega

/-- The tiles of a blocked kernel, counted in 32 bits. -/
theorem work_toNat (hx : x.InRange) {rowBlocks colBlocks : UInt32} {RM RN : ℕ} (hRM : 0 < RM) (hRN : 0 < RN)
    (hrows : rowBlocks.toNat = Tiles.blocks x.m.toNat RM) (hcols : colBlocks.toNat = Tiles.blocks x.n.toNat RN) :
    (rowBlocks * colBlocks).toNat = Tiles.blocks x.m.toNat RM * Tiles.blocks x.n.toNat RN := by
  have hle : Tiles.blocks x.m.toNat RM * Tiles.blocks x.n.toNat RN ≤ x.m.toNat * x.n.toNat :=
    Nat.mul_le_mul (Tiles.blocks_le hRM) (Tiles.blocks_le hRN)
  rw [UInt32.toNat_mul, hrows, hcols]
  exact Nat.mod_eq_of_lt (lt_of_le_of_lt hle hx.outputs)

theorem blocks_one (n : ℕ) : Tiles.blocks n 1 = n := by
  unfold Tiles.blocks
  rw [Nat.add_sub_cancel, Nat.div_one]

/-- A patch of one column. -/
theorem patch_one {m n rb rm idx : ℕ} (hidx : idx / rb < n) : Tiles.patch m n rb rm 1 idx =
    ((List.range rm).filter fun i => idx % rb + i * rb < m).map fun i => (idx % rb + i * rb, idx / rb) := by
  have hone : (List.range 1).filter (fun j => decide (idx / rb * 1 + j < n)) = [0] := by
    apply List.filter_eq_self.mpr
    intro j hj
    rw [List.mem_range] at hj
    rw [decide_eq_true_eq]
    omega
  unfold Tiles.patch
  rw [hone, List.flatMap_singleton, Nat.mul_one, Nat.add_zero]

/-- The loop of `sgemm_rb`: a sum for each row, and reads of the rows and the column. -/
theorem rbLoop_spec (hx : x.InRange) (RM batch : UInt32) {row : ℕ → UInt32} {col : UInt32}
    (hrow : ∀ i, (row i).toNat < x.m.toNat) (hcol : col.toNat < x.n.toNat) :
    (∀ i, (kLoop x.k (RbLoop.step f A B x RM batch row col) { acc := fun _ => f.zero }).acc i =
        x.dotUpto f A B batch (row i).toNat col.toNat x.k.toNat) ∧
      (∀ p ∈ (kLoop x.k (RbLoop.step f A B x RM batch row col) { acc := fun _ => f.zero }).a,
        x.InA batch p) ∧
      ∀ p ∈ (kLoop x.k (RbLoop.step f A B x RM batch row col) { acc := fun _ => f.zero }).b,
        x.InB batch p := by
  apply kLoop_spec (I := fun l (s : RbLoop F) =>
    (∀ i, s.acc i = x.dotUpto f A B batch (row i).toNat col.toNat l) ∧ (∀ p ∈ s.a, x.InA batch p) ∧
      ∀ p ∈ s.b, x.InB batch p)
  · exact ⟨fun _ => rfl, nofun, nofun⟩
  rintro l hl s ⟨hacc, ha, hb⟩
  have hlk := toNat_ofNat_lt hl
  have hai : ∀ i, (x.aSub (row i) (UInt32.ofNat l)).toNat = x.aIndex (row i).toNat l := by
    intro i
    rw [hx.aSub (hrow i) (by rwa [hlk]), hlk]
  have hbi := hx.bSub (l := UInt32.ofNat l) (by rwa [hlk]) hcol
  rw [hlk] at hbi
  unfold RbLoop.step
  dsimp only
  rw [hbi]
  refine ⟨fun i => by rw [SgemmArgs.dotUpto_succ, hacc, hai], fun p hp => ?_, fun p hp => ?_⟩
  · rcases List.mem_append.mp hp with hp | hp
    · exact ha p hp
    · obtain ⟨i, -, rfl⟩ := List.mem_map.mp hp
      rw [hai]
      exact ⟨(row i).toNat, hrow i, l, hl, rfl⟩
  · rcases List.mem_append.mp hp with hp | hp
    · exact hb p hp
    · exact ⟨l, hl, col.toNat, hcol, List.mem_singleton.mp hp⟩

/-- A thread of `sgemm_rb`. -/
theorem sgemmRb_computes (hx : x.InRange) {RM : UInt32} (hRM : 0 < RM.toNat)
    (hpad : x.m.toNat + RM.toNat - 1 < 2 ^ 32) :
    x.Computes f A B t.blockIdxY
      (if t.idx.toNat < Tiles.blocks x.m.toNat RM.toNat * Tiles.blocks x.n.toNat 1 then
        Tiles.patch x.m.toNat x.n.toNat (Tiles.blocks x.m.toNat RM.toNat) RM.toNat 1 t.idx.toNat else [])
      (sgemmRb f A B x RM t) := by
  unfold sgemmRb
  rw [if_neg (not_not.mpr hx.abi)]
  dsimp only
  have hblocks := blocks_toNat hRM hpad
  generalize (x.m + RM - 1) / RM = rowBlocks at hblocks ⊢
  have hcount := work_toNat hx hRM Nat.one_pos hblocks (blocks_one x.n.toNat).symm
  have hwork : t.idx < rowBlocks * x.n ↔
      t.idx.toNat < Tiles.blocks x.m.toNat RM.toNat * Tiles.blocks x.n.toNat 1 := by
    rw [UInt32.lt_iff_toNat_lt, hcount]
  by_cases hidx : x.m ≠ 0 ∧ t.idx < rowBlocks * x.n
  · have hlt := hwork.mp hidx.2
    rw [if_pos hidx, if_pos hlt]
    rw [blocks_one, ← hblocks] at hlt
    have hpos : 0 < rowBlocks.toNat := by
      by_contra hnot
      rw [Nat.eq_zero_of_not_pos hnot, Nat.zero_mul] at hlt
      exact Nat.not_lt_zero _ hlt
    have hcol : (t.idx / rowBlocks).toNat < x.n.toNat := by
      rw [UInt32.toNat_div]
      exact Nat.div_lt_of_lt_mul hlt
    have hrow : ∀ {i : ℕ}, i < RM.toNat → (t.idx % rowBlocks + UInt32.ofNat i * rowBlocks).toNat =
        t.idx.toNat % Tiles.blocks x.m.toNat RM.toNat + i * Tiles.blocks x.m.toNat RM.toNat :=
      fun hi => row_toNat hRM hpad hblocks hpos hi
    have hlast : ∀ i : ℕ, (if decide (t.idx % rowBlocks + UInt32.ofNat i * rowBlocks < x.m)
        then t.idx % rowBlocks + UInt32.ofNat i * rowBlocks else x.m - 1).toNat < x.m.toNat :=
      fun i => clamped_lt hidx.1
    obtain ⟨hacc, ha, hb⟩ := rbLoop_spec (f := f) (A := A) (B := B) hx RM t.blockIdxY hlast hcol
    refine computes_storeAll (fun c hc => ?_) ?_ ha hb
    · obtain ⟨hrow, hcol, -⟩ := (Tiles.mem_patch (hblocks ▸ hpos) Nat.one_pos).mp hc
      exact ⟨hrow, hcol⟩
    · rw [patch_one (by rw [← hblocks, ← UInt32.toNat_div]; exact hcol), List.map_map]
      have hlive : ∀ i ∈ List.range RM.toNat,
          decide (t.idx % rowBlocks + UInt32.ofNat i * rowBlocks < x.m) =
            decide (t.idx.toNat % Tiles.blocks x.m.toNat RM.toNat + i * Tiles.blocks x.m.toNat RM.toNat <
              x.m.toNat) := by
        intro i hi
        apply decide_eq_decide.mpr
        rw [UInt32.lt_iff_toNat_lt, hrow (List.mem_range.mp hi)]
      rw [List.filter_congr hlive]
      apply List.map_congr_left
      intro i hi
      obtain ⟨hi, hin⟩ := List.mem_filter.mp hi
      dsimp only [Function.comp]
      rw [hacc, if_pos ((hlive i hi).trans hin), hrow (List.mem_range.mp hi), UInt32.toNat_div, hblocks]
      rfl
  · rw [if_neg hidx, if_neg]
    · exact computes_nothing
    · intro hlt
      apply hidx
      refine ⟨fun hzero => ?_, hwork.mpr hlt⟩
      rw [hzero, UInt32.toNat_zero, blocks_one] at hlt
      have hle := Tiles.blocks_le (m := 0) hRM
      rw [Nat.le_zero.mp hle, Nat.zero_mul] at hlt
      exact Nat.not_lt_zero _ hlt

/-- The steps of the pointers. -/
def SgemmArgs.aStep (x : SgemmArgs F) : ℤ :=
  if x.transa = GRXBLAS_ABI_OP_T then 1 else x.lda.toNat

def SgemmArgs.bStep (x : SgemmArgs F) : ℤ :=
  if x.transb = GRXBLAS_ABI_OP_T then x.ldb.toNat else 1

/-- A pointer that is stepped is at the next product of its row. -/
theorem aIndex_succ (x : SgemmArgs F) (row l : ℕ) : (x.aIndex row l : ℤ) + x.aStep = x.aIndex row (l + 1) := by
  unfold SgemmArgs.aIndex SgemmArgs.aStep
  split
  · push_cast
    ring
  · push_cast
    ring

theorem bIndex_succ (x : SgemmArgs F) (l col : ℕ) : (x.bIndex l col : ℤ) + x.bStep = x.bIndex (l + 1) col := by
  unfold SgemmArgs.bIndex SgemmArgs.bStep
  split
  · push_cast
    ring
  · push_cast
    ring

/-- What a round of the tile's loop leaves: each pointer is at its product, the sums are those so far, and
the reads were of the operands. -/
structure TileLoop.Upto (f : Arith F) (A B : ℤ → F) (x : SgemmArgs F) (batch : UInt32) (row col : ℕ → UInt32)
    (l : ℕ) (s : TileLoop F) : Prop where
  ap : ∀ i, s.ap i = SgemmArgs.offset batch x.strideA + x.aIndex (row i).toNat l
  bp : ∀ j, s.bp j = SgemmArgs.offset batch x.strideB + x.bIndex l (col j).toNat
  acc : ∀ i j, s.acc i j = x.dotUpto f A B batch (row i).toNat (col j).toNat l
  a : ∀ p ∈ s.a, x.InA batch p
  b : ∀ p ∈ s.b, x.InB batch p

theorem tileLoop_spec {RM RN : UInt32} (batch : UInt32) {row col : ℕ → UInt32}
    (hrow : ∀ i < RM.toNat, (row i).toNat < x.m.toNat) (hcol : ∀ j < RN.toNat, (col j).toNat < x.n.toNat) :
    TileLoop.Upto f A B x batch row col x.k.toNat
      (kLoop x.k (TileLoop.step f A B RM RN x.aStep x.bStep) (TileLoop.start f x batch row col)) := by
  apply kLoop_spec (I := fun l s => TileLoop.Upto f A B x batch row col l s)
  · refine ⟨fun i => ?_, fun j => ?_, fun _ _ => rfl, nofun, nofun⟩
    · unfold TileLoop.start SgemmArgs.aIndex
      rw [Nat.zero_add, Nat.zero_mul, Nat.add_zero]
    · unfold TileLoop.start SgemmArgs.bIndex
      rw [Nat.zero_add, Nat.zero_mul, Nat.add_zero]
  rintro l hl s ⟨hap, hbp, hacc, ha, hb⟩
  refine ⟨fun i => ?_, fun j => ?_, fun i j => ?_, fun p hp => ?_, fun p hp => ?_⟩
  · show s.ap i + x.aStep = _
    rw [hap, Int.add_assoc, aIndex_succ]
  · show s.bp j + x.bStep = _
    rw [hbp, Int.add_assoc, bIndex_succ]
  · show f.add (s.acc i j) (f.mul (A (s.ap i)) (B (s.bp j))) = _
    rw [SgemmArgs.dotUpto_succ, hacc, hap, hbp]
  · rcases List.mem_append.mp hp with hp | hp
    · exact ha p hp
    · obtain ⟨i, hi, rfl⟩ := List.mem_map.mp hp
      rw [hap]
      exact ⟨(row i).toNat, hrow i (List.mem_range.mp hi), l, hl, rfl⟩
  · rcases List.mem_append.mp hp with hp | hp
    · exact hb p hp
    · obtain ⟨j, hj, rfl⟩ := List.mem_map.mp hp
      rw [hbp]
      exact ⟨l, hl, (col j).toNat, hcol j (List.mem_range.mp hj), rfl⟩

/-- A row or a column of a tile, where the tile is in the interior or is guarded: the kernel keeps what is in
the matrix, as it is, and reads the last one in the place of what is not. -/
theorem edge_spec {INTERIOR : Bool} {r m : UInt32} {p : ℕ} (hm : m ≠ 0) (hr : r.toNat = p)
    (hin : INTERIOR = true → p < m.toNat) :
    (if INTERIOR then r else if (if INTERIOR then true else decide (r < m)) then r else m - 1).toNat < m.toNat ∧
      (INTERIOR || (if INTERIOR then true else decide (r < m))) = decide (p < m.toNat) ∧
      (p < m.toNat →
        (if INTERIOR then r else if (if INTERIOR then true else decide (r < m)) then r else m - 1).toNat = p) := by
  cases INTERIOR with
  | true =>
    simp only [if_true, Bool.true_or]
    refine ⟨by rw [hr]; exact hin rfl, (decide_eq_true (hin rfl)).symm, fun _ => hr⟩
  | false =>
    simp only [Bool.false_eq_true, if_false, Bool.false_or]
    refine ⟨clamped_lt hm, ?_, fun hp => ?_⟩
    · apply decide_eq_decide.mpr
      rw [UInt32.lt_iff_toNat_lt, hr]
    · have hlive : decide (r < m) = true := by
        apply decide_eq_true
        rwa [UInt32.lt_iff_toNat_lt, hr]
      rw [if_pos hlive, hr]

/-- A thread of `micro_tile_body`. -/
theorem microTile_computes (hx : x.InRange) {RM RN : UInt32} (hRM : 0 < RM.toNat) (hRN : 0 < RN.toNat)
    (hpadM : x.m.toNat + RM.toNat - 1 < 2 ^ 32) (hpadN : x.n.toNat + RN.toNat - 1 < 2 ^ 32) {INTERIOR : Bool}
    (hinterior : INTERIOR = true → RM.toNat ∣ x.m.toNat ∧ RN.toNat ∣ x.n.toNat) :
    x.Computes f A B t.blockIdxY
      (if t.idx.toNat < Tiles.blocks x.m.toNat RM.toNat * Tiles.blocks x.n.toNat RN.toNat then
        Tiles.patch x.m.toNat x.n.toNat (Tiles.blocks x.m.toNat RM.toNat) RM.toNat RN.toNat t.idx.toNat else [])
      (microTile f A B x RM RN INTERIOR t) := by
  unfold microTile microTileBody
  rw [if_neg (not_not.mpr hx.abi)]
  dsimp only
  have hblocks := blocks_toNat hRM hpadM
  have hcolBlocks := blocks_toNat hRN hpadN
  generalize (x.m + RM - 1) / RM = rowBlocks at hblocks ⊢
  generalize (x.n + RN - 1) / RN = colBlocks at hcolBlocks ⊢
  have hcount := work_toNat hx hRM hRN hblocks hcolBlocks
  have hwork : t.idx < rowBlocks * colBlocks ↔
      t.idx.toNat < Tiles.blocks x.m.toNat RM.toNat * Tiles.blocks x.n.toNat RN.toNat := by
    rw [UInt32.lt_iff_toNat_lt, hcount]
  by_cases hidx : x.m ≠ 0 ∧ x.n ≠ 0 ∧ t.idx < rowBlocks * colBlocks
  · have hlt := hwork.mp hidx.2.2
    rw [if_pos hidx, if_pos hlt]
    have hpos : 0 < rowBlocks.toNat := by
      by_contra hnot
      rw [← hblocks, Nat.eq_zero_of_not_pos hnot, Nat.zero_mul] at hlt
      exact Nat.not_lt_zero _ hlt
    have hrow : ∀ {i : ℕ}, i < RM.toNat → (t.idx % rowBlocks + UInt32.ofNat i * rowBlocks).toNat =
        t.idx.toNat % Tiles.blocks x.m.toNat RM.toNat + i * Tiles.blocks x.m.toNat RM.toNat :=
      fun hi => row_toNat hRM hpadM hblocks hpos hi
    have hcol : ∀ {j : ℕ}, j < RN.toNat → (t.idx / rowBlocks * RN + UInt32.ofNat j).toNat =
        t.idx.toNat / Tiles.blocks x.m.toNat RM.toNat * RN.toNat + j := by
      intro j hj
      rw [col_toNat hRN hpadN (by rwa [hblocks]) hj, hblocks]
    have hrowIn : ∀ i < RM.toNat, INTERIOR = true →
        t.idx.toNat % Tiles.blocks x.m.toNat RM.toNat + i * Tiles.blocks x.m.toNat RM.toNat < x.m.toNat := by
      intro i hi hint
      have hexact := Tiles.blocks_of_dvd hRM (hinterior hint).1
      have hmod := Nat.mod_lt t.idx.toNat (hblocks ▸ hpos)
      have hmul : (i + 1) * Tiles.blocks x.m.toNat RM.toNat ≤ RM.toNat * Tiles.blocks x.m.toNat RM.toNat :=
        Nat.mul_le_mul_right _ hi
      rw [Nat.add_mul, Nat.one_mul] at hmul
      omega
    have hcolIn : ∀ j < RN.toNat, INTERIOR = true →
        t.idx.toNat / Tiles.blocks x.m.toNat RM.toNat * RN.toNat + j < x.n.toNat := by
      intro j hj hint
      have hexact := Tiles.blocks_of_dvd hRN (hinterior hint).2
      have hblock : t.idx.toNat / Tiles.blocks x.m.toNat RM.toNat < Tiles.blocks x.n.toNat RN.toNat :=
        Nat.div_lt_of_lt_mul hlt
      have hmul : (t.idx.toNat / Tiles.blocks x.m.toNat RM.toNat + 1) * RN.toNat ≤
          Tiles.blocks x.n.toNat RN.toNat * RN.toNat := Nat.mul_le_mul_right _ hblock
      rw [Nat.add_mul, Nat.one_mul, Nat.mul_comm (Tiles.blocks x.n.toNat RN.toNat)] at hmul
      omega
    have hrows := fun (i : ℕ) (hi : i < RM.toNat) => edge_spec hidx.1 (hrow hi) (hrowIn i hi)
    have hcols := fun (j : ℕ) (hj : j < RN.toNat) => edge_spec hidx.2.1 (hcol hj) (hcolIn j hj)
    have hloop := tileLoop_spec (f := f) (A := A) (B := B) (x := x) t.blockIdxY (fun i hi => (hrows i hi).1)
      (fun j hj => (hcols j hj).1)
    refine computes_storeAll (fun c hc => ?_) ?_ hloop.a hloop.b
    · obtain ⟨hrow, hcol, -⟩ := (Tiles.mem_patch (hblocks ▸ hpos) hRN).mp hc
      exact ⟨hrow, hcol⟩
    · unfold Tiles.patch
      rw [List.map_flatMap, List.filter_congr fun j hj => (hcols j (List.mem_range.mp hj)).2.1]
      apply List.flatMap_congr
      intro j hj
      obtain ⟨hj, hjn⟩ := List.mem_filter.mp hj
      rw [List.map_map, List.filter_congr fun i hi => (hrows i (List.mem_range.mp hi)).2.1]
      apply List.map_congr_left
      intro i hi
      obtain ⟨hi, him⟩ := List.mem_filter.mp hi
      have hr := (hrows i (List.mem_range.mp hi)).2.2 (of_decide_eq_true him)
      have hc := (hcols j (List.mem_range.mp hj)).2.2 (of_decide_eq_true hjn)
      have hacc := hloop.acc i j
      rw [hr, hc] at hacc
      dsimp only [Function.comp]
      rw [hr, hc]
      exact congrArg (Prod.mk _) hacc
  · rw [if_neg hidx, if_neg]
    · exact computes_nothing
    · intro hlt
      apply hidx
      refine ⟨fun hzero => ?_, fun hzero => ?_, hwork.mpr hlt⟩
      · rw [hzero, UInt32.toNat_zero] at hlt
        rw [Nat.le_zero.mp (Tiles.blocks_le hRM), Nat.zero_mul] at hlt
        exact Nat.not_lt_zero _ hlt
      · rw [hzero, UInt32.toNat_zero] at hlt
        rw [Nat.le_zero.mp (Tiles.blocks_le hRN), Nat.mul_zero] at hlt
        exact Nat.not_lt_zero _ hlt

end Threads

end Grxcp.Sgemm
