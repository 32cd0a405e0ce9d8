import Grxcp.Libs.EngineGemm
import Grxcp.Pta.ExactTile

/-!
# The layout of a GEMM on the row-major engines

The library's matrices are column-major and the engines multiply row-major ones, so both paths hand over
the second operand as the first, with the dimensions crossed, and a leading dimension may not pad
(`MajorOrder.columns_mul`). What a call stores is then the product that it was asked for, unless it asks
for a transpose: the chiplet's branch refuses that, and the NPU's does not look (`layoutHolds`).
-/

namespace Grxcp.Blas

open Grxcp.Runtime PtaChiplet MajorOrder

/-! ## What is asked for -/

/-- `op(A)`, of the matrix that is stored at `a`. -/
def EngineCall.opA (s : EngineCall) (mem : Bytes) :
    Matrix (Fin s.m.toInt.toNat) (Fin s.k.toInt.toNat) ℤ :=
  let cell := fun q => int8At mem (s.a.toNat + q)
  if s.transa then (columns s.k.toInt.toNat s.m.toInt.toNat cell s.lda.toInt.toNat).transpose
  else columns s.m.toInt.toNat s.k.toInt.toNat cell s.lda.toInt.toNat

/-- `op(B)`, of the matrix that is stored at `b`. -/
def EngineCall.opB (s : EngineCall) (mem : Bytes) :
    Matrix (Fin s.k.toInt.toNat) (Fin s.n.toInt.toNat) ℤ :=
  let cell := fun q => int8At mem (s.b.toNat + q)
  if s.transb then (columns s.n.toInt.toNat s.k.toInt.toNat cell s.ldb.toInt.toNat).transpose
  else columns s.k.toInt.toNat s.n.toInt.toNat cell s.ldb.toInt.toNat

/-- The matrix at `c` is the low 32 bits of `op(A) op(B)`, of the operands that were stored before. -/
def EngineCall.Stored (s : EngineCall) (before after : Bytes) : Prop :=
  ∀ i j, int32At after (s.c.toNat + 4 * (i.val + j.val * s.ldc.toInt.toNat)) =
    BitVec.ofInt 32 ((s.opA before * s.opB before) i j)

/-- A call with results that the engine has no form for: a transpose, a leading dimension with padding,
an empty sum or scalars, and on the NPU what it has no room for or cannot reach. -/
def EngineCall.NoForm (s : EngineCall) (engine : Engine) : Prop :=
  0 < s.m ∧ 0 < s.n ∧
    (s.transa ∨ s.transb ∨ s.lda ≠ s.m ∨ s.ldb ≠ s.k ∨ s.ldc ≠ s.m ∨ s.k = 0 ∨ s.unscaled = false ∨
      engine = .npuC930 ∧
        (NPU_C930_MAX_M < s.n.toInt ∨ NPU_C930_MAX_N < s.m.toInt ∨ NPU_C930_MAX_K < s.k.toInt ∨
          2 ^ 32 ≤ s.a.toNat ∨ 2 ^ 32 ≤ s.b.toNat ∨ 2 ^ 32 ≤ s.c.toNat ∨
          s.a.toNat % 4 ≠ 0 ∨ s.b.toNat % 4 ≠ 0 ∨ s.c.toNat % 4 ≠ 0))

/-! ## What the c930 does -/

/-- The memory at `c` is the low 32 bits of the product of what was stored at `a` and `b`, all three row
by row. -/
def NpuGemm.Product (g : NpuGemm) (before after : Bytes) : Prop :=
  ∀ (i : Fin g.m.toNat) (j : Fin g.n.toNat), int32At after (g.c.toNat + 4 * (i * g.n.toNat + j)) =
    BitVec.ofInt 32
      ((rows g.m.toNat g.k.toNat (fun q => int8At before (g.a.toNat + q)) g.k.toNat *
        rows g.k.toNat g.n.toNat (fun q => int8At before (g.b.toNat + q)) g.n.toNat) i j)

/-- What `npu_c930_gemm` launches: the engine has room for it, at bases that are aligned. -/
structure NpuGemm.Fits (g : NpuGemm) : Prop where
  m_pos : 0 < g.m
  n_pos : 0 < g.n
  k_pos : 0 < g.k
  m_le : g.m ≤ NPU_C930_MAX_M
  n_le : g.n ≤ NPU_C930_MAX_N
  k_le : g.k ≤ NPU_C930_MAX_K
  a_aligned : g.a &&& 3 = 0
  b_aligned : g.b &&& 3 = 0
  c_aligned : g.c &&& 3 = 0

/-- A c930 that computes exactly: an idle one that is launched has run once it says so, on the operands
that were there at the launch. -/
structure ExactNpu {E : Type} (d : Npu E) where
  Started : E → NpuGemm → Bytes → Prop
  started : ∀ e g, g.Fits → (d.read32 e npuStatus).2 &&& NPU_C930_STATUS_BUSY = 0 →
    Started (d.launch g (d.read32 e npuStatus).1) g (d.ddr (d.read32 e npuStatus).1)
  started_read : ∀ e g mem, Started e g mem → Started (d.read32 e npuStatus).1 g mem
  done : ∀ e g mem, Started e g mem → (d.read32 e npuStatus).2 &&& NPU_C930_STATUS_ERROR = 0 →
    (d.read32 e npuStatus).2 &&& NPU_C930_STATUS_DONE ≠ 0 → g.Product mem (d.ddr (d.read32 e npuStatus).1)

section Npu

variable {E : Type} {d : Npu E} {e : E}

/-- A wait that ends well ends in a read that saw the engine idle. -/
theorem waitIdle_idle (polls : ℕ) (hok : (d.waitIdle polls e).2 = true) :
    ∃ e', (d.waitIdle polls e).1 = (d.read32 e' npuStatus).1 ∧
      (d.read32 e' npuStatus).2 &&& NPU_C930_STATUS_BUSY = 0 := by
  induction polls generalizing e with
  | zero => exact ⟨e, rfl, of_decide_eq_true hok⟩
  | succ polls ih =>
    unfold Npu.waitIdle at hok ⊢
    split
    next hidle => exact ⟨e, rfl, hidle⟩
    next hbusy =>
      rw [if_neg hbusy] at hok
      exact ih hok

theorem waitIdle_started (X : ExactNpu d) {g : NpuGemm} {mem : Bytes} (polls : ℕ)
    (hstarted : X.Started e g mem) : X.Started (d.waitIdle polls e).1 g mem := by
  induction polls generalizing e with
  | zero => exact X.started_read e g mem hstarted
  | succ polls ih =>
    unfold Npu.waitIdle
    split
    · exact X.started_read e g mem hstarted
    · exact ih (X.started_read e g mem hstarted)

/-- A GEMM that `npu_c930_gemm` reports as run is the product of what was stored when it was launched. -/
theorem npuGemm_product (X : ExactNpu d) (g : NpuGemm) (polls : ℕ × ℕ)
    (hok : (d.gemm g polls e).2 = true) :
    g.Product (d.ddr (d.waitIdle polls.1 e).1) (d.ddr (d.gemm g polls e).1) := by
  unfold Npu.gemm at hok ⊢
  by_cases hready : d.regReady = false
  · rw [if_pos hready] at hok
    exact absurd hok Bool.false_ne_true
  rw [if_neg hready] at hok ⊢
  by_cases hpos : g.m ≤ 0 ∨ g.n ≤ 0 ∨ g.k ≤ 0
  · rw [if_pos hpos] at hok
    exact absurd hok Bool.false_ne_true
  rw [if_neg hpos] at hok ⊢
  by_cases hmax : NPU_C930_MAX_M < g.m ∨ NPU_C930_MAX_N < g.n ∨ NPU_C930_MAX_K < g.k
  · rw [if_pos hmax] at hok
    exact absurd hok Bool.false_ne_true
  rw [if_neg hmax] at hok ⊢
  by_cases halign : g.a &&& 3 ≠ 0 ∨ g.b &&& 3 ≠ 0 ∨ g.c &&& 3 ≠ 0
  · rw [if_pos halign] at hok
    exact absurd hok Bool.false_ne_true
  rw [if_neg halign] at hok ⊢
  have hfits : g.Fits := by
    simp only [not_or, not_le, not_lt, not_not] at hpos hmax halign
    exact ⟨hpos.1, hpos.2.1, hpos.2.2, hmax.1, hmax.2.1, hmax.2.2, halign.1, halign.2.1, halign.2.2⟩
  have hfirst := waitIdle_idle (d := d) (e := e) polls.1
  cases hwait : d.waitIdle polls.1 e with
  | mk e₁ idle =>
    rw [hwait] at hok hfirst
    cases idle with
    | false => exact absurd hok Bool.false_ne_true
    | true =>
      obtain ⟨e₀, he, hidle⟩ := hfirst rfl
      dsimp only at hok he ⊢
      have hstarted := X.started e₀ g hfits hidle
      rw [← he] at hstarted
      have hstill := waitIdle_started X polls.2 hstarted
      unfold Npu.finish at hok ⊢
      cases hsecond : d.waitIdle polls.2 (d.launch g e₁) with
      | mk e₂ idle =>
        rw [hsecond] at hok hstill
        cases idle with
        | false => exact absurd hok Bool.false_ne_true
        | true =>
          dsimp only at hok hstill ⊢
          by_cases herror : (d.read32 e₂ npuStatus).2 &&& NPU_C930_STATUS_ERROR ≠ 0
          · rw [if_pos herror] at hok
            exact absurd hok Bool.false_ne_true
          rw [if_neg herror] at hok ⊢
          by_cases hdone : (d.read32 e₂ npuStatus).2 &&& NPU_C930_STATUS_DONE = 0
          · rw [if_pos hdone] at hok
            exact absurd hok Bool.false_ne_true
          rw [if_neg hdone]
          exact X.done e₂ g _ hstill (not_not.mp herror) hdone

end Npu

/-! ## The two paths -/

section Paths

variable {s : EngineCall}

/-- Of operands that are not transposed and not padded, the product is the engine's with the operands
crossed. -/
theorem opA_mul_opB (hplain : ¬ (s.transa ∨ s.transb)) (hlda : s.lda = s.m) (hldb : s.ldb = s.k)
    (mem : Bytes) : s.opA mem * s.opB mem =
      (rows s.n.toInt.toNat s.k.toInt.toNat (fun q => int8At mem (s.b.toNat + q)) s.k.toInt.toNat *
        rows s.k.toInt.toNat s.m.toInt.toNat (fun q => int8At mem (s.a.toNat + q)) s.m.toInt.toNat).transpose := by
  push Not at hplain
  unfold EngineCall.opA EngineCall.opB
  dsimp only
  rw [if_neg hplain.1, if_neg hplain.2, hlda, hldb]
  exact columns_mul _ _ _ _ _ _ _

/-- An address within the reach of the registers. -/
theorem reach_iff {a : UInt64} : ¬ 0xFFFFFFFF < a ↔ a.toNat < 2 ^ 32 := by
  have hmax : (0xFFFFFFFF : UInt64).toNat = 2 ^ 32 - 1 := rfl
  rw [UInt64.lt_iff_toNat_lt, hmax]
  omega

/-- It is what they hold. -/
theorem toUInt32_toNat_of_lt {a : UInt64} (h : a.toNat < 2 ^ 32) : a.toUInt32.toBitVec.toNat = a.toNat := by
  rw [UInt32.toNat_toBitVec, UInt64.toNat_toUInt32]
  exact Nat.mod_eq_of_lt h

/-- A call that the NPU's path reports as done, of operands that are not transposed. -/
theorem npuPath_stored {E : Type} {d : Npu E} (X : ExactNpu d) {e : E} {polls : ℕ × ℕ}
    (hplain : ¬ (s.transa ∨ s.transb)) (hok : (npuGemmPath (some d) s polls e).2 = .success) :
    s.Stored (d.ddr (d.waitIdle polls.1 e).1) (d.ddr (npuGemmPath (some d) s polls e).1) := by
  unfold npuGemmPath at hok ⊢
  dsimp only at hok ⊢
  by_cases hunit : s.unscaled = false
  · rw [if_pos hunit] at hok
    exact nomatch hok
  rw [if_neg hunit] at hok ⊢
  by_cases hmax : NPU_C930_MAX_M < s.n.toInt ∨ NPU_C930_MAX_N < s.m.toInt ∨ NPU_C930_MAX_K < s.k.toInt
  · rw [if_pos hmax] at hok
    exact nomatch hok
  rw [if_neg hmax] at hok ⊢
  by_cases hld : s.lda ≠ s.m ∨ s.ldb ≠ s.k ∨ s.ldc ≠ s.m
  · rw [if_pos hld] at hok
    exact nomatch hok
  rw [if_neg hld] at hok ⊢
  by_cases hreach : 0xFFFFFFFF < s.a ∨ 0xFFFFFFFF < s.b ∨ 0xFFFFFFFF < s.c
  · rw [if_pos hreach] at hok
    exact nomatch hok
  rw [if_neg hreach] at hok ⊢
  push Not at hld
  simp only [not_or, reach_iff] at hreach
  obtain ⟨hlda, hldb, hldc⟩ := hld
  obtain ⟨ha, hb, hc⟩ := hreach
  have hproduct := npuGemm_product (e := e) X s.npuGemm polls
  cases hrun : d.gemm s.npuGemm polls e with
  | mk e' ran =>
    rw [hrun] at hok hproduct
    cases ran with
    | false => exact nomatch hok
    | true =>
      have hproduct := hproduct rfl
      unfold NpuGemm.Product EngineCall.npuGemm at hproduct
      dsimp only at hproduct ⊢
      rw [toUInt32_toNat_of_lt ha, toUInt32_toNat_of_lt hb, toUInt32_toNat_of_lt hc] at hproduct
      intro i j
      rw [opA_mul_opB hplain hlda hldb, Matrix.transpose_apply, hldc, Nat.add_comm i.val]
      exact hproduct j i

/-- A word that was written is read back. -/
theorem int32At_writeWords (mem : Bytes) (a : ℕ) {words : List U32} {q : ℕ} (hq : q < words.length) :
    int32At (writeWords mem a words) (a + 4 * q) = words.getD q 0 := by
  have hbyte : ∀ b < 4, writeWords mem a words (a + 4 * q + b) =
      UInt8.ofNat ((words.getD q 0).toNat / 2 ^ (8 * b)) := by
    intro b hb
    have hindex : (a + 4 * q + b - a) / 4 = q := by omega
    have hoffset : (a + 4 * q + b - a) % 4 = b := by omega
    unfold writeWords
    rw [if_pos ⟨by omega, by omega⟩, hindex, hoffset]
  have hlt := (words.getD q 0).isLt
  unfold int32At
  rw [← Nat.add_zero (a + 4 * q), hbyte 0 (by decide), Nat.add_zero, hbyte 1 (by decide),
    hbyte 2 (by decide), hbyte 3 (by decide)]
  simp only [UInt8.toNat_ofNat']
  apply BitVec.eq_of_toNat_eq
  rw [BitVec.toNat_ofNat]
  omega

/-- The operands of a call as the chiplet is given them. -/
theorem ptaGemm_sized {P : Type} (s : EngineCall) (mem : Bytes) (out : P) :
    (s.ptaGemm mem out).Sized
      ((List.range (s.k.toInt.toNat * s.n.toInt.toNat)).map fun q => int8At mem (s.b.toNat + q))
      ((List.range (s.m.toInt.toNat * s.k.toInt.toNat)).map fun q => int8At mem (s.a.toNat + q)) out where
  hA := rfl
  hB := rfl
  hC := rfl
  lengthA := by
    rw [List.length_map, List.length_range, Nat.mul_comm]
    rfl
  lengthB := by
    rw [List.length_map, List.length_range, Nat.mul_comm]
    rfl
  M_lt := s.n.toInt_lt
  N_lt := s.m.toInt_lt
  K_lt := s.k.toInt_lt

/-- What a list that is read off a memory has below its length. -/
theorem getD_range (f : ℕ → ℤ) {n q : ℕ} (hq : q < n) : ((List.range n).map f).getD q 0 = f q := by
  rw [List.getD_eq_getElem _ _ (by rwa [List.length_map, List.length_range]), List.getElem_map,
    List.getElem_range]

/-- A product that the driver brings back is written out as it was asked for. -/
theorem writeBack_stored {E P : Type} {side : PtaSide E P} {x : Chiplet E P} {r : PtaReplies} {before : Bytes}
    (hplain : ¬ (s.transa ∨ s.transb)) (hlda : s.lda = s.m) (hldb : s.ldb = s.k) (hldc : s.ldc = s.m)
    (hproduct : IsProduct s.n.toInt.toNat s.m.toInt.toNat s.k.toInt.toNat
      ((List.range (s.k.toInt.toNat * s.n.toInt.toNat)).map fun q => int8At before (s.b.toNat + q))
      ((List.range (s.m.toInt.toNat * s.k.toInt.toNat)).map fun q => int8At before (s.a.toNat + q))
      fun q => BitVec.ofInt 32 ((side.result x.driver.env side.out).getD q 0))
    (hok : (ptaWriteBack side s r x).2 = .success) : s.Stored before (ptaWriteBack side s r x).1.mem := by
  unfold ptaWriteBack at hok ⊢
  cases hcopy : r.copyC with
  | some failed =>
    rw [hcopy] at hok
    exact nomatch hok
  | none =>
    dsimp only
    intro i j
    have hcell : j.val * s.m.toInt.toNat + i.val < s.m.toInt.toNat * s.n.toInt.toNat := by
      rw [Nat.mul_comm s.m.toInt.toNat]
      exact cell_lt j i
    have hrows := rows_mul_congr (m := s.n.toInt.toNat) (n := s.m.toInt.toNat) (k := s.k.toInt.toNat)
      (fun q hq => getD_range (fun q => int8At before (s.b.toNat + q)) (Nat.mul_comm _ _ ▸ hq))
      (fun q hq => getD_range (fun q => int8At before (s.a.toNat + q)) (Nat.mul_comm _ _ ▸ hq))
    have hword := hproduct j i
    dsimp only at hword
    rw [opA_mul_opB hplain hlda hldb, Matrix.transpose_apply, hldc, Nat.add_comm i.val,
      int32At_writeWords _ _ (by rwa [List.length_map, List.length_range]),
      List.getD_eq_getElem _ _ (by rwa [List.length_map, List.length_range]), List.getElem_map,
      List.getElem_range, hword, hrows]

/-- A call that the chiplet's path reports as done, of operands that are not transposed. -/
theorem ptaPath_stored {E P : Type} {side : PtaSide E P} {x : Chiplet E P} {r : PtaReplies}
    (X : ExactTile side.host side.result x.driver.dev) (hplain : ¬ (s.transa ∨ s.transb))
    (hok : (ptaGemmPath side s r x).2 = .success) : s.Stored x.mem (ptaGemmPath side s r x).1.mem := by
  unfold ptaGemmPath at hok ⊢
  cases hparent : side.parent with
  | none =>
    rw [hparent] at hok
    exact nomatch hok
  | some parent =>
    rw [hparent] at hok
    dsimp only at hok ⊢
    by_cases hunit : s.unscaled = false
    · rw [if_pos hunit] at hok
      exact nomatch hok
    rw [if_neg hunit] at hok ⊢
    by_cases hzero : s.k = 0
    · rw [if_pos hzero] at hok
      exact nomatch hok
    rw [if_neg hzero] at hok ⊢
    by_cases hld : s.lda ≠ s.m ∨ s.ldb ≠ s.k ∨ s.ldc ≠ s.m
    · rw [if_pos hld] at hok
      exact nomatch hok
    rw [if_neg hld] at hok ⊢
    push Not at hld
    obtain ⟨hlda, hldb, hldc⟩ := hld
    split at hok
    · exact nomatch hok
    next hmapped =>
    rw [if_neg hmapped]
    split at hok
    · exact nomatch hok
    next hcopied =>
    rw [if_neg hcopied]
    have hproduct := gemm_product X (ptaGemm_sized s x.mem side.out) side.status
    cases hrun : x.driver.gemm side.host side.status (s.ptaGemm x.mem side.out) with
    | mk driver ran =>
      rw [hrun] at hok hproduct
      cases ran with
      | false =>
        dsimp only at hok
        split at hok
        · exact nomatch hok
        · exact nomatch hok
      | true => exact writeBack_stored hplain hlda hldb hldc (hproduct rfl) hok

end Paths

/-! ## What is refused -/

section Refused

variable {s : EngineCall}

/-- What the host of an NPU looks at before it touches the engine. -/
structure EngineCall.Taken (s : EngineCall) : Prop where
  unscaled : s.unscaled = true
  n_le : s.n.toInt ≤ NPU_C930_MAX_M
  m_le : s.m.toInt ≤ NPU_C930_MAX_N
  k_le : s.k.toInt ≤ NPU_C930_MAX_K
  lda : s.lda = s.m
  ldb : s.ldb = s.k
  ldc : s.ldc = s.m
  a_reach : s.a.toNat < 2 ^ 32
  b_reach : s.b.toNat < 2 ^ 32
  c_reach : s.c.toNat < 2 ^ 32
  a_aligned : s.a.toNat % 4 = 0
  b_aligned : s.b.toNat % 4 = 0
  c_aligned : s.c.toNat % 4 = 0
  k_pos : 0 < s.k.toInt

/-- The alignment of an address, as it is looked at in the register. -/
theorem aligned_iff {a : UInt64} (h : a.toNat < 2 ^ 32) : a.toUInt32.toBitVec &&& 3 = 0 ↔ a.toNat % 4 = 0 := by
  have hmask : (a.toUInt32.toBitVec &&& 3).toNat = a.toNat % 4 := by
    rw [BitVec.toNat_and, toUInt32_toNat_of_lt h]
    exact Nat.and_two_pow_sub_one_eq_mod _ 2
  rw [← hmask, BitVec.toNat_eq]
  rfl

/-- The NPU's path touches nothing for a call that its host does not take. -/
theorem npuPath_refused {E : Type} (dev : Option (Npu E)) (polls : ℕ × ℕ) (e : E) (h : ¬ s.Taken) :
    (npuGemmPath dev s polls e).2 ≠ .success ∧ (npuGemmPath dev s polls e).1 = e := by
  unfold npuGemmPath
  cases dev with
  | none => exact ⟨nofun, rfl⟩
  | some d =>
    dsimp only
    split
    · exact ⟨nofun, rfl⟩
    next hunit =>
    split
    · exact ⟨nofun, rfl⟩
    next hmax =>
    split
    · exact ⟨nofun, rfl⟩
    next hld =>
    split
    · exact ⟨nofun, rfl⟩
    next hreach =>
    have hidle : d.gemm s.npuGemm polls e = (e, false) := by
      unfold Npu.gemm
      split
      · rfl
      split
      · rfl
      next hpos =>
      split
      · rfl
      split
      · rfl
      next halign =>
      exfalso
      apply h
      simp only [not_or, reach_iff, not_lt, not_le, not_not] at hmax hld hreach hpos halign
      obtain ⟨ha, hb, hc⟩ := hreach
      exact
        { unscaled := Bool.eq_true_of_not_eq_false hunit
          n_le := hmax.1, m_le := hmax.2.1, k_le := hmax.2.2
          lda := hld.1, ldb := hld.2.1, ldc := hld.2.2
          a_reach := ha, b_reach := hb, c_reach := hc
          a_aligned := (aligned_iff ha).mp halign.2.1
          b_aligned := (aligned_iff hb).mp halign.1
          c_aligned := (aligned_iff hc).mp halign.2.2
          k_pos := hpos.2.2 }
    rw [hidle]
    exact ⟨nofun, rfl⟩

/-- The chiplet's path touches nothing for a call of another form than the tile's. -/
theorem ptaPath_refused {E P : Type} (side : PtaSide E P) (r : PtaReplies) (x : Chiplet E P)
    (h : s.lda ≠ s.m ∨ s.ldb ≠ s.k ∨ s.ldc ≠ s.m ∨ s.k = 0 ∨ s.unscaled = false) :
    (ptaGemmPath side s r x).2 ≠ .success ∧ (ptaGemmPath side s r x).1 = x := by
  unfold ptaGemmPath
  split
  · refine ⟨fun hsuccess => ?_, rfl⟩
    cases hsuccess
  split
  · refine ⟨fun hsuccess => ?_, rfl⟩
    cases hsuccess
  next hunit =>
  split
  · refine ⟨fun hsuccess => ?_, rfl⟩
    cases hsuccess
  next hzero =>
  split
  · refine ⟨fun hsuccess => ?_, rfl⟩
    cases hsuccess
  next hld =>
  push Not at hld
  rcases h with hlda | hldb | hldc | hk | hscale
  · exact absurd hld.1 hlda
  · exact absurd hld.2.1 hldb
  · exact absurd hld.2.2 hldc
  · exact absurd hk hzero
  · exact absurd hscale hunit

/-- A call that succeeds before it asks for the engine has no results. -/
theorem empty_of_settled (h : s.settled = some .success) : s.m = 0 ∨ s.n = 0 := by
  unfold GemmExArgs.settled at h
  split at h
  · cases h
  split at h
  · cases h
  split at h
  next hempty => exact hempty
  split at h
  · cases h
  split at h
  · cases h
  by_cases hld : s.lda < (if s.transa then s.k else s.m) ∨ s.ldb < (if s.transb then s.n else s.k) ∨
      s.ldc < s.m
  · rw [if_pos hld] at h
    cases h
  · rw [if_neg hld] at h
    cases h

end Refused

/-! ## Every call -/

section Calls

variable {E F P : Type}

/-- What a call should do on the engines: if it is reported as done, the product that it asked for is
stored, of the operands that were there (on the NPU, once it is idle), and if its engine has no form for
it, it is an error, and nothing is touched. -/
structure LayoutHolds (M : Machine) (current : ℕ) (G : Engines E F P) (s : EngineCall) (r : EngineReplies)
    (x : E × Chiplet F P) : Prop where
  npu : decideGemmEngine M current s.types = .npuC930 → (gemmOnEngines M current G s r x).2 = .success →
    ∀ d, G.npu = some d →
      s.Stored (d.ddr (d.waitIdle r.polls.1 x.1).1) (d.ddr (gemmOnEngines M current G s r x).1.1)
  pta : decideGemmEngine M current s.types = .ptaChiplet →
    (gemmOnEngines M current G s r x).2 = .success →
      s.Stored x.2.mem (gemmOnEngines M current G s r x).1.2.mem
  refused : ∀ engine, engine = .npuC930 ∨ engine = .ptaChiplet →
    decideGemmEngine M current s.types = engine → s.NoForm engine →
      (gemmOnEngines M current G s r x).2 ≠ .success ∧ (gemmOnEngines M current G s r x).1 = x

/-- A call does so on all engines that compute exactly. -/
def LayoutExact (M : Machine) (current : ℕ) (s : EngineCall) : Prop :=
  ∀ (E F P : Type) (G : Engines E F P) (r : EngineReplies) (x : E × Chiplet F P),
    (∀ d, G.npu = some d → Nonempty (ExactNpu d)) →
      Nonempty (ExactTile G.pta.host G.pta.result x.2.driver.dev) → LayoutHolds M current G s r x

/-- The NPU is asked for a transpose, and finds everything else in order. -/
def EngineCall.Misread (M : Machine) (current : ℕ) (s : EngineCall) : Prop :=
  s.settled = none ∧ decideGemmEngine M current s.types = .npuC930 ∧ (s.transa ∨ s.transb) ∧ s.Taken

variable {M : Machine} {current : ℕ} {G : Engines E F P} {s : EngineCall} {r : EngineReplies}
  {x : E × Chiplet F P}

/-- What is stored of a matrix without cells. -/
theorem stored_of_empty (h : s.m = 0 ∨ s.n = 0) (before after : Bytes) : s.Stored before after := by
  intro i j
  rcases h with hzero | hzero
  · have hnone : s.m.toInt.toNat = 0 := by
      rw [hzero]
      rfl
    exact absurd i.isLt (by omega)
  · have hnone : s.n.toInt.toNat = 0 := by
      rw [hzero]
      rfl
    exact absurd j.isLt (by omega)

/-- A call that asks no NPU for a transpose. -/
theorem layoutHolds (hX : ∀ d, G.npu = some d → Nonempty (ExactNpu d))
    (hT : Nonempty (ExactTile G.pta.host G.pta.result x.2.driver.dev)) (h : ¬ s.Misread M current) :
    LayoutHolds M current G s r x := by
  obtain ⟨T⟩ := hT
  unfold EngineCall.Misread at h
  refine ⟨fun hnpu hok d hd => ?_, fun hpta hok => ?_, fun engine hengine hon hform => ?_⟩
  · obtain ⟨X⟩ := hX d hd
    unfold gemmOnEngines at hok ⊢
    cases hsettled : s.settled with
    | some status =>
      rw [hsettled] at hok
      cases hok
      exact stored_of_empty (empty_of_settled hsettled) _ _
    | none =>
      rw [hsettled, hnpu, hd] at hok
      rw [hnpu, hd]
      dsimp only at hok ⊢
      apply npuPath_stored X ?_ hok
      intro htrans
      apply h
      refine ⟨hsettled, hnpu, htrans, ?_⟩
      by_contra hnot
      exact (npuPath_refused (some d) r.polls x.1 hnot).1 hok
  · unfold gemmOnEngines at hok ⊢
    cases hsettled : s.settled with
    | some status =>
      rw [hsettled] at hok
      cases hok
      exact stored_of_empty (empty_of_settled hsettled) _ _
    | none =>
      rw [hsettled, hpta] at hok
      rw [hpta]
      dsimp only at hok ⊢
      by_cases htrans : s.transa ∨ s.transb
      · rw [if_pos htrans] at hok
        exact nomatch hok
      · rw [if_neg htrans] at hok ⊢
        exact ptaPath_stored T htrans hok
  · obtain ⟨hm, hn, hform⟩ := hform
    unfold gemmOnEngines
    cases hsettled : s.settled with
    | some status =>
      refine ⟨fun hsuccess => ?_, rfl⟩
      rw [show status = .success from hsuccess] at hsettled
      rcases empty_of_settled hsettled with hzero | hzero
      · rw [hzero] at hm
        exact absurd hm (by decide)
      · rw [hzero] at hn
        exact absurd hn (by decide)
    | none =>
      rcases hengine with rfl | rfl
      · have hnot : ¬ s.Taken := by
          intro htaken
          rcases hform with ha | hb | hlda | hldb | hldc | hk | hscale | ⟨-, hform⟩
          · exact h ⟨hsettled, hon, .inl ha, htaken⟩
          · exact h ⟨hsettled, hon, .inr hb, htaken⟩
          · exact hlda htaken.lda
          · exact hldb htaken.ldb
          · exact hldc htaken.ldc
          · have hpos := htaken.k_pos
            rw [hk] at hpos
            exact absurd hpos (by decide)
          · exact absurd (htaken.unscaled.symm.trans hscale) (by decide)
          · have hn := htaken.n_le
            have hm := htaken.m_le
            have hk := htaken.k_le
            have hreach := And.intro htaken.a_reach (And.intro htaken.b_reach htaken.c_reach)
            have haligned := And.intro htaken.a_aligned (And.intro htaken.b_aligned htaken.c_aligned)
            omega
        obtain ⟨hfail, hsame⟩ := npuPath_refused G.npu r.polls x.1 hnot
        rw [hon]
        exact ⟨hfail, Prod.ext hsame rfl⟩
      · rw [hon]
        dsimp only
        by_cases htrans : s.transa ∨ s.transb
        · rw [if_pos htrans]
          exact ⟨nofun, rfl⟩
        · rw [if_neg htrans]
          have hform' : s.lda ≠ s.m ∨ s.ldb ≠ s.k ∨ s.ldc ≠ s.m ∨ s.k = 0 ∨ s.unscaled = false := by
            rcases hform with ha | hb | hlda | hldb | hldc | hk | hscale | ⟨hnpu, -⟩
            · exact absurd (.inl ha) htrans
            · exact absurd (.inr hb) htrans
            · exact .inl hlda
            · exact .inr (.inl hldb)
            · exact .inr (.inr (.inl hldc))
            · exact .inr (.inr (.inr (.inl hk)))
            · exact .inr (.inr (.inr (.inr hscale)))
            · exact nomatch hnpu
          obtain ⟨hfail, hsame⟩ := ptaPath_refused G.pta r.pta x.2 hform'
          exact ⟨hfail, Prod.ext rfl hsame⟩

end Calls

end Grxcp.Blas
