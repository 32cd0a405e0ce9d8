import Grxcp.Libs.GemmLayout

/-!
# Engines that compute at once

A c930 and a chiplet's link that are done with a GEMM as soon as they are given it. Both compute exactly,
so they show that a call which asks an NPU for a transpose, and which its host takes, is reported as done:
the calls that do what they should on every exact engine are the others (`gemm_layout`).
-/

namespace Grxcp.Blas

open Grxcp.Runtime PtaChiplet MajorOrder

/-! ## The c930 -/

/-- A c930 that has run as soon as it is launched: its registers, its memory, and `DONE`. -/
structure NpuModel where
  regs : U32 → U32 := fun _ => 0
  mem : Bytes
  done : Bool := false

/-- The GEMM that the registers hold. -/
def NpuModel.run (e : NpuModel) : NpuModel :=
  let m := (e.regs 0x08).toNat
  let n := (e.regs 0x0C).toNat
  let k := (e.regs 0x10).toNat
  let cells := productCells m n k (fun q => int8At e.mem ((e.regs 0x14).toNat + q))
    fun q => int8At e.mem ((e.regs 0x18).toNat + q)
  { e with mem := writeWords e.mem (e.regs 0x1C).toNat (cells.map (BitVec.ofInt 32)), done := true }

/-- The c930 that it is. -/
def npuModel : Npu NpuModel where
  read32 e off := (e, if off = npuStatus then (if e.done then NPU_C930_STATUS_DONE else 0) else e.regs off)
  write32 e off v :=
    if off = npuCtrl then e.run else { e with regs := fun o => if o = off then v else e.regs o }
  ddr e := e.mem

/-- The words of a product, read back. -/
theorem int32At_productCells (mem : Bytes) (c : ℕ) {m n k : ℕ} (a b : ℕ → ℤ) (i : Fin m) (j : Fin n) :
    int32At (writeWords mem c ((productCells m n k a b).map (BitVec.ofInt 32))) (c + 4 * (i.val * n + j.val)) =
      BitVec.ofInt 32 ((rows m k a k * rows k n b n) i j) := by
  have hlen : ((productCells m n k a b).map (BitVec.ofInt 32)).length = m * n := by
    rw [List.length_map, productCells, List.length_map, List.length_range]
  rw [int32At_writeWords mem c (by rw [hlen]; exact cell_lt i j), List.getD_eq_getElem?_getD,
    List.getElem?_map, productCells_getElem?]
  rfl

/-- A dimension, through its register. -/
theorem ofInt_toNat {x : ℤ} (hpos : 0 < x) (hle : x ≤ 16) : (BitVec.ofInt 32 x).toNat = x.toNat := by
  rw [BitVec.toNat_ofInt, Int.emod_eq_of_lt (by omega) (by omega)]

/-- It computes exactly. -/
def npuModelExact : ExactNpu npuModel where
  Started e g mem := e.done = true ∧ g.Product mem e.mem
  started e g hfits hidle := by
    refine ⟨rfl, fun i j => ?_⟩
    have hm : (BitVec.ofInt 32 g.m).toNat = g.m.toNat :=
      ofInt_toNat hfits.m_pos (hfits.m_le.trans (by decide))
    have hn : (BitVec.ofInt 32 g.n).toNat = g.n.toNat :=
      ofInt_toNat hfits.n_pos (hfits.n_le.trans (by decide))
    have hk : (BitVec.ofInt 32 g.k).toNat = g.k.toNat :=
      ofInt_toNat hfits.k_pos (hfits.k_le.trans (by decide))
    have hmem : (npuModel.launch g e).mem = writeWords e.mem g.c.toNat
        ((productCells (BitVec.ofInt 32 g.m).toNat (BitVec.ofInt 32 g.n).toNat (BitVec.ofInt 32 g.k).toNat
          (fun q => int8At e.mem (g.a.toNat + q)) fun q => int8At e.mem (g.b.toNat + q)).map
            (BitVec.ofInt 32)) := rfl
    rw [hm, hn, hk] at hmem
    exact (congrArg (int32At · _) hmem).trans (int32At_productCells e.mem g.c.toNat _ _ i j)
  started_read e g mem hstarted := hstarted
  done e g mem hstarted _ _ := hstarted.2

/-! ## The link -/

/-- A chiplet whose link is done with a command as soon as it has taken it: the command's status, and the
caller's buffer. -/
structure LinkModel where
  status : PtaTwin.CmdStatus := .pending
  cells : List ℤ := []

/-- The command is run. -/
def LinkModel.submit (_ : LinkModel) (c : PtaTwin.Cmd Unit) : LinkModel × Bool :=
  ({ status := .done
     cells := productCells c.M.toNat c.N.toNat c.K.toNat (fun q => (c.A.getD []).getD q 0)
      fun q => (c.B.getD []).getD q 0 }, true)

/-- The memory that the driver reads and writes. -/
def linkHost : Host LinkModel Unit where
  status e _ := e.status
  setStatus e _ status := { e with status }
  setC e _ cells := { e with cells }
  ld32 e _ := (e, 0)
  store e _ _ := e

/-- The device that it is behind. -/
def linkDevice : Device LinkModel Unit where
  present := true
  read32 := some fun e _ => (e, 0)
  submit := some LinkModel.submit

/-- It computes exactly. -/
def linkExact : ExactTile linkHost (fun e _ => e.cells) linkDevice where
  Taken e c := ∀ A B, c.A = some A → c.B = some B →
    IsProduct c.M.toNat c.N.toNat c.K.toNat A B fun q => BitVec.ofInt 32 (e.cells.getD q 0)
  taken f hf e c e' htook A B hA hB i j := by
    cases hf
    cases htook
    dsimp only
    rw [List.getD_eq_getElem?_getD, hA, hB, Option.getD_some, Option.getD_some, productCells_getElem?]
    rfl
  taken_read f hf e c off htaken := by
    cases hf
    exact htaken
  taken_done e c A B out status htaken hA hB _ _ _ := htaken A B hA hB
  Rung _ _ := True
  rung _ _ _ _ _ _ _ _ _ _ _ _ := trivial
  rung_kept _ := ⟨fun _ _ _ _ _ => trivial, fun _ _ _ _ _ _ _ => trivial, fun _ _ _ => trivial,
    fun _ _ _ _ _ => trivial⟩
  Ended _ _ := False
  rung_done _ _ _ hdone := nomatch hdone
  ended_look _ _ _ hended := hended
  ended_product _ _ hended := hended.elim
  result_set _ _ _ := rfl
  result_look _ _ _ := rfl

/-- The two engines. -/
def engineModels : Engines NpuModel LinkModel Unit where
  npu := some npuModel
  pta := { host := linkHost, result := fun e _ => e.cells, parent := some 0, heap := {}, out := (), status := () }

/-! ## The calls that it is exact for -/

/-- A call that asks for its engine has results. -/
theorem pos_of_settled {s : GemmExArgs} (h : s.settled = none) : 0 < s.m.toInt ∧ 0 < s.n.toInt := by
  unfold GemmExArgs.settled at h
  split at h
  · cases h
  split at h
  · cases h
  next hsigns =>
  split at h
  · cases h
  next hempty =>
  simp only [not_or, Int32.lt_iff_toInt_lt, ← Int32.toInt_inj, Int32.toInt_zero] at hsigns hempty
  omega

/-- It runs what it is launched for. -/
theorem npuModel_gemm {g : NpuGemm} (hfits : g.Fits) {e : NpuModel} (hdone : e.done = false) :
    (npuModel.gemm g (0, 0) e).2 = true := by
  have hpos : ¬ (g.m ≤ 0 ∨ g.n ≤ 0 ∨ g.k ≤ 0) := by
    simp only [not_or, not_le]
    exact ⟨hfits.m_pos, hfits.n_pos, hfits.k_pos⟩
  have hmax : ¬ (NPU_C930_MAX_M < g.m ∨ NPU_C930_MAX_N < g.n ∨ NPU_C930_MAX_K < g.k) := by
    simp only [not_or, not_lt]
    exact ⟨hfits.m_le, hfits.n_le, hfits.k_le⟩
  have halign : ¬ (g.a &&& 3 ≠ 0 ∨ g.b &&& 3 ≠ 0 ∨ g.c &&& 3 ≠ 0) := by
    simp only [not_or, not_not]
    exact ⟨hfits.a_aligned, hfits.b_aligned, hfits.c_aligned⟩
  have hidle : npuModel.waitIdle 0 e = (e, true) := by
    have hstatus : (npuModel.read32 e npuStatus).2 = 0 := by
      show (if e.done then NPU_C930_STATUS_DONE else 0) = 0
      rw [hdone]
      rfl
    unfold Npu.waitIdle
    rw [hstatus]
    rfl
  have hran : ∀ e : NpuModel, e.done = true → (npuModel.finish 0 e).2 = true := by
    intro e hdone
    have hstatus : (npuModel.read32 e npuStatus).2 = NPU_C930_STATUS_DONE := by
      show (if e.done then NPU_C930_STATUS_DONE else 0) = NPU_C930_STATUS_DONE
      rw [hdone]
      rfl
    unfold Npu.finish Npu.waitIdle
    rw [hstatus]
    show (if (npuModel.read32 e npuStatus).2 &&& NPU_C930_STATUS_ERROR ≠ 0 then (e, false)
      else if (npuModel.read32 e npuStatus).2 &&& NPU_C930_STATUS_DONE = 0 then (e, false) else (e, true)).2 = true
    rw [hstatus]
    rfl
  unfold Npu.gemm
  rw [if_neg (by decide), if_neg hpos, if_neg hmax, if_neg halign, hidle]
  exact hran _ rfl

/-- A call that the host of an NPU takes, it reports as done. -/
theorem npuModel_taken {s : EngineCall} (hsettled : s.settled = none) (htaken : s.Taken) {e : NpuModel}
    (hdone : e.done = false) : (npuGemmPath (some npuModel) s (0, 0) e).2 = .success := by
  obtain ⟨hm, hn⟩ := pos_of_settled hsettled
  have hfits : s.npuGemm.Fits :=
    { m_pos := hn, n_pos := hm, k_pos := htaken.k_pos
      m_le := htaken.n_le, n_le := htaken.m_le, k_le := htaken.k_le
      a_aligned := (aligned_iff htaken.b_reach).mpr htaken.b_aligned
      b_aligned := (aligned_iff htaken.a_reach).mpr htaken.a_aligned
      c_aligned := (aligned_iff htaken.c_reach).mpr htaken.c_aligned }
  have hmax : ¬ (NPU_C930_MAX_M < s.n.toInt ∨ NPU_C930_MAX_N < s.m.toInt ∨ NPU_C930_MAX_K < s.k.toInt) := by
    simp only [not_or, not_lt]
    exact ⟨htaken.n_le, htaken.m_le, htaken.k_le⟩
  have hld : ¬ (s.lda ≠ s.m ∨ s.ldb ≠ s.k ∨ s.ldc ≠ s.m) := by
    simp only [not_or, not_not]
    exact ⟨htaken.lda, htaken.ldb, htaken.ldc⟩
  have hreach : ¬ (0xFFFFFFFF < s.a ∨ 0xFFFFFFFF < s.b ∨ 0xFFFFFFFF < s.c) := by
    simp only [not_or, reach_iff]
    exact ⟨htaken.a_reach, htaken.b_reach, htaken.c_reach⟩
  have hran := npuModel_gemm hfits hdone
  unfold npuGemmPath
  dsimp only
  rw [if_neg (by rw [htaken.unscaled]; decide), if_neg hmax, if_neg hld, if_neg hreach]
  cases hrun : npuModel.gemm s.npuGemm (0, 0) e with
  | mk e' ran =>
    rw [hrun] at hran
    rw [show ran = true from hran]

/-- The engines' state before a call. -/
def enginesIdle (mem : Bytes) : NpuModel × Chiplet LinkModel Unit :=
  ({ mem }, { driver := ⟨linkDevice, {}⟩, mem })

/-- A call does what it should on every engine that computes exactly if and only if it asks no NPU for a
transpose that is otherwise in order. -/
theorem gemm_layout (M : Machine) (current : ℕ) (s : EngineCall) :
    LayoutExact M current s ↔ ¬ s.Misread M current := by
  constructor
  · intro hexact hmisread
    obtain ⟨hsettled, hnpu, htrans, htaken⟩ := hmisread
    obtain ⟨hm, hn⟩ := pos_of_settled hsettled
    have hholds := hexact NpuModel LinkModel Unit engineModels {} (enginesIdle fun _ => 0)
      (fun d hd => by cases hd; exact ⟨npuModelExact⟩) ⟨linkExact⟩
    have hform : s.NoForm .npuC930 := by
      refine ⟨Int32.lt_iff_toInt_lt.mpr hm, Int32.lt_iff_toInt_lt.mpr hn, ?_⟩
      rcases htrans with ha | hb
      · exact .inl ha
      · exact .inr (.inl hb)
    apply (hholds.refused .npuC930 (.inl rfl) hnpu hform).1
    unfold gemmOnEngines
    rw [hsettled, hnpu]
    exact npuModel_taken hsettled htaken rfl
  · intro h E F P G r x hX hT
    exact layoutHolds hX hT h

/-- A machine whose only device is an NPU. -/
def npuMachine : Machine where
  props _ := .ok { deviceType := .npu }
  slotCount _ := .ok 0

/-- `2 x 2`, with `A` transposed. -/
def transposedCall : EngineCall where
  transa := true
  m := 2
  n := 2
  k := 2
  a := 0x100
  lda := 2
  b := 0x200
  ldb := 2
  c := 0x300
  ldc := 2

/-- `A` is `1 3 / 2 4`, and `B` the identity. -/
def transposedMem : Bytes := fun x =>
  if x = 0x100 then 1 else if x = 0x101 then 2 else if x = 0x102 then 3 else if x = 0x103 then 4
  else if x = 0x200 ∨ x = 0x203 then 1 else 0

/-- The NPU is asked for the transpose of `A`, reports success and has stored `A`. -/
theorem gemm_layout_not : ¬ ∀ (M : Machine) (current : ℕ) (s : EngineCall), LayoutExact M current s := by
  intro hall
  have hholds := hall npuMachine 0 transposedCall NpuModel LinkModel Unit engineModels {}
    (enginesIdle transposedMem) (fun d hd => by cases hd; exact ⟨npuModelExact⟩) ⟨linkExact⟩
  have hstored := hholds.npu rfl rfl npuModel rfl (⟨1, by decide⟩ : Fin 2) (⟨0, by decide⟩ : Fin 2)
  revert hstored
  decide +kernel

end Grxcp.Blas
