import Grxcp.Npu.ShimDriver

/-!
# Detection

`npu_c930_detect` asks a device for evidence: the status is one that a c930 has, and `DIM_M` reads back
two values that were written to it. What only answers its reads, as unbacked memory does, is never taken
for a device (`detect_blind`). On the register model the probe finds it, and leaves no trace but the time
of one poll (`detect_shim`).
-/

namespace Grxcp.NpuDpi

open Blas (Npu npuStatus NPU_C930_STATUS_BUSY NPU_C930_STATUS_ERROR)

variable {E : Type}

/-- `DIM_M`. -/
def npuDimM : U32 := 0x08

/-- `kProbes`. -/
def kProbes : List U32 :=
  [5, 2]

/-- The loop over the probes: each is written and read back, up to the first that is not there. -/
def probeLoop (d : Npu E) : List U32 → E → E × Bool
  | [], e => (e, true)
  | p :: ps, e =>
    let (e, v) := d.read32 (d.write32 e npuDimM p) npuDimM
    if v ≠ p then (e, false) else probeLoop d ps e

/-- `npu_c930_detect`, on a device with registers: whether it is present, with its `busy` and `error`. -/
def detect (d : Npu E) (e : E) : E × Option (Bool × Bool) :=
  let (e, status) := d.read32 e npuStatus
  if status = 0xFFFFFFFF ∨ status > 7 then (e, none)
  else
    let (e, saved) := d.read32 e npuDimM
    let (e, alive) := probeLoop d kProbes e
    let e := d.write32 e npuDimM saved
    if alive then
      (e, some (status &&& NPU_C930_STATUS_BUSY ≠ 0, status &&& NPU_C930_STATUS_ERROR ≠ 0))
    else (e, none)

/-- What does not show its writes, and answers a read again as it did, is not present. -/
theorem detect_blind (d : Npu E) (e : E)
    (hwrite : ∀ e v, (d.read32 (d.write32 e npuDimM v) npuDimM).2 = (d.read32 e npuDimM).2)
    (hread : ∀ e, (d.read32 (d.read32 e npuDimM).1 npuDimM).2 = (d.read32 e npuDimM).2) :
    (detect d e).2 = none := by
  have hloop : ∀ e, (probeLoop d kProbes e).2 = false := by
    intro e
    unfold kProbes probeLoop
    dsimp only
    by_cases hfirst : (d.read32 (d.write32 e npuDimM 5) npuDimM).2 ≠ 5
    · rw [if_pos hfirst]
    · rw [if_neg hfirst]
      have hsame : (d.read32 (d.write32 (d.read32 (d.write32 e npuDimM 5) npuDimM).1 npuDimM 2) npuDimM).2 ≠ 2 := by
        rw [hwrite, hread, not_not.mp hfirst]
        decide
      unfold probeLoop
      dsimp only
      rw [if_pos hsame]
  unfold detect
  dsimp only
  split
  · rfl
  · rw [hloop]
    rfl

/-- A page of zeros. -/
theorem detect_blind_zeros :
    (detect { read32 := fun e _ => (e, 0), write32 := fun e _ _ => e, ddr := fun _ _ => 0 } ()).2 = none :=
  detect_blind _ () (fun _ _ => rfl) fun _ => rfl

/-! ## The register model -/

/-- The model with a value in `DIM_M`. -/
def Adapter.withDimM (e : Adapter) (v : U32) : Adapter :=
  { e with m := v, shim := e.shim.setCsr 2 v }

theorem write_dimM (e : Adapter) (v : U32) : adapter.write32 e npuDimM v = e.withDimM v := rfl

theorem read_dimM (e : Adapter) : adapter.read32 e npuDimM = (e, e.shim.csr 2) := rfl

@[simp] theorem withDimM_withDimM (e : Adapter) (v v' : U32) : (e.withDimM v).withDimM v' = e.withDimM v' := by
  unfold Adapter.withDimM Shim.setCsr
  dsimp only
  rw [Function.update_idem]

@[simp] theorem withDimM_csr (e : Adapter) (v : U32) : (e.withDimM v).shim.csr 2 = v := by
  unfold Adapter.withDimM Shim.setCsr
  dsimp only
  rw [Function.update_self]

theorem withDimM_self (e : Adapter) : (e.withDimM (e.shim.csr 2)).shim = e.shim := by
  unfold Adapter.withDimM Shim.setCsr
  dsimp only
  rw [Function.update_eq_self]

theorem probeLoop_adapter (ps : List U32) : ∀ e : Adapter,
    ∃ v, (probeLoop adapter ps e).1 = (e.withDimM v) ∧ (probeLoop adapter ps e).2 = true ∨
      (probeLoop adapter ps e).1 = e ∧ (probeLoop adapter ps e).2 = true := by
  induction ps with
  | nil => exact fun e => ⟨0, .inr ⟨rfl, rfl⟩⟩
  | cons p ps ih =>
    intro e
    have hstep : probeLoop adapter (p :: ps) e = probeLoop adapter ps (e.withDimM p) := by
      rw [probeLoop]
      simp only [write_dimM, read_dimM, withDimM_csr, ne_eq, not_true_eq_false, if_false]
    rw [hstep]
    rcases ih (e.withDimM p) with ⟨v, ⟨hstate, halive⟩ | ⟨hstate, halive⟩⟩
    · exact ⟨v, .inl ⟨by rw [hstate, withDimM_withDimM], halive⟩⟩
    · exact ⟨p, .inl ⟨hstate, halive⟩⟩

/-- The probe finds the model wherever it is, and leaves it as a poll of the status would. -/
theorem detect_shim (e : Adapter) (hv : e.Valid) :
    (detect adapter e).1.shim = (e.polled 1).shim ∧
      (detect adapter e).2 = some ((e.polled 1).shim.busy, (e.polled 1).shim.error || decide (e.err ≠ 0)) := by
  have hstatus : ∀ s : Shim, ¬((s.buildStatus ||| e.err) = 0xFFFFFFFF ∨ (s.buildStatus ||| e.err) > 7) := by
    intro s
    unfold Shim.buildStatus
    rcases hv with h | h <;> rw [h] <;> cases s.error <;> cases s.doneLatch <;> cases s.busy <;> decide
  have hbusy : decide (((e.polled 1).shim.buildStatus ||| e.err) &&& NPU_C930_STATUS_BUSY ≠ 0) =
      (e.polled 1).shim.busy := by
    rw [Bool.eq_iff_iff, decide_eq_true_eq, ne_eq, Adapter.status_idle hv, Bool.not_eq_false]
  have herror : decide (((e.polled 1).shim.buildStatus ||| e.err) &&& NPU_C930_STATUS_ERROR ≠ 0) =
      ((e.polled 1).shim.error || decide (e.err ≠ 0)) := by
    rw [Bool.eq_iff_iff, decide_eq_true_eq, Adapter.status_error hv, Bool.or_eq_true, decide_eq_true_eq]
  have hsaved : ∀ e' : Adapter, ((probeLoop adapter kProbes e').1.withDimM (e'.shim.csr 2)).shim = e'.shim ∧
      (probeLoop adapter kProbes e').2 = true := by
    intro e'
    obtain ⟨v, ⟨hstate, halive⟩ | ⟨hstate, halive⟩⟩ := probeLoop_adapter kProbes e'
    · rw [hstate, withDimM_withDimM]
      exact ⟨withDimM_self e', halive⟩
    · rw [hstate]
      exact ⟨withDimM_self e', halive⟩
  obtain ⟨hstate, halive⟩ := hsaved (e.polled 1)
  unfold detect
  simp only [Adapter.read_status, read_dimM, write_dimM, if_neg (hstatus _), halive, if_true]
  exact ⟨hstate, by rw [hbusy, herror]⟩

/-- A model that is at work on a GEMM is found busy. -/
theorem detect_shim_busy :
    (detect adapter { quantum := 1, shim := { busy := true, cyclesLeft := 9, busyCycles := 2 } }).2 =
      some (true, false) :=
  (detect_shim { quantum := 1, shim := { busy := true, cyclesLeft := 9, busyCycles := 2 } } (.inl rfl)).2

end Grxcp.NpuDpi
