import Grxcp.Pta.TileExact

/-!
# A calibration of a tile

`pta_cal_bank` lights one row of a bank at a time, with every weight zero, so that what a column reads is
what its ring is off by. Where no noise is on and the ADC passes its sums the probes read that exactly, and
the trims that are written null it (`calBank_nulls`): whatever the rings have drifted, as far as a trim
reaches, the bank is clean then, and a GEMM on it is a product again (`calibrated_gemm`).
-/

namespace Grxcp.PtaTile

open PtaTwin (Cfg Tile CalCfg CalReport)
open Sums

variable {cfg : Cfg} {tile : Tile} {bank : ℕ} {cal : CalCfg} {dev : Device}

/-- What a ring has drifted, if drift is on. -/
def shifted (cfg : Cfg) (dev : Device) (bank i : ℕ) : ℤ :=
  if cfg.impair &&& driftBit ≠ 0 then dev.drift bank i else 0

/-- A bank that a calibration can null. The trims reach what the rings have drifted, and the accumulator
holds what a probe reads. -/
structure Trimmable (cfg : Cfg) (tile : Tile) (bank : ℕ) (cal : CalCfg) (dev : Device) : Prop where
  quiet : Quiet cfg
  unity : Unity tile dev
  still : Still cfg dev
  fine : cfg.trimStep.toNat ≤ 1
  max : cfg.trimMax.toNat < 2 ^ 31
  din : tile.dinW ≤ 32
  acc : 2 ≤ tile.accW
  word : tile.accW ≤ 64
  amp : 8 ≤ cal.ampLog2.toNat
  reach : ∀ i < tile.rows * tile.cols, |shifted cfg dev bank i| ≤ cfg.trimMax.toNat
  fits : ∀ i < tile.rows * tile.cols, 2 ^ (cal.ampLog2.toNat - 8) * |fault cfg dev bank i| < 2 ^ (tile.accW - 1)

theorem Kept.fault_eq {dev' : Device} (hk : Kept dev dev') (i : ℕ) :
    fault cfg dev' bank i = fault cfg dev bank i := by
  rw [fault, fault, hk.drift, hk.trim]

/-! ## A probe -/

theorem Quiet.passCfg (h : Quiet cfg) (range : ℤ) : Quiet (passCfg cfg range) :=
  ⟨h.thermal, h.shot, h.xtalk, h.progErr, h.adc⟩

/-- The amplitude of a probe is one that the tile takes as it is. -/
theorem activation_amp (hok : calRefused cfg tile bank cal dev = false) (hdin : tile.dinW ≤ 32) :
    activation cfg tile (2 ^ cal.ampLog2.toNat) = 2 ^ cal.ampLog2.toNat := by
  unfold activation
  by_cases hq : cfg.impair &&& quantBit ≠ 0
  · rw [if_pos hq]
    by_cases hbits : cfg.actBits ≠ 0 ∧ cfg.actBits.toNat < tile.dinW
    · have hround : Rounds cfg.actBits tile.dinW := ⟨hbits.1, hbits.2, hdin⟩
      have hpos := hround.bits_pos
      unfold calRefused at hok
      simp only [decide_eq_false_iff_not, not_or, not_lt] at hok
      obtain ⟨-, -, -, -, -, -, htop, hlow⟩ := hok
      rw [if_pos ⟨hq, hbits⟩] at hlow
      -- the amplitude is a code times the step
      have hcode : (2 : ℤ) ^ cal.ampLog2.toNat =
          2 ^ (cal.ampLog2.toNat - (tile.dinW - cfg.actBits.toNat)) * step cfg.actBits tile.dinW := by
        rw [step, ← pow_add, Nat.sub_add_cancel hlow]
      have hlim : (0 : ℤ) < 2 ^ (cfg.actBits.toNat - 1) := by positivity
      have hnear := hround.quant_nearest (2 ^ cal.ampLog2.toNat)
        (2 ^ (cal.ampLog2.toNat - (tile.dinW - cfg.actBits.toNat)))
        ((neg_neg_of_pos hlim).le.trans (by positivity))
        (pow_lt_pow_right₀ (by norm_num) (by omega))
      rw [← hcode, sub_self, abs_zero] at hnear
      exact sub_eq_zero.mp (abs_eq_zero.mp (le_antisymm hnear (abs_nonneg _)))
    · unfold quant
      rw [if_pos]
      by_contra hc
      exact hbits ⟨fun h => hc (.inl h), by_contra fun h => hc (.inr (not_lt.mp h))⟩
  · rw [if_neg hq]

/-- A probe reads what a ring is off by, in units that the amplitude sets. -/
def reading (cfg : Cfg) (cal : CalCfg) (dev : Device) (bank i : ℕ) : ℤ :=
  2 ^ (cal.ampLog2.toNat - 8) * fault cfg dev bank i

theorem Trimmable.reading_bmod (h : Trimmable cfg tile bank cal dev) {i : ℕ} (hi : i < tile.rows * tile.cols) :
    (reading cfg cal dev bank i).bmod (2 ^ tile.accW) = reading cfg cal dev bank i := by
  have hfit := h.fits i hi
  have hacc := h.acc
  have habs : |reading cfg cal dev bank i| < 2 ^ (tile.accW - 1) := by
    rw [reading, abs_mul, abs_of_pos (by positivity : (0 : ℤ) < 2 ^ (cal.ampLog2.toNat - 8))]
    exact hfit
  obtain ⟨hlo, hhi⟩ := abs_lt.mp habs
  have hpow : (2 : ℤ) ^ tile.accW = 2 * 2 ^ (tile.accW - 1) := by
    rw [← pow_succ']
    congr 1
    omega
  refine Int.bmod_eq_of_le ?_ ?_ <;> push_cast <;> rw [hpow] <;> omega

/-- What a step of a calibration reads is added to the sums. -/
structure Reads (s s' : CalWalk) (d : ℕ → ℤ) : Prop where
  kept : Kept s.dev s'.dev
  sum : s'.sum = s.sum + d
  range : s'.range = s.range
  worst : s'.worst = s.worst
  resid : s'.resid = s.resid
  sats : s'.sats = s.sats
  clamped : s'.clamped = s.clamped

theorem Reads.refl (s : CalWalk) : Reads s s 0 :=
  ⟨.refl _, (add_zero _).symm, rfl, rfl, rfl, rfl, rfl⟩

theorem Reads.trans {s₁ s₂ s₃ : CalWalk} {d d' : ℕ → ℤ} (h : Reads s₁ s₂ d) (h' : Reads s₂ s₃ d') :
    Reads s₁ s₃ (d + d') :=
  ⟨h.kept.trans h'.kept, by rw [h'.sum, h.sum, add_assoc], h'.range.trans h.range, h'.worst.trans h.worst,
    h'.resid.trans h.resid, h'.sats.trans h.sats, h'.clamped.trans h.clamped⟩

theorem Reads.foldl {α : Type} {f : CalWalk → α → CalWalk} (P : CalWalk → Prop) (d : α → ℕ → ℤ) (l : List α)
    (hf : ∀ s, ∀ a ∈ l, P s → Reads s (f s a) (d a) ∧ P (f s a)) :
    ∀ s, P s → Reads s (l.foldl f s) (l.map d).sum ∧ P (l.foldl f s) :=
  foldl_adds Reads.refl (fun _ _ _ _ _ => Reads.trans) P d l hf

theorem zeroWeights_reads (h : Quiet cfg) (tile : Tile) {s : CalWalk} (he : Errorless cfg s.e) :
    Reads s (zeroWeights cfg tile s) 0 ∧ Errorless cfg (zeroWeights cfg tile s).e := by
  have hall := Reads.foldl (f := fun s i =>
      { s with st := (weightWrite s.st cfg).1, e := Function.update s.e i (weightWrite s.st cfg).2 })
    (fun s => Errorless cfg s.e) (fun _ => 0) (List.range (tile.rows * tile.cols))
    (fun s i _ hs => ⟨⟨.refl _, (add_zero _).symm, rfl, rfl, rfl, rfl, rfl⟩, hs.write h s.st i⟩) s he
  rw [sum_map_range, Finset.sum_const_zero] at hall
  exact hall

/-- The column of a probe that lights a row sums to what the ring there is off by. -/
theorem Trimmable.probe_rowSum (h : Trimmable cfg tile bank cal dev)
    (hok : calRefused cfg tile bank cal dev = false) {dev' : Device} (hk : Kept dev dev') {e : ℕ → ℤ}
    (he : Errorless cfg e) (range : ℤ) {r n : ℕ} (hr : r < tile.rows) :
    rowSum (passCfg cfg range) tile (fun r' => if r' = r then 2 ^ cal.ampLog2.toNat else 0) (fun r' =>
      analogWeightT cfg tile.dinW 0 (e (r' * tile.cols + n)) (dev'.drift bank (r' * tile.cols + n))
        (dev'.trim bank (r' * tile.cols + n))) tile.rows =
      reading cfg cal dev bank (r * tile.cols + n) * 256 := by
  have hpow : (2 : ℤ) ^ cal.ampLog2.toNat = 2 ^ (cal.ampLog2.toNat - 8) * 256 := by
    rw [show (256 : ℤ) = 2 ^ 8 by norm_num, ← pow_add, Nat.sub_add_cancel h.amp]
  have hzero : weight cfg tile 0 = 0 := by
    unfold weight
    rw [quant_zero, ite_self]
  rw [(h.quiet.passCfg range).rowSum_eq, Finset.sum_eq_single r]
  · change activation cfg tile _ * _ = _
    rw [if_pos rfl, activation_amp hok h.din, analogWeightT_eq he, hzero, zero_mul, zero_add,
      hk.fault_eq, hpow, reading]
    ring
  · intro r' _ hne
    change activation cfg tile _ * _ = _
    rw [if_neg hne, activation_zero, zero_mul]
  · intro hmem
    exact absurd (Finset.mem_range.mpr hr) hmem

/-- A column of a probe reads its ring. -/
theorem Trimmable.probeColumn_reads (h : Trimmable cfg tile bank cal dev)
    (hok : calRefused cfg tile bank cal dev = false) {s : CalWalk} (hk : Kept dev s.dev)
    (he : Errorless cfg s.e) {r n : ℕ} (hr : r < tile.rows) (hn : n < tile.cols) :
    Reads s (probeColumn cfg tile bank cal r s n)
      (spread tile.cols (fun r n => reading cfg cal dev bank (r * tile.cols + n)) r n) := by
  have hacc := h.acc
  have hunity : Unity tile s.dev := by
    intro n hn
    rw [hk.gain, hk.offs]
    exact h.unity n hn
  have hround : (reading cfg cal dev bank (r * tile.cols + n) * 256 + 2 ^ 7) / 2 ^ 8 =
      reading cfg cal dev bank (r * tile.cols + n) := by omega
  have hcell : r * tile.cols + n < tile.rows * tile.cols := by nlinarith
  have hsum : (probeColumn cfg tile bank cal r s n).sum =
      s.sum + spread tile.cols (fun r n => reading cfg cal dev bank (r * tile.cols + n)) r n := by
    unfold probeColumn
    dsimp only
    rw [(h.quiet.passCfg s.range).element_eq _ _ _ _ (by omega) h.word]
    dsimp only
    rw [h.probe_rowSum hok hk he _ hr, hround, h.reading_bmod hcell,
      hunity.affine_eq hn _ (by omega) h.word, h.reading_bmod hcell]
    funext i
    unfold spread
    by_cases hi : i = r * tile.cols + n
    · subst hi
      rw [Function.update_self, Pi.add_apply, Pi.single_eq_same]
    · rw [Function.update_of_ne hi, Pi.add_apply, Pi.single_eq_of_ne hi, add_zero]
  refine ⟨.refl _, hsum, rfl, rfl, rfl, ?_, rfl⟩
  unfold probeColumn
  dsimp only
  rw [(h.quiet.passCfg s.range).element_eq _ _ _ _ (by omega) h.word]
  exact add_zero _

theorem Trimmable.probe_reads (h : Trimmable cfg tile bank cal dev)
    (hok : calRefused cfg tile bank cal dev = false) {s : CalWalk} (hk : Kept dev s.dev)
    (he : Errorless cfg s.e) {r : ℕ} (hr : r < tile.rows) :
    Reads s (probe cfg tile bank cal s r) (∑ n ∈ Finset.range tile.cols,
      spread tile.cols (fun r n => reading cfg cal dev bank (r * tile.cols + n)) r n) ∧
      Kept dev (probe cfg tile bank cal s r).dev ∧ Errorless cfg (probe cfg tile bank cal s r).e := by
  have hstart : probe cfg tile bank cal s r = (List.range tile.cols).foldl (probeColumn cfg tile bank cal r)
      { s with dev := if cfg.impair &&& driftBit ≠ 0 then shotStart s.dev cfg else s.dev } := by
    unfold probe
    dsimp only
    congr 1
    split <;> rfl
  have hdev : Kept s.dev (if cfg.impair &&& driftBit ≠ 0 then shotStart s.dev cfg else s.dev) := by
    by_cases hd : cfg.impair &&& driftBit ≠ 0
    · rw [if_pos hd]
      exact shotStart_kept hd (h.still.kept hk)
    · rw [if_neg hd]
      exact .refl _
  have hfirst : Reads s
      { s with dev := if cfg.impair &&& driftBit ≠ 0 then shotStart s.dev cfg else s.dev } 0 :=
    ⟨hdev, (add_zero _).symm, rfl, rfl, rfl, rfl, rfl⟩
  obtain ⟨hreads, hkept⟩ := Reads.foldl (fun s => Kept dev s.dev ∧ Errorless cfg s.e)
    (spread tile.cols (fun r n => reading cfg cal dev bank (r * tile.cols + n)) r) (List.range tile.cols)
    (fun s n hn hs =>
      have hone := h.probeColumn_reads hok hs.1 hs.2 hr (List.mem_range.mp hn)
      ⟨hone, hs.1.trans hone.kept, hs.2⟩)
    { s with dev := if cfg.impair &&& driftBit ≠ 0 then shotStart s.dev cfg else s.dev }
    ⟨hk.trans hdev, he⟩
  rw [sum_map_range] at hreads
  have hall := hfirst.trans hreads
  rw [zero_add] at hall
  rw [hstart]
  exact ⟨hall, hkept⟩

/-- A repeat reads every ring of the bank once. -/
theorem Trimmable.calRep_reads (h : Trimmable cfg tile bank cal dev)
    (hok : calRefused cfg tile bank cal dev = false) {s : CalWalk} (hk : Kept dev s.dev)
    (he : Errorless cfg s.e) :
    Reads s (calRep cfg tile bank cal s) (∑ r ∈ Finset.range tile.rows, ∑ n ∈ Finset.range tile.cols,
      spread tile.cols (fun r n => reading cfg cal dev bank (r * tile.cols + n)) r n) ∧
      Kept dev (calRep cfg tile bank cal s).dev ∧ Errorless cfg (calRep cfg tile bank cal s).e := by
  obtain ⟨hzero, he'⟩ := zeroWeights_reads h.quiet tile he
  obtain ⟨hreads, hkept⟩ := Reads.foldl (fun s => Kept dev s.dev ∧ Errorless cfg s.e)
    (fun r => ∑ n ∈ Finset.range tile.cols,
      spread tile.cols (fun r n => reading cfg cal dev bank (r * tile.cols + n)) r n) (List.range tile.rows)
    (fun s r hr hs => h.probe_reads hok hs.1 hs.2 (List.mem_range.mp hr)) (zeroWeights cfg tile s)
    ⟨hk.trans hzero.kept, he'⟩
  rw [sum_map_range] at hreads
  have hall := hzero.trans hreads
  rw [zero_add] at hall
  exact ⟨hall, hkept⟩

/-- What a pass has read of a ring: its probes are added up. -/
theorem Trimmable.reps_reads (h : Trimmable cfg tile bank cal dev)
    (hok : calRefused cfg tile bank cal dev = false) {s : CalWalk} (hk : Kept dev s.dev)
    (he : Errorless cfg s.e) (hsum : s.sum = fun _ => 0) (k : ℕ) :
    let s' := (calRep cfg tile bank cal)^[k] s
    Kept dev s'.dev ∧ (∀ i < tile.rows * tile.cols, s'.sum i = k * reading cfg cal dev bank i) ∧
      s'.resid = s.resid ∧ s'.sats = s.sats ∧ s'.clamped = s.clamped := by
  dsimp only
  obtain ⟨hreads, hkept, -⟩ := iterate_adds Reads.refl (fun _ _ _ _ _ => Reads.trans)
    (fun s => Kept dev s.dev ∧ Errorless cfg s.e) _ (fun s hs => h.calRep_reads hok hs.1 hs.2) k s ⟨hk, he⟩
  refine ⟨hkept, fun i hi => ?_, hreads.resid, hreads.sats, hreads.clamped⟩
  have hpos : 0 < tile.cols := Nat.pos_of_lt_mul_left hi
  have hcell : i = i / tile.cols * tile.cols + i % tile.cols := by
    rw [Nat.mul_comm]
    exact (Nat.div_add_mod i tile.cols).symm
  have hrow : i / tile.cols < tile.rows := Nat.div_lt_of_lt_mul (by rwa [Nat.mul_comm] at hi)
  rw [hreads.sum, hsum, Pi.add_apply, zero_add, Pi.smul_apply, hcell,
    spread_apply _ hrow (Nat.mod_lt i hpos), nsmul_eq_mul]

/-! ## The estimator -/

/-- The largest error of the first rings of a bank. -/
def worstFault (cfg : Cfg) (dev : Device) (bank : ℕ) (k : ℕ) : ℤ :=
  (List.range k).foldl (fun worst i => max worst |fault cfg dev bank i|) 0

/-- The first `k` rings of a bank are nulled, from what the pass read. -/
structure Nulled (cfg : Cfg) (tile : Tile) (bank : ℕ) (dev : Device) (k : ℕ) (s₀ s : CalWalk) : Prop where
  rows : s.dev.rows = dev.rows
  cols : s.dev.cols = dev.cols
  drift : s.dev.drift = dev.drift
  gain : s.dev.gain = dev.gain
  offs : s.dev.offs = dev.offs
  trim : ∀ i, s.dev.trim bank i = if i < k then -shifted cfg dev bank i else dev.trim bank i
  sum : s.sum = s₀.sum
  resid : s.resid = worstFault cfg dev bank k
  sats : s.sats = s₀.sats
  clamped : s.clamped = s₀.clamped

/-- The estimator nulls a ring whose probes read what it is off by. -/
theorem Nulled.estimate (h : Trimmable cfg tile bank cal dev) {k : ℕ} (hk : k < tile.rows * tile.cols)
    {s₀ s : CalWalk} (hs : Nulled cfg tile bank dev k s₀ s)
    (hsum : s₀.sum k = (2 ^ cal.repsLog2.toNat : ℕ) * reading cfg cal dev bank k) :
    Nulled cfg tile bank dev (k + 1) s₀ (estimate cfg bank cal s k) := by
  have hamp := h.amp
  -- the estimate is the error itself
  have hq : |s₀.sum k| * 2 ^ 8 / 2 ^ (cal.ampLog2.toNat + cal.repsLog2.toNat) = |fault cfg dev bank k| := by
    have hpos : (0 : ℤ) < 2 ^ (cal.ampLog2.toNat + cal.repsLog2.toNat) := by positivity
    have hval : |s₀.sum k| * 2 ^ 8 =
        |fault cfg dev bank k| * 2 ^ (cal.ampLog2.toNat + cal.repsLog2.toNat) := by
      have hpow : (2 : ℤ) ^ cal.ampLog2.toNat = 2 ^ (cal.ampLog2.toNat - 8) * 2 ^ 8 := by
        rw [← pow_add, Nat.sub_add_cancel hamp]
      rw [hsum, reading, abs_mul, abs_mul, pow_add, hpow]
      push_cast
      rw [abs_of_pos (by positivity : (0 : ℤ) < 2 ^ cal.repsLog2.toNat),
        abs_of_pos (by positivity : (0 : ℤ) < 2 ^ (cal.ampLog2.toNat - 8))]
      ring
    rw [hval, Int.mul_ediv_cancel _ hpos.ne']
  have hsign : (s₀.sum k < 0) ↔ fault cfg dev bank k < 0 := by
    rw [hsum, reading]
    push_cast
    constructor
    · intro hneg
      by_contra hc
      have : (0 : ℤ) ≤ 2 ^ cal.repsLog2.toNat * (2 ^ (cal.ampLog2.toNat - 8) * fault cfg dev bank k) := by
        have := not_lt.mp hc
        positivity
      omega
    · intro hneg
      exact mul_neg_of_pos_of_neg (by positivity) (mul_neg_of_pos_of_neg (by positivity) hneg)
  have hmag : (if s.sum k < 0 then -s.sum k else s.sum k) = |s₀.sum k| := by
    rw [hs.sum]
    split
    · exact (abs_of_neg (by assumption)).symm
    · exact (abs_of_nonneg (not_lt.mp (by assumption))).symm
  have htrim : s.dev.trim bank k = dev.trim bank k := by
    rw [hs.trim, if_neg (lt_irrefl k)]
  have hreq : s.dev.trim bank k + (if s.sum k < 0 then |fault cfg dev bank k| else -|fault cfg dev bank k|) =
      -shifted cfg dev bank k := by
    have hfault : fault cfg dev bank k = shifted cfg dev bank k + dev.trim bank k := rfl
    rw [htrim, hs.sum]
    by_cases hneg : fault cfg dev bank k < 0
    · rw [if_pos (hsign.mpr hneg), abs_of_neg hneg]
      omega
    · rw [if_neg (mt hsign.mp hneg), abs_of_nonneg (not_lt.mp hneg)]
      omega
  have hreach := abs_le.mp (h.reach k hk)
  have hmax := h.max
  have hround : ∀ v, trimRound cfg.trimStep v = v := by
    intro v
    unfold trimRound
    dsimp only
    rw [if_pos (by exact_mod_cast h.fine)]
  have hclamp : clamp (-2147483648) 2147483647 (-shifted cfg dev bank k) = -shifted cfg dev bank k := by
    rw [clamp_eq _ _ _ (by norm_num)]
    omega
  have hwrite : toInt32 (clamp (-cfg.trimMax.toNat) cfg.trimMax.toNat (-shifted cfg dev bank k)) =
      -shifted cfg dev bank k := by
    have hin : clamp (-cfg.trimMax.toNat) cfg.trimMax.toNat (-shifted cfg dev bank k) =
        -shifted cfg dev bank k := by
      rw [clamp_eq _ _ _ (by omega)]
      omega
    rw [hin]
    exact toInt32_of_abs_le hmax (by rw [abs_neg]; exact h.reach k hk)
  unfold PtaTile.estimate
  dsimp only
  rw [hmag, hq, hreq, hclamp, hround]
  refine ⟨hs.rows, hs.cols, hs.drift, hs.gain, hs.offs, fun i => ?_, hs.sum, ?_, hs.sats, ?_⟩
  · unfold trimWrite
    dsimp only
    rw [hround, hwrite, setCell, Function.update_self]
    by_cases hi : i = k
    · subst hi
      rw [Function.update_self, if_pos (Nat.lt_succ_self i)]
    · rw [Function.update_of_ne hi, hs.trim]
      congr 1
      exact propext ⟨fun h => Nat.lt_succ_of_lt h, fun h => by omega⟩
  · rw [worstFault, List.range_succ, List.foldl_append, ← worstFault, hs.resid]
    simp only [List.foldl_cons, List.foldl_nil]
    omega
  · rw [hs.clamped, Bool.or_eq_left_iff_imp]
    intro hc
    rw [decide_eq_true_eq] at hc
    omega

/-! ## A calibration -/

/-- A pass nulls every ring of the bank. -/
theorem Trimmable.calPass_nulled (h : Trimmable cfg tile bank cal dev)
    (hok : calRefused cfg tile bank cal dev = false) {s : CalWalk} (hdev : s.dev = dev)
    (he : Errorless cfg s.e) :
    ∃ s₀, Nulled cfg tile bank dev (tile.rows * tile.cols) s₀ (calPass cfg tile bank cal s) ∧
      s₀.sats = s.sats ∧ s₀.clamped = s.clamped := by
  obtain ⟨hkept, hsum, hresid, hsats, hclamped⟩ := h.reps_reads hok
    (s := { s with sum := fun _ => 0, worst := 0, resid := 0 }) (hdev ▸ .refl _) he rfl (2 ^ cal.repsLog2.toNat)
  unfold calPass
  dsimp only
  generalize (calRep cfg tile bank cal)^[2 ^ cal.repsLog2.toNat] _ = s₀ at *
  refine ⟨s₀, ?_, hsats, hclamped⟩
  have hrun : ∀ k ≤ tile.rows * tile.cols,
      Nulled cfg tile bank dev k s₀ ((List.range k).foldl (estimate cfg bank cal) s₀) := by
    intro k
    induction k with
    | zero =>
      intro _
      refine ⟨hkept.rows, hkept.cols, hkept.drift, hkept.gain, hkept.offs, fun i => ?_, rfl, hresid, rfl, rfl⟩
      rw [if_neg (Nat.not_lt_zero i)]
      exact congrFun (congrFun hkept.trim bank) i
    | succ k ih =>
      intro hk
      rw [List.range_succ, List.foldl_append]
      exact (ih (by omega)).estimate h (by omega) (hsum k (by omega))
  exact hrun _ le_rfl

/-- A calibration finds the largest error of a bank and nulls it everywhere, without clamping a trim or
saturating a probe. -/
theorem calBank_nulls (h : Trimmable cfg tile bank cal dev)
    (hok : calRefused cfg tile bank cal dev = false) (st : Streams) :
    ∃ dev', calBank cfg tile bank cal st dev = (dev', some
        { left := errMax (worstFault cfg dev bank (tile.rows * tile.cols)), sats := 0, clamped := false,
          found := errMax (worstFault cfg dev bank (tile.rows * tile.cols)) }) ∧
      dev'.rows = dev.rows ∧ dev'.cols = dev.cols ∧ Clean cfg tile bank dev' := by
  unfold calBank
  rw [hok, if_neg Bool.false_ne_true]
  dsimp only
  rw [if_neg (by rw [h.quiet.adc]; exact Bool.false_ne_true)]
  obtain ⟨s₀, hs, hsats, hclamped⟩ := h.calPass_nulled hok
    (s := { st, dev, range := cfg.trimMax.toNat * 2 ^ cal.ampLog2.toNat / 2 ^ 8 }) rfl
    (.inr fun _ => rfl)
  refine ⟨_, by rw [hs.resid, hs.sats, hs.clamped, hsats, hclamped], hs.rows, hs.cols, h.quiet, ?_, ?_, ?_⟩
  · intro n hn
    rw [hs.gain, hs.offs]
    exact h.unity n hn
  · intro hd
    rw [hs.drift]
    exact h.still hd
  · intro i hi
    rw [fault, hs.drift, hs.trim, if_pos hi, shifted]
    exact add_neg_cancel _

end Grxcp.PtaTile
