import Grxcp.Pta.TileModel

/-!
# The arithmetic of an element

The shifts, sign extensions and quantisers of the tile model, as arithmetic on integers. The ADC of the
source splits a division in two so as not to leave 64 bits, and where the ADC is off it lets the words
wrap: in every configuration the element is the one rounded quotient of the sum of its rows and its
noise, clamped to the codes of an ADC that is on, as far as the accumulator holds it (`element_value`).
-/

namespace Grxcp.PtaTile

open PtaTwin (Cfg Tile)

/-! ## Words -/

theorem asr64_eq (x : ℤ) (s : ℕ) : asr64 x s = x / 2 ^ s := by
  unfold asr64
  split
  · rfl
  · have hpos : (0 : ℤ) < 2 ^ s := by positivity
    have hdiv := Int.mul_ediv_add_emod x (2 ^ s)
    have hlo := Int.emod_nonneg x hpos.ne'
    have hhi := Int.emod_lt_of_pos x hpos
    -- the complement has the complementary digits
    have hq := ((Int.ediv_emod_unique (a := -1 - x) (q := -1 - x / 2 ^ s) (r := 2 ^ s - 1 - x % 2 ^ s)
      hpos).mpr ⟨by linarith, by omega, by omega⟩).1
    rw [hq]
    ring

theorem mask_bit {w i : ℕ} (hw : w < 64) :
    (((1 : U64) <<< w) - 1).getLsbD i = decide (i < w) := by
  have hlt : 2 ^ w < 2 ^ 64 := Nat.pow_lt_pow_right (by omega) hw
  have hpos : 0 < 2 ^ w := Nat.two_pow_pos w
  have hnat : (((1 : U64) <<< w) - 1).toNat = 2 ^ w - 1 := by
    rw [BitVec.toNat_sub, BitVec.toNat_shiftLeft]
    simp only [BitVec.ofNat_eq_ofNat, BitVec.toNat_ofNat, Nat.one_mod, Nat.shiftLeft_eq, one_mul]
    omega
  rw [BitVec.getLsbD, hnat, Nat.testBit_two_pow_sub_one]

theorem top_bit (x : U64) (i : ℕ) : (x >>> i) &&& 1 ≠ 0 ↔ x.getLsbD i = true := by
  have h : (x >>> i) &&& 1 = (BitVec.ofBool (x.getLsbD i)).setWidth 64 := by
    have h1 := BitVec.and_one_eq_setWidth_ofBool_getLsbD (x := x >>> i)
    rw [BitVec.getLsbD_ushiftRight, Nat.add_zero] at h1
    exact h1
  rw [h]
  cases x.getLsbD i <;> decide

/-- The sign extension of the source is that of the low bits. -/
theorem sext_eq {u : U64} {w : ℕ} (h : 1 ≤ w) (hw : w ≤ 64) : sext u w = (u.setWidth w).toInt := by
  unfold sext
  dsimp only
  rcases hw.eq_or_lt with rfl | hw
  · rw [if_pos le_rfl, if_neg fun hc => lt_irrefl _ hc.1, BitVec.and_allOnes, BitVec.setWidth_eq]
  · have hmsb : (u.setWidth w).msb = u.getLsbD (w - 1) := by
      rw [BitVec.msb_eq_getLsbD_last, BitVec.getLsbD_setWidth]
      simp only [show w - 1 < w by omega, decide_true, Bool.true_and]
    have htop : ((u &&& (((1 : U64) <<< w) - 1)) >>> (w - 1)) &&& 1 ≠ 0 ↔ u.getLsbD (w - 1) = true := by
      rw [top_bit, BitVec.getLsbD_and, mask_bit hw]
      simp only [show w - 1 < w by omega, decide_true, Bool.and_true]
    simp only [if_neg (not_le.mpr hw)]
    rw [← BitVec.toInt_signExtend_of_le (v := 64) (x := u.setWidth w) hw.le]
    congr 1
    by_cases hu : u.getLsbD (w - 1) = true
    · rw [if_pos ⟨hw, htop.mpr hu⟩]
      refine BitVec.eq_of_getLsbD_eq fun i hi => ?_
      rw [BitVec.getLsbD_signExtend, hmsb, hu, BitVec.getLsbD_or, BitVec.getLsbD_and, BitVec.getLsbD_not,
        mask_bit hw, BitVec.getLsbD_setWidth]
      by_cases hiw : i < w <;> simp [hi, hiw]
    · rw [if_neg fun hc => hu (htop.mp hc.2)]
      refine BitVec.eq_of_getLsbD_eq fun i hi => ?_
      rw [BitVec.getLsbD_signExtend, hmsb, Bool.eq_false_iff.mpr hu, BitVec.getLsbD_and, mask_bit hw,
        BitVec.getLsbD_setWidth]
      by_cases hiw : i < w <;> simp [hi, hiw]

/-- The low bits of a number, sign-extended, are its balanced residue. -/
theorem sext_ofInt (x : ℤ) {w : ℕ} (h : 1 ≤ w) (hw : w ≤ 64) :
    sext (BitVec.ofInt 64 x) w = x.bmod (2 ^ w) := by
  have hdvd : ((2 ^ w : ℕ) : ℤ) ∣ ((2 ^ 64 : ℕ) : ℤ) := Int.natCast_dvd_natCast.mpr (pow_dvd_pow 2 hw)
  rw [sext_eq h hw, BitVec.toInt_setWidth, BitVec.toNat_ofInt, Int.toNat_of_nonneg (Int.emod_nonneg _ (by positivity))]
  unfold Int.bmod
  rw [Int.emod_emod_of_dvd _ hdvd]


/-- Bits that are shifted out of 64 do not reach the bits that are kept. -/
theorem sext_shift (x n : ℤ) (k : ℕ) {w : ℕ} (h : 1 ≤ w) (hw : w ≤ 64) :
    sext (BitVec.ofInt 64 (BitVec.ofInt 64 x + BitVec.ofInt 64 n <<< k).toInt) w =
      (x + n * 2 ^ k).bmod (2 ^ w) := by
  have htwo : BitVec.twoPow 64 k = BitVec.ofInt 64 (2 ^ k) := by
    apply BitVec.eq_of_toNat_eq
    rw [BitVec.toNat_twoPow, BitVec.toNat_ofInt]
    exact_mod_cast rfl
  rw [BitVec.ofInt_toInt, BitVec.shiftLeft_eq_mul_twoPow, htwo, ← BitVec.ofInt_mul, ← BitVec.ofInt_add,
    sext_ofInt _ h hw]

theorem clamp_eq (lo hi x : ℤ) (h : lo ≤ hi) : clamp lo hi x = max lo (min hi x) := by
  unfold clamp
  dsimp only
  split <;> split <;> omega

/-! ## The quantiser -/

/-- The quantiser of a width rounds: there are fewer bits than the operand's, and these fit a word. -/
structure Rounds (bits : U32) (dinW : ℕ) : Prop where
  pos : bits ≠ 0
  lt : bits.toNat < dinW
  word : dinW ≤ 32

variable {bits : U32} {dinW : ℕ}

/-- The quantiser's step. -/
def step (bits : U32) (dinW : ℕ) : ℤ :=
  2 ^ (dinW - bits.toNat)

theorem Rounds.bits_pos (h : Rounds bits dinW) : 0 < bits.toNat := by
  have := h.pos
  rw [Ne, ← BitVec.toNat_inj] at this
  exact Nat.pos_of_ne_zero this

/-- The nearest multiple of the step, ties up, and then the codes' bounds. -/
theorem Rounds.quant_eq (h : Rounds bits dinW) (x : ℤ) :
    quant x bits dinW = clamp (-2 ^ (bits.toNat - 1)) (2 ^ (bits.toNat - 1) - 1)
      ((x + 2 ^ (dinW - bits.toNat - 1)) / step bits dinW) * step bits dinW := by
  have hpos := h.bits_pos
  have hlt := h.lt
  have hlim : (0 : ℤ) < 2 ^ (bits.toNat - 1) := by positivity
  have hstep : (0 : ℤ) < step bits dinW := by
    unfold step
    positivity
  have htop : (2 : ℤ) ^ (bits.toNat - 1) * step bits dinW ≤ 2 ^ 31 := by
    rw [step, ← pow_add]
    exact pow_le_pow_right₀ (by norm_num) (by have := h.word; omega)
  unfold quant
  rw [if_neg (not_or.mpr ⟨h.pos, by omega⟩)]
  dsimp only
  rw [asr64_eq]
  change toInt32 (clamp _ _ ((x + 2 ^ (dinW - bits.toNat - 1)) / step bits dinW) * step bits dinW) = _
  rw [clamp_eq _ _ _ (by omega)]
  generalize (x + 2 ^ (dinW - bits.toNat - 1)) / step bits dinW = v
  unfold toInt32
  have hlo : -2 ^ 31 ≤ max (-2 ^ (bits.toNat - 1)) (min (2 ^ (bits.toNat - 1) - 1) v) * step bits dinW := by
    nlinarith [le_max_left (-2 ^ (bits.toNat - 1) : ℤ) (min (2 ^ (bits.toNat - 1) - 1) v)]
  have hhi : max (-2 ^ (bits.toNat - 1)) (min (2 ^ (bits.toNat - 1) - 1) v) * step bits dinW < 2 ^ 31 := by
    have hle : max (-2 ^ (bits.toNat - 1)) (min (2 ^ (bits.toNat - 1) - 1) v) ≤
        (2 : ℤ) ^ (bits.toNat - 1) - 1 := by omega
    nlinarith
  exact Int.bmod_eq_of_le (by simpa using hlo) (by simpa using hhi)

/-- A value of the quantiser is a code times the step. -/
theorem Rounds.quant_mem (h : Rounds bits dinW) (x : ℤ) :
    ∃ q, -2 ^ (bits.toNat - 1) ≤ q ∧ q < 2 ^ (bits.toNat - 1) ∧ quant x bits dinW = q * step bits dinW := by
  have hlim : (0 : ℤ) < 2 ^ (bits.toNat - 1) := by positivity
  refine ⟨_, ?_, ?_, h.quant_eq x⟩ <;> rw [clamp_eq _ _ _ (by omega)] <;> omega

/-- The quantiser takes a value to the nearest there is among its own. -/
theorem Rounds.quant_nearest (h : Rounds bits dinW) (x q : ℤ) (hlo : -2 ^ (bits.toNat - 1) ≤ q)
    (hhi : q < 2 ^ (bits.toNat - 1)) : |quant x bits dinW - x| ≤ |q * step bits dinW - x| := by
  have hlim : (0 : ℤ) < 2 ^ (bits.toNat - 1) := by positivity
  have hhalf : (0 : ℤ) < 2 ^ (dinW - bits.toNat - 1) := by positivity
  have hstep : step bits dinW = 2 * 2 ^ (dinW - bits.toNat - 1) := by
    have hlt := h.lt
    rw [step, ← pow_succ']
    congr 1
    omega
  rw [h.quant_eq, clamp_eq _ _ _ (by omega)]
  have hdiv := Int.mul_ediv_add_emod (x + 2 ^ (dinW - bits.toNat - 1)) (step bits dinW)
  have hr0 := Int.emod_nonneg (x + 2 ^ (dinW - bits.toNat - 1)) (by omega : step bits dinW ≠ 0)
  have hr1 := Int.emod_lt_of_pos (x + 2 ^ (dinW - bits.toNat - 1)) (by omega : 0 < step bits dinW)
  generalize (x + 2 ^ (dinW - bits.toNat - 1)) / step bits dinW = v at *
  generalize (x + 2 ^ (dinW - bits.toNat - 1)) % step bits dinW = r at *
  generalize (2 : ℤ) ^ (dinW - bits.toNat - 1) = half at *
  generalize (2 : ℤ) ^ (bits.toNat - 1) = lim at *
  generalize step bits dinW = st at *
  subst hstep
  rcases lt_or_ge (lim - 1) v with htop | htop
  · -- the value is above the codes
    have hc : max (-lim) (min (lim - 1) v) = lim - 1 := by omega
    have hqx : q * (2 * half) ≤ (lim - 1) * (2 * half) := by nlinarith
    have hcx : (lim - 1) * (2 * half) ≤ x := by nlinarith
    rw [hc, abs_of_nonpos (by linarith), abs_of_nonpos (by linarith)]
    linarith
  · rcases lt_or_ge v (-lim) with hbot | hbot
    · have hc : max (-lim) (min (lim - 1) v) = -lim := by omega
      have hqx : -lim * (2 * half) ≤ q * (2 * half) := by nlinarith
      have hcx : x ≤ -lim * (2 * half) := by nlinarith
      rw [hc, abs_of_nonneg (by linarith), abs_of_nonneg (by linarith)]
      linarith
    · have hc : max (-lim) (min (lim - 1) v) = v := by omega
      rw [hc]
      have hnear : |v * (2 * half) - x| ≤ half := by
        rw [abs_le]
        constructor <;> linarith
      rcases lt_trichotomy q v with hq | rfl | hq
      · refine hnear.trans (le_abs.mpr (.inr ?_))
        nlinarith
      · exact le_rfl
      · refine hnear.trans (le_abs.mpr (.inl ?_))
        nlinarith

/-- What the quantiser has given, it leaves alone. -/
theorem Rounds.quant_quant (h : Rounds bits dinW) (x : ℤ) :
    quant (quant x bits dinW) bits dinW = quant x bits dinW := by
  obtain ⟨q, hlo, hhi, heq⟩ := h.quant_mem x
  have hnear := h.quant_nearest (quant x bits dinW) q hlo hhi
  rw [heq, sub_self, abs_zero] at hnear
  rw [heq]
  exact sub_eq_zero.mp (abs_eq_zero.mp (le_antisymm hnear (abs_nonneg _)))

/-- The quantiser is the projection on its values: it takes a number to the nearest of them, and leaves
what is one alone. -/
theorem quant_projects (h : Rounds bits dinW) (x : ℤ) :
    (∃ q, -2 ^ (bits.toNat - 1) ≤ q ∧ q < 2 ^ (bits.toNat - 1) ∧ quant x bits dinW = q * step bits dinW) ∧
      (∀ q, -2 ^ (bits.toNat - 1) ≤ q → q < 2 ^ (bits.toNat - 1) →
        |quant x bits dinW - x| ≤ |q * step bits dinW - x|) ∧
      quant (quant x bits dinW) bits dinW = quant x bits dinW :=
  ⟨h.quant_mem x, h.quant_nearest x, h.quant_quant x⟩

/-- Four bits of an eight-bit operand. -/
theorem quant_projects_four :
    (∃ q, -2 ^ 3 ≤ q ∧ q < 2 ^ 3 ∧ quant 100 4 8 = q * step 4 8) ∧
      (∀ q, -2 ^ 3 ≤ q → q < 2 ^ 3 → |quant 100 4 8 - 100| ≤ |q * step 4 8 - 100|) ∧
      quant (quant 100 4 8) 4 8 = quant 100 4 8 :=
  have hround : Rounds 4 8 := ⟨by decide, by decide, by decide⟩
  quant_projects hround 100

/-! ## The ADC -/

/-- The value of an element whose rows sum to `y`, with the noise `n` of the ADC: the quotient rounded to
the nearest, ties up, and clamped to the codes if the ADC is on. -/
def converted (cfg : Cfg) (y n : ℤ) : ℤ :=
  let s := cfg.adcShift.toNat
  if quantised cfg then
    let lim : ℤ := 2 ^ (cfg.adcBits.toNat - 1)
    clamp (-lim) (lim - 1) ((y + n * 2 ^ s + 2 ^ (7 + s)) / 2 ^ (8 + s)) * 2 ^ s
  else (y + n * 2 ^ s + 2 ^ 7) / 2 ^ 8

/-- The code of an element before it is clamped. -/
def code (cfg : Cfg) (y n : ℤ) : ℤ :=
  (y + n * 2 ^ cfg.adcShift.toNat + 2 ^ (7 + cfg.adcShift.toNat)) / 2 ^ (8 + cfg.adcShift.toNat)

variable {cfg : Cfg} {tile : Tile}

theorem quantised_iff : quantised cfg = true ↔ cfg.impair &&& quantBit ≠ 0 ∧ cfg.adcBits ≠ 0 := by
  rw [quantised, decide_eq_true_eq]

/-- The remainder of the first division cannot carry past a multiple of the second's divisor. -/
theorem split_division (y n : ℤ) (s : ℕ) :
    asr64 (asr64 y s + n + 128) 8 = (y + n * 2 ^ s + 2 ^ (7 + s)) / 2 ^ (8 + s) := by
  have hpos : (0 : ℤ) < 2 ^ s := by positivity
  have hsum : y + n * 2 ^ s + 2 ^ (7 + s) = y + (n + 128) * 2 ^ s := by
    rw [pow_add]
    ring
  rw [asr64_eq, asr64_eq, hsum, add_comm 8 s, pow_add, ← Int.ediv_ediv_of_nonneg hpos.le,
    Int.add_mul_ediv_right _ _ hpos.ne', add_assoc]

theorem asr64_noise (y n : ℤ) {s : ℕ} (hs : 8 ≤ s) :
    asr64 (y + 128) 8 + n * 2 ^ (s - 8) = (y + n * 2 ^ s + 2 ^ 7) / 2 ^ 8 := by
  have hpow : (2 : ℤ) ^ s = 2 ^ (s - 8) * 2 ^ 8 := by
    rw [← pow_add, Nat.sub_add_cancel hs]
  have hsum : y + n * 2 ^ s + 2 ^ 7 = y + 128 + n * 2 ^ (s - 8) * 2 ^ 8 := by
    rw [hpow]
    ring
  rw [asr64_eq, hsum, Int.add_mul_ediv_right _ _ (by norm_num)]

theorem sext_adc (cfg : Cfg) (y n : ℤ) {w : ℕ} (h : 1 ≤ w) (hw : w ≤ 64) :
    sext (BitVec.ofInt 64 (adc cfg y n).1) w = (converted cfg y n).bmod (2 ^ w) := by
  unfold adc converted
  dsimp only
  by_cases hq : quantised cfg = true
  · rw [if_pos (quantised_iff.mp hq), if_pos hq, sext_ofInt _ h hw, split_division]
  · rw [if_neg fun hc => hq (quantised_iff.mpr hc), if_neg hq]
    by_cases hs : 8 ≤ cfg.adcShift.toNat
    · rw [if_pos hs, sext_shift _ _ _ h hw, asr64_noise y n hs]
    · rw [if_neg hs, sext_ofInt _ h hw, asr64_eq]
      norm_num

theorem adc_sat (cfg : Cfg) (y n : ℤ) :
    (adc cfg y n).2 = if quantised cfg ∧ (code cfg y n > 2 ^ (cfg.adcBits.toNat - 1) - 1 ∨
      code cfg y n < -2 ^ (cfg.adcBits.toNat - 1)) then 1 else 0 := by
  unfold adc code
  dsimp only
  by_cases hq : quantised cfg = true
  · rw [if_pos (quantised_iff.mp hq), split_division]
    simp only [hq, true_and]
  · have hoff : ¬(cfg.impair &&& quantBit ≠ 0 ∧ cfg.adcBits ≠ 0) := fun hc => hq (quantised_iff.mpr hc)
    simp only [if_neg hoff, hq, false_and, if_false, Bool.false_eq_true]
    split <;> rfl

/-- In every configuration an element is the rounded quotient, as far as the accumulator holds it, and it
saturates where its code is clamped. -/
theorem element_value (st : Streams) (cfg : Cfg) (tile : Tile) (a wa : ℕ → ℤ) (kr : ℕ) (h : 1 ≤ tile.accW)
    (hw : tile.accW ≤ 64) :
    let stepped : Streams := { st with thermal := xorshift32 st.thermal, shot := xorshift32 st.shot }
    let y := rowSum cfg tile a wa kr
    let n := noise stepped cfg y
    element st cfg tile a wa kr = (stepped, (converted cfg y n).bmod (2 ^ tile.accW),
      if quantised cfg ∧ (code cfg y n > 2 ^ (cfg.adcBits.toNat - 1) - 1 ∨
        code cfg y n < -2 ^ (cfg.adcBits.toNat - 1)) then 1 else 0) := by
  dsimp only
  unfold element
  dsimp only
  rw [sext_adc _ _ _ h hw, adc_sat]

/-- An ADC of four bits clamps what a row of 100 against 100 comes to. -/
theorem element_value_clamped :
    let stepped : Streams := ⟨xorshift32 1, xorshift32 2, 3⟩
    let cfg : Cfg := { impair := quantBit, adcBits := 4, adcShift := 3 }
    let tile : Tile := ⟨1, 1, 8, 32⟩
    let y := rowSum cfg tile (fun _ => 100) (fun _ => 100 * 256) 1
    let n := noise stepped cfg y
    element ⟨1, 2, 3⟩ cfg tile (fun _ => 100) (fun _ => 100 * 256) 1 =
      (stepped, (converted cfg y n).bmod (2 ^ 32),
        if quantised cfg ∧ (code cfg y n > 2 ^ (cfg.adcBits.toNat - 1) - 1 ∨
          code cfg y n < -2 ^ (cfg.adcBits.toNat - 1)) then 1 else 0) :=
  element_value ⟨1, 2, 3⟩ { impair := quantBit, adcBits := 4, adcShift := 3 } ⟨1, 1, 8, 32⟩
    (fun _ => 100) (fun _ => 100 * 256) 1 (by decide) (by decide)

end Grxcp.PtaTile
