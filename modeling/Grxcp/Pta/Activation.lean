import Mathlib.Algebra.Order.Round
import Mathlib.Data.Rat.Floor
import Grxcp.Pta.Twin

/-!
# The arithmetic of the activation stage

`pta_twin_activate` in 64 bits: a signed operation whose result does not fit is undefined, and there is none.
It computes what the map's section 8 says of the numbers themselves: the biased sum, saturated, is rectified,
rounded to a multiple of `2 ^ shift` with a half upwards, and clamped.
-/

namespace Grxcp.PtaTwin

/-! ## In the machine -/

/-- A result of `int64_t` arithmetic. -/
def int64 (v : ℤ) : Option ℤ :=
  if int64Min ≤ v ∧ v ≤ int64Max then some v else none

/-- `sum + bias`, which saturates. -/
def biased (sum bias : ℤ) : Option ℤ :=
  if 0 < bias then do
    let room ← int64 (int64Max - bias)
    if room < sum then some int64Max else int64 (sum + bias)
  else if bias < 0 then do
    let room ← int64 (int64Min - bias)
    if sum < room then some int64Min else int64 (sum + bias)
  else int64 (sum + bias)

/-- `(v >> shift) + ((v >> (shift - 1)) & 1)`. -/
def roundShift (v shift : ℤ) : Option ℤ :=
  if 0 < shift then int64 (v / 2 ^ shift.toNat + v / 2 ^ (shift - 1).toNat % 2) else some v

/-- `pta_twin_activate`, each of whose operations has to fit. -/
def activateInt64 (sum bias : Int64) (shift bits : Int32) : Option (ℤ × Bool) :=
  if shift.toInt < 0 ∨ 62 < shift.toInt ∨ bits.toInt < 2 ∨ 32 < bits.toInt then some (0, false)
  else do
    let top ← int64 (2 ^ (bits.toInt - 1).toNat)
    let amax ← int64 (top - 1)
    let v ← biased sum.toInt bias.toInt
    let v ← roundShift (if v < 0 then 0 else v) shift.toInt
    some (if amax < v then (amax, true) else (v, false))

/-! ## The map -/

/-- Saturation to 64 bits. -/
def saturate (v : ℤ) : ℤ :=
  max int64Min (min v int64Max)

/-- What the stage scales: the rectified sum, rounded. -/
def scaled (sum bias shift : ℤ) : ℤ :=
  round ((max (saturate (sum + bias)) 0 : ℤ) / 2 ^ shift.toNat : ℚ)

/-- The largest operand of `bits` bits. -/
def operandMax (bits : ℤ) : ℤ :=
  2 ^ (bits - 1).toNat - 1

/-- `min(round(max(sum + bias, 0) / 2^shift), 2^(bits-1) - 1)`. -/
def activation (sum bias shift bits : ℤ) : ℤ :=
  min (scaled sum bias shift) (operandMax bits)

section Arithmetic

variable {sum bias shift bits v w : ℤ}

theorem int64_of_range (hlow : int64Min ≤ v) (hhigh : v ≤ int64Max) : int64 v = some v :=
  if_pos ⟨hlow, hhigh⟩

theorem toInt_range (x : Int64) : int64Min ≤ x.toInt ∧ x.toInt ≤ int64Max := by
  have hlow := x.le_toInt
  have hhigh := x.toInt_lt
  unfold int64Min int64Max
  omega

/-- Rounding with a half upwards, over integers. -/
theorem round_div_two_pow (v : ℤ) (s : ℕ) : round ((v : ℚ) / 2 ^ (s + 1)) = (v + 2 ^ s) / 2 ^ (s + 1) := by
  have hhalf : (v : ℚ) / 2 ^ (s + 1) + 1 / 2 = ((v + 2 ^ s : ℤ) : ℚ) / ((2 ^ (s + 1) : ℕ) : ℚ) := by
    push_cast
    rw [pow_succ]
    field_simp
  rw [round_eq, hhalf, Rat.floor_intCast_div_natCast]
  push_cast
  rfl

/-- The rounding shift of the source, which does not add the half first. -/
theorem shift_eq_round (v : ℤ) (s : ℕ) :
    v / 2 ^ (s + 1) + v / 2 ^ s % 2 = round ((v : ℚ) / 2 ^ (s + 1)) := by
  have hpos : (0 : ℤ) < 2 ^ s := by positivity
  have htwice : (2 : ℤ) ^ (s + 1) = 2 ^ s * 2 := pow_succ ..
  have hadd : (v + 2 ^ s) / 2 ^ s = v / 2 ^ s + 1 := by
    rw [Int.add_ediv_of_dvd_right dvd_rfl, Int.ediv_self hpos.ne']
  rw [round_div_two_pow, htwice, ← Int.ediv_ediv_of_nonneg hpos.le, ← Int.ediv_ediv_of_nonneg hpos.le, hadd]
  omega

/-- What is scaled is no larger than what it is scaled from. -/
theorem shift_range (hv : 0 ≤ v) (s : ℕ) :
    0 ≤ v / 2 ^ (s + 1) + v / 2 ^ s % 2 ∧ v / 2 ^ (s + 1) + v / 2 ^ s % 2 ≤ v := by
  have hpos : (0 : ℤ) < 2 ^ s := by positivity
  have htwice : (2 : ℤ) ^ (s + 1) = 2 ^ s * 2 := pow_succ ..
  have hnonneg : 0 ≤ v / 2 ^ s := Int.ediv_nonneg hv hpos.le
  have hle : v / 2 ^ s ≤ v := Int.ediv_le_self _ hv
  rw [htwice, ← Int.ediv_ediv_of_nonneg hpos.le]
  omega

/-- The value that is rectified, as the source saturates it. -/
theorem saturate_eq (hsum : int64Min ≤ sum ∧ sum ≤ int64Max) (hbias : int64Min ≤ bias ∧ bias ≤ int64Max) :
    (if 0 < bias ∧ int64Max - bias < sum then int64Max
      else if bias < 0 ∧ sum < int64Min - bias then int64Min else sum + bias) = saturate (sum + bias) := by
  unfold saturate
  unfold int64Min int64Max at *
  split_ifs <;> omega

theorem rectify_eq (v : ℤ) : (if v < 0 then 0 else v) = max v 0 := by
  split_ifs with h
  · exact (max_eq_right h.le).symm
  · exact (max_eq_left (not_lt.mp h)).symm

/-- The stage of the twin is the formula, and its flag says that the clamp changed the value. -/
theorem activate_eq (hsum : int64Min ≤ sum ∧ sum ≤ int64Max) (hbias : int64Min ≤ bias ∧ bias ≤ int64Max)
    (hshift : 0 ≤ shift ∧ shift ≤ 62) (hbits : 2 ≤ bits ∧ bits ≤ 32) :
    activate sum bias shift bits =
      (activation sum bias shift bits, decide (operandMax bits < scaled sum bias shift)) := by
  have haccepted : ¬(shift < 0 ∨ 62 < shift ∨ bits < 2 ∨ 32 < bits) := by omega
  have hscaled : (if 0 < shift then max (saturate (sum + bias)) 0 / 2 ^ shift.toNat +
      max (saturate (sum + bias)) 0 / 2 ^ (shift - 1).toNat % 2 else max (saturate (sum + bias)) 0) =
        scaled sum bias shift := by
    unfold scaled
    by_cases hpos : 0 < shift
    · obtain ⟨s, rfl⟩ : ∃ s : ℕ, shift = s + 1 := ⟨(shift - 1).toNat, by omega⟩
      have hs : ((s : ℤ) + 1 - 1).toNat = s := by omega
      have hs' : ((s : ℤ) + 1).toNat = s + 1 := by omega
      rw [if_pos hpos, hs, hs']
      exact shift_eq_round _ s
    · have hzero : shift.toNat = 0 := by omega
      rw [if_neg hpos, hzero, pow_zero, div_one, round_intCast]
  unfold activate
  rw [if_neg haccepted]
  dsimp only
  rw [saturate_eq hsum hbias, rectify_eq, hscaled]
  unfold activation operandMax
  split_ifs with hclamp
  · rw [min_eq_right hclamp.le, decide_eq_true hclamp]
  · rw [min_eq_left (not_lt.mp hclamp), decide_eq_false hclamp]

theorem saturate_range (v : ℤ) : int64Min ≤ saturate v ∧ saturate v ≤ int64Max := by
  unfold saturate
  refine ⟨le_max_left .., ?_⟩
  apply max_le _ (min_le_right ..)
  unfold int64Min int64Max
  omega

theorem saturate_mono (h : v ≤ w) : saturate v ≤ saturate w :=
  max_le_max_left _ (min_le_min_right _ h)

theorem operandMax_range (hbits : 2 ≤ bits ∧ bits ≤ 32) : 1 ≤ operandMax bits ∧ operandMax bits < 2 ^ 31 := by
  have hlow : (2 : ℤ) ^ 1 ≤ 2 ^ (bits - 1).toNat := pow_le_pow_right₀ (by norm_num) (by omega)
  have hhigh : (2 : ℤ) ^ (bits - 1).toNat ≤ 2 ^ 31 := pow_le_pow_right₀ (by norm_num) (by omega)
  unfold operandMax
  omega

/-- A larger biased sum is scaled to no less. -/
theorem scaled_mono {sum' bias' : ℤ} (h : sum + bias ≤ sum' + bias') :
    scaled sum bias shift ≤ scaled sum' bias' shift := by
  have hrect : ((max (saturate (sum + bias)) 0 : ℤ) : ℚ) ≤ (max (saturate (sum' + bias')) 0 : ℤ) := by
    exact_mod_cast max_le_max_right 0 (saturate_mono h)
  unfold scaled
  rw [round_eq, round_eq]
  apply Int.floor_mono
  gcongr

theorem activation_mono {sum' bias' : ℤ} (h : sum + bias ≤ sum' + bias') :
    activation sum bias shift bits ≤ activation sum' bias' shift bits :=
  min_le_min_right _ (scaled_mono h)

theorem scaled_nonneg (sum bias shift : ℤ) : 0 ≤ scaled sum bias shift := by
  unfold scaled
  rw [round_eq, Int.floor_nonneg]
  have hnonneg : (0 : ℚ) ≤ (max (saturate (sum + bias)) 0 : ℤ) := by
    exact_mod_cast le_max_right ..
  positivity

/-- The two tests before the sum keep it in range. -/
theorem biased_eq (hsum : int64Min ≤ sum ∧ sum ≤ int64Max) (hbias : int64Min ≤ bias ∧ bias ≤ int64Max) :
    biased sum bias = some (saturate (sum + bias)) := by
  rw [← saturate_eq hsum hbias]
  unfold biased
  rcases lt_trichotomy bias 0 with hneg | rfl | hpos
  · have hroom : int64 (int64Min - bias) = some (int64Min - bias) := by
      apply int64_of_range
      · omega
      · unfold int64Min int64Max at *
        omega
    rw [if_neg hneg.not_gt, if_pos hneg, hroom, if_neg fun h => hneg.not_gt h.1]
    show (if sum < int64Min - bias then some int64Min else int64 (sum + bias)) = _
    by_cases hlow : sum < int64Min - bias
    · rw [if_pos hlow, if_pos ⟨hneg, hlow⟩]
    · rw [if_neg hlow, if_neg fun h => hlow h.2, int64_of_range (by omega) (by omega)]
  · rw [if_neg (lt_irrefl 0), if_neg (lt_irrefl 0), if_neg fun h => lt_irrefl 0 h.1,
      if_neg fun h => lt_irrefl 0 h.1, add_zero, int64_of_range hsum.1 hsum.2]
  · have hroom : int64 (int64Max - bias) = some (int64Max - bias) := by
      apply int64_of_range
      · unfold int64Min int64Max at *
        omega
      · omega
    rw [if_pos hpos, hroom]
    show (if int64Max - bias < sum then some int64Max else int64 (sum + bias)) = _
    by_cases hhigh : int64Max - bias < sum
    · rw [if_pos hhigh, if_pos ⟨hpos, hhigh⟩]
    · rw [if_neg hhigh, if_neg fun h => hhigh h.2, if_neg fun h => hpos.not_gt h.1,
        int64_of_range (by omega) (by omega)]

/-- The rounding shift of a value that is not negative stays below it. -/
theorem roundShift_eq (hv : 0 ≤ v) (hmax : v ≤ int64Max) :
    roundShift v shift =
      some (if 0 < shift then v / 2 ^ shift.toNat + v / 2 ^ (shift - 1).toNat % 2 else v) := by
  unfold roundShift
  by_cases hpos : 0 < shift
  · obtain ⟨s, rfl⟩ : ∃ s : ℕ, shift = s + 1 := ⟨(shift - 1).toNat, by omega⟩
    have hs : ((s : ℤ) + 1 - 1).toNat = s := by omega
    have hs' : ((s : ℤ) + 1).toNat = s + 1 := by omega
    obtain ⟨hlow, hhigh⟩ := shift_range hv s
    rw [if_pos hpos, if_pos hpos, hs, hs']
    apply int64_of_range
    · unfold int64Min
      omega
    · exact hhigh.trans hmax
  · rw [if_neg hpos, if_neg hpos]

/-- No operation of the source overflows. -/
theorem activateInt64_eq (sum bias : Int64) (shift bits : Int32) :
    activateInt64 sum bias shift bits =
      some (activate sum.toInt bias.toInt shift.toInt bits.toInt) := by
  have hsum := toInt_range sum
  have hbias := toInt_range bias
  unfold activateInt64 activate
  by_cases hrefused : shift.toInt < 0 ∨ 62 < shift.toInt ∨ bits.toInt < 2 ∨ 32 < bits.toInt
  · rw [if_pos hrefused, if_pos hrefused]
  rw [if_neg hrefused, if_neg hrefused]
  push Not at hrefused
  have hwidth : 2 ≤ bits.toInt ∧ bits.toInt ≤ 32 := ⟨hrefused.2.2.1, hrefused.2.2.2⟩
  have hmax := operandMax_range hwidth
  unfold operandMax at hmax
  have htop : int64 (2 ^ (bits.toInt - 1).toNat) = some (2 ^ (bits.toInt - 1).toNat) := by
    apply int64_of_range
    · unfold int64Min
      omega
    · unfold int64Max
      omega
  have hamax : int64 (2 ^ (bits.toInt - 1).toNat - 1) = some (2 ^ (bits.toInt - 1).toNat - 1) := by
    apply int64_of_range
    · unfold int64Min
      omega
    · unfold int64Max
      omega
  have hrange := saturate_range (sum.toInt + bias.toInt)
  have hrect : max (saturate (sum.toInt + bias.toInt)) 0 ≤ int64Max := by
    apply max_le hrange.2
    unfold int64Max
    omega
  dsimp only [Option.bind_eq_bind]
  rw [htop, Option.bind_some, hamax, Option.bind_some, biased_eq hsum hbias, Option.bind_some,
    saturate_eq hsum hbias, rectify_eq, roundShift_eq (le_max_right ..) hrect, Option.bind_some]

/-- For a shift and a width that the stage takes, `pta_twin_activate` overflows nowhere and is the formula. Its
flag says that the clamp changed the value, more of a sum or of a bias gives no less, and what it gives is an
operand of that width. -/
theorem activate_law (sum bias : Int64) (shift bits : Int32) (hshift : 0 ≤ shift.toInt ∧ shift.toInt ≤ 62)
    (hbits : 2 ≤ bits.toInt ∧ bits.toInt ≤ 32) :
    activateInt64 sum bias shift bits =
        some (activation sum.toInt bias.toInt shift.toInt bits.toInt,
          decide (operandMax bits.toInt < scaled sum.toInt bias.toInt shift.toInt)) ∧
      activateInt64 sum bias shift bits = some (activate sum.toInt bias.toInt shift.toInt bits.toInt) ∧
      (∀ sum' : Int64, sum.toInt ≤ sum'.toInt → activation sum.toInt bias.toInt shift.toInt bits.toInt ≤
        activation sum'.toInt bias.toInt shift.toInt bits.toInt) ∧
      (∀ bias' : Int64, bias.toInt ≤ bias'.toInt → activation sum.toInt bias.toInt shift.toInt bits.toInt ≤
        activation sum.toInt bias'.toInt shift.toInt bits.toInt) ∧
      0 ≤ activation sum.toInt bias.toInt shift.toInt bits.toInt ∧
      activation sum.toInt bias.toInt shift.toInt bits.toInt ≤ operandMax bits.toInt := by
  have heq := activateInt64_eq sum bias shift bits
  refine ⟨?_, heq, fun sum' h => activation_mono (by omega), fun bias' h => activation_mono (by omega), ?_,
    min_le_right ..⟩
  · rw [heq, activate_eq (toInt_range sum) (toInt_range bias) hshift hbits]
  · apply le_min (scaled_nonneg ..)
    have hmax := operandMax_range hbits
    omega

end Arithmetic

/-- The largest sum with a bias, which saturates, is rounded up to `2 ^ 31` and clamped to seven bits. -/
theorem activate_law_saturated :
    activateInt64 Int64.maxValue 1 32 8 =
        some (activation Int64.maxValue.toInt (1 : Int64).toInt (32 : Int32).toInt (8 : Int32).toInt,
          decide (operandMax (8 : Int32).toInt <
            scaled Int64.maxValue.toInt (1 : Int64).toInt (32 : Int32).toInt)) ∧
      activateInt64 Int64.maxValue 1 32 8 =
        some (activate Int64.maxValue.toInt (1 : Int64).toInt (32 : Int32).toInt (8 : Int32).toInt) ∧
      (∀ sum' : Int64, Int64.maxValue.toInt ≤ sum'.toInt →
        activation Int64.maxValue.toInt (1 : Int64).toInt (32 : Int32).toInt (8 : Int32).toInt ≤
          activation sum'.toInt (1 : Int64).toInt (32 : Int32).toInt (8 : Int32).toInt) ∧
      (∀ bias' : Int64, (1 : Int64).toInt ≤ bias'.toInt →
        activation Int64.maxValue.toInt (1 : Int64).toInt (32 : Int32).toInt (8 : Int32).toInt ≤
          activation Int64.maxValue.toInt bias'.toInt (32 : Int32).toInt (8 : Int32).toInt) ∧
      0 ≤ activation Int64.maxValue.toInt (1 : Int64).toInt (32 : Int32).toInt (8 : Int32).toInt ∧
      activation Int64.maxValue.toInt (1 : Int64).toInt (32 : Int32).toInt (8 : Int32).toInt ≤
        operandMax (8 : Int32).toInt :=
  activate_law Int64.maxValue 1 32 8 (by decide) (by decide)

end Grxcp.PtaTwin
