import Mathlib.Tactic

/-!
# Machine words in range

A 32-bit operation whose result is in range is the operation on numbers, and so is a cast.
-/

namespace Grxcp.Words

theorem int32_add_of_range {a b : Int32} (hlow : -2 ^ 31 ≤ a.toInt + b.toInt)
    (hhigh : a.toInt + b.toInt < 2 ^ 31) : (a + b).toInt = a.toInt + b.toInt := by
  rw [Int32.toInt_add]
  exact Int.bmod_eq_of_le (by omega) (by omega)

theorem int32_sub_of_range {a b : Int32} (hlow : -2 ^ 31 ≤ a.toInt - b.toInt)
    (hhigh : a.toInt - b.toInt < 2 ^ 31) : (a - b).toInt = a.toInt - b.toInt := by
  rw [Int32.toInt_sub]
  exact Int.bmod_eq_of_le (by omega) (by omega)

theorem int32_mul_of_range {a b : Int32} (hlow : -2 ^ 31 ≤ a.toInt * b.toInt)
    (hhigh : a.toInt * b.toInt < 2 ^ 31) : (a * b).toInt = a.toInt * b.toInt := by
  rw [Int32.toInt_mul]
  exact Int.bmod_eq_of_le (by omega) (by omega)

/-- A division of nonnegative numbers does not overflow. -/
theorem int32_div_of_nonneg {a b : Int32} (ha : 0 ≤ a.toInt) (hb : 0 ≤ b.toInt) :
    (a / b).toInt = a.toInt / b.toInt := by
  rw [Int32.toInt_div, Int.tdiv_eq_ediv_of_nonneg ha]
  have hlt := a.toInt_lt
  have hge := Int.ediv_nonneg ha hb
  have hle := Int.ediv_le_self b.toInt ha
  exact Int.bmod_eq_of_le (by omega) (by omega)

theorem toUInt32_toNat {x : Int32} (hx : 0 ≤ x.toInt) : x.toUInt32.toNat = x.toInt.toNat :=
  Int32.toNat_toUInt32_of_le (Int32.le_iff_toInt_le.mpr hx)

theorem toInt32_toInt {x : UInt32} (hx : x.toNat < 2 ^ 31) : x.toInt32.toInt = x.toNat :=
  BitVec.toInt_eq_toNat_of_lt (x := x.toBitVec) (by simpa using (by omega : 2 * x.toNat < 2 ^ 32))

/-- A nonnegative `int`, as a `size_t`. -/
theorem toUInt64_toNat {x : Int32} (hx : 0 ≤ x.toInt) : x.toInt64.toUInt64.toNat = x.toInt.toNat := by
  have hle : (0 : Int64) ≤ x.toInt64 := by
    rw [Int64.le_iff_toInt_le, Int32.toInt_toInt64]
    exact hx
  rw [Int64.toNat_toUInt64_of_le hle, ← Int64.toNat_toInt, Int32.toInt_toInt64]

end Grxcp.Words
