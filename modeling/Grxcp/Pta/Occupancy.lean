import Mathlib.Algebra.Order.Floor.Div
import Grxcp.Pta.TwinClock

/-!
# The cycles of a command

The map gives a GEMM its programmings at `PTA_TW` each and its shots at `PTA_TS` each. The twin counts both
exactly, for every command that it accepts, and forms the sum of the products in 64 bits. A tile of one
element takes up to `2 ^ 42` shots, and a time has 32 bits, so the sum wraps.
-/

namespace Grxcp.PtaTwin

variable {Dev P : Type} {k : TileKernel Dev} {t : Twin Dev P} {c : Cmd P} {b : Build}

/-- What `pta_twin_new` builds. -/
def buildable (b : Build) : Bool :=
  (1 ≤ b.rows && b.rows ≤ 1023) && (1 ≤ b.cols && b.cols ≤ 1023) && (2 ≤ b.dinW && b.dinW ≤ 32) &&
    (2 ≤ b.accW && b.accW ≤ 63) && (1 ≤ b.queueDepth && b.queueDepth ≤ 64) &&
    (b.actHold ≤ elemMax && b.actHold &&& (b.actHold - 1) = 0)

/-- The (N tile, K tile) pairs of a command. -/
def tileCount (b : Build) (c : Cmd P) : ℕ :=
  (c.N.toNat ⌈/⌉ b.cols) * (c.K.toNat ⌈/⌉ b.rows)

/-- The shots, one for each row of the output and pair. -/
def shotCount (b : Build) (c : Cmd P) : ℕ :=
  tileCount b c * c.M.toNat

/-- The cycles that the map gives a command, before there is at least one. -/
def mapCycles (b : Build) (r : Regs) (c : Cmd P) : ℕ :=
  tileCount b c * r.tw.toNat + shotCount b c * r.ts.toNat

/-- The dimensions of a command that is accepted. -/
theorem dims_of_submittable (hc : submittable c = true) :
    c.M.toNat ≤ 65536 ∧ c.N.toNat ≤ 65536 ∧ c.K.toNat ≤ 65536 := by
  unfold submittable dimMax at hc
  simp only [Bool.and_eq_true, decide_eq_true_eq] at hc
  obtain ⟨⟨-, ⟨hM, hN⟩, hK⟩, -⟩ := hc
  omega

theorem pos_of_buildable (hb : buildable b = true) : 1 ≤ b.rows ∧ 1 ≤ b.cols := by
  unfold buildable at hb
  simp only [Bool.and_eq_true, decide_eq_true_eq] at hb
  obtain ⟨⟨⟨⟨⟨⟨hrows, -⟩, hcols, -⟩, -⟩, -⟩, -⟩, -⟩ := hb
  exact ⟨hrows, hcols⟩

theorem ceilDiv_le_self {n d : ℕ} (hd : 1 ≤ d) : n ⌈/⌉ d ≤ n := by
  rw [ceilDiv_le_iff_le_mul hd]
  exact Nat.le_mul_of_pos_left n hd

/-- The tiles are counted exactly. -/
theorem tilesOf_toNat (hb : buildable b = true) (hc : submittable c = true) :
    (tilesOf b c).toNat = tileCount b c ∧ tileCount b c ≤ 65536 * 65536 := by
  obtain ⟨hrows, hcols⟩ := pos_of_buildable hb
  obtain ⟨-, hN, hK⟩ := dims_of_submittable hc
  have hn := (ceilDiv_le_self (n := c.N.toNat) hcols).trans hN
  have hk := (ceilDiv_le_self (n := c.K.toNat) hrows).trans hK
  have hcount : tileCount b c ≤ 65536 * 65536 := Nat.mul_le_mul hn hk
  have hlt : tileCount b c < 2 ^ 64 := by omega
  refine ⟨?_, hcount⟩
  unfold tilesOf
  rw [← Nat.ceilDiv_eq_add_pred_div, ← Nat.ceilDiv_eq_add_pred_div, BitVec.toNat_mul, BitVec.toNat_ofNat,
    BitVec.toNat_ofNat, Nat.mod_eq_of_lt (a := c.N.toNat ⌈/⌉ b.cols) (by omega),
    Nat.mod_eq_of_lt (a := c.K.toNat ⌈/⌉ b.rows) (by omega)]
  exact Nat.mod_eq_of_lt hlt

/-- So are the shots. -/
theorem shotsOf_toNat (hb : buildable b = true) (hc : submittable c = true) :
    (shotsOf b c).toNat = shotCount b c := by
  obtain ⟨htiles, hcount⟩ := tilesOf_toNat hb hc
  obtain ⟨hM, -, -⟩ := dims_of_submittable hc
  have hshots : shotCount b c ≤ 65536 * 65536 * 65536 := Nat.mul_le_mul hcount hM
  unfold shotsOf
  rw [BitVec.toNat_mul, htiles, BitVec.toNat_ofNat, Nat.mod_eq_of_lt (a := c.M.toNat) (by omega)]
  exact Nat.mod_eq_of_lt (lt_of_le_of_lt hshots (by norm_num))

/-- What the twin computes is what the map says, modulo `2 ^ 64`, and then at least one. -/
theorem gemmCycles_toNat (hb : buildable b = true) (hc : submittable c = true) (r : Regs) :
    (gemmCycles b r c).toNat = max 1 (mapCycles b r c % 2 ^ 64) := by
  have hzext : ∀ v : U32, (v.zeroExtend 64).toNat = v.toNat := by
    intro v
    rw [BitVec.zeroExtend, BitVec.toNat_setWidth]
    exact Nat.mod_eq_of_lt (lt_trans v.isLt (by norm_num))
  have hsum : (tilesOf b c * r.tw.zeroExtend 64 + shotsOf b c * r.ts.zeroExtend 64).toNat =
      mapCycles b r c % 2 ^ 64 := by
    rw [BitVec.toNat_add, BitVec.toNat_mul, BitVec.toNat_mul, hzext, hzext, (tilesOf_toNat hb hc).1,
      shotsOf_toNat hb hc]
    exact (Nat.add_mod ..).symm
  unfold gemmCycles atLeastOne
  by_cases hzero : tilesOf b c * r.tw.zeroExtend 64 + shotsOf b c * r.ts.zeroExtend 64 = 0
  · rw [hzero] at hsum
    rw [if_pos hzero, ← hsum]
    rfl
  · have hpos : 0 < (tilesOf b c * r.tw.zeroExtend 64 + shotsOf b c * r.ts.zeroExtend 64).toNat := by
      apply Nat.pos_of_ne_zero
      exact fun h => hzero (BitVec.eq_of_toNat_eq h)
    rw [if_neg hzero, ← hsum, max_eq_right hpos]

/-- A start occupies the tile for them. -/
theorem left_started (hi : t.state = .idle) (hs : (gemmBegin k t (copyCmd c)).1.state = .gemm) :
    (gemmBegin k t (copyCmd c)).1.left = gemmCycles t.build t.regs c := by
  obtain ⟨-, -, sats, sums, dev, -, hstart⟩ := gemmBegin_started hs hi
  rw [hstart]
  rfl

/-- A command that is accepted and started occupies the tile for what the map says, and at least one cycle,
if the map's sum is below `2 ^ 64`, and only then. -/
theorem occupancy_iff (k : TileKernel Dev) (t : Twin Dev P) (c : Cmd P) (hb : buildable t.build = true)
    (hc : submittable c = true) (hi : t.state = .idle) (hs : (gemmBegin k t (copyCmd c)).1.state = .gemm) :
    ((gemmBegin k t (copyCmd c)).1.left.toNat = max 1 (mapCycles t.build t.regs c) ∧
        1 ≤ (gemmBegin k t (copyCmd c)).1.left.toNat) ↔
      mapCycles t.build t.regs c < 2 ^ 64 := by
  rw [left_started hi hs, gemmCycles_toNat hb hc]
  constructor
  · rintro ⟨hexact, -⟩
    have hmod := Nat.mod_lt (mapCycles t.build t.regs c) (y := 2 ^ 64) (by norm_num)
    omega
  · intro hlt
    rw [Nat.mod_eq_of_lt hlt]
    exact ⟨rfl, le_max_left ..⟩

/-- A tile of one element, and a twin of it with these times. -/
def unitTwin (tw ts : U32) : Twin Unit ℕ where
  build := { rows := 1, cols := 1, dinW := 8, accW := 20, queueDepth := 2, actHold := 0 }
  dev := ()
  regs := { tw, ts }

/-- A cube of ones. -/
def cube (n : ℕ) : Cmd ℕ where
  M := n
  N := n
  K := n
  A := some (List.replicate (n * n) 1)
  B := some (List.replicate (n * n) 1)
  C := some 0

/-- `3 ^ 3` at a tile of one element, with times of 5 and 2. -/
theorem occupancy_iff_cube : ((gemmBegin exactKernel (unitTwin 5 2) (copyCmd (cube 3))).1.left.toNat =
      max 1 (mapCycles (unitTwin 5 2).build (unitTwin 5 2).regs (cube 3)) ∧
        1 ≤ (gemmBegin exactKernel (unitTwin 5 2) (copyCmd (cube 3))).1.left.toNat) ↔
      mapCycles (unitTwin 5 2).build (unitTwin 5 2).regs (cube 3) < 2 ^ 64 :=
  occupancy_iff exactKernel (unitTwin 5 2) (cube 3) (by decide) (by decide) rfl rfl

/-- `16384 ^ 3` takes `2 ^ 42` shots. At `2 ^ 22` cycles a shot that is `2 ^ 64` cycles, and the twin takes
one. -/
theorem occupancy_not : buildable (unitTwin 0 0x400000).build = true ∧ submittable (cube 16384) = true ∧
    (gemmBegin exactKernel (unitTwin 0 0x400000) (copyCmd (cube 16384))).1.state = .gemm ∧
    mapCycles (unitTwin 0 0x400000).build (unitTwin 0 0x400000).regs (cube 16384) = 2 ^ 64 ∧
    (gemmBegin exactKernel (unitTwin 0 0x400000) (copyCmd (cube 16384))).1.left = 1 ∧
    ¬(gemmBegin exactKernel (unitTwin 0 0x400000) (copyCmd (cube 16384))).1.left.toNat =
      max 1 (mapCycles (unitTwin 0 0x400000).build (unitTwin 0 0x400000).regs (cube 16384)) := by
  have hb : buildable (unitTwin 0 0x400000).build = true := by decide
  have hc : submittable (cube 16384) = true := by decide
  have hs : (gemmBegin exactKernel (unitTwin 0 0x400000) (copyCmd (cube 16384))).1.state = .gemm := rfl
  have hmap : mapCycles (unitTwin 0 0x400000).build (unitTwin 0 0x400000).regs (cube 16384) = 2 ^ 64 := by
    have hone : (16384 : ℕ) ⌈/⌉ 1 = 16384 := by decide
    unfold mapCycles shotCount tileCount
    show 16384 ⌈/⌉ 1 * (16384 ⌈/⌉ 1) * 0 + 16384 ⌈/⌉ 1 * (16384 ⌈/⌉ 1) * 16384 * 4194304 = _
    rw [hone]
    norm_num
  have hleft : (gemmBegin exactKernel (unitTwin 0 0x400000) (copyCmd (cube 16384))).1.left = 1 := by
    apply BitVec.eq_of_toNat_eq
    rw [left_started rfl hs, gemmCycles_toNat hb hc, hmap, Nat.mod_self]
    rfl
  refine ⟨hb, hc, hs, hmap, hleft, ?_⟩
  rw [hleft, hmap]
  decide

end Grxcp.PtaTwin
