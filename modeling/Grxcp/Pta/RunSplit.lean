import Grxcp.Pta.TwinClock

/-!
# A run in two parts

A turn of the loop of `pta_twin_run` spends cycles, and ends what holds the tile if that has none left. A
split of the cycles falls into a turn, or between two: the part of a turn before it moves the clock and
nothing else, and the rest of the turn is a turn of its own.
-/

namespace Grxcp.PtaTwin

variable {Dev P : Type} {k : TileKernel Dev} {t : Twin Dev P}

/-- A turn of the loop, on a tile that something holds. The third component is the cycles that are left. -/
def turn (k : TileKernel Dev) (t : Twin Dev P) (cycles : U64) : Twin Dev P × List (Ending P) × U64 :=
  let step := if t.left < cycles then t.left else cycles
  let u := { t with now := t.now + step, left := t.left - step }
  if u.left = 0 then
    let ended := if u.state = .gemm then gemmEnd u else (calEnd u, [])
    let next := startNext k ended.1
    (next.1, ended.2 ++ next.2, cycles - step)
  else (u, [], cycles - step)

/-- The loop, a turn at a time. -/
theorem runLoop_turn (fuel : ℕ) (hb : t.state ≠ .idle) {cycles : U64} (h0 : cycles ≠ 0) :
    runLoop k (fuel + 1) t cycles =
      ((runLoop k fuel (turn k t cycles).1 (turn k t cycles).2.2).1,
        (turn k t cycles).2.1 ++ (runLoop k fuel (turn k t cycles).1 (turn k t cycles).2.2).2.1,
        (runLoop k fuel (turn k t cycles).1 (turn k t cycles).2.2).2.2) := by
  unfold turn
  rw [runLoop, if_neg h0, if_neg hb]
  dsimp only
  generalize (if t.left < cycles then t.left else cycles) = step
  by_cases hl : t.left - step = 0
  · rw [if_pos hl, if_pos hl]
  · rw [if_neg hl, if_neg hl]
    rfl

/-- A turn that ends something leaves one thing fewer to end. -/
theorem turn_turns (hb : t.state ≠ .idle) {cycles : U64} (hc : t.left ≤ cycles) :
    turns (turn k t cycles).1 < turns t := by
  have hstep : (if t.left < cycles then t.left else cycles) = t.left := by
    split
    · rfl
    · next h => exact BitVec.le_antisymm (BitVec.not_lt.mp h) hc
  have hbusy : turns t = t.q.length + (if t.calPending then 1 else 0) + 1 := by
    unfold turns
    rw [if_neg hb]
  have hspent : t.left - t.left = 0 := BitVec.sub_self t.left
  unfold turn
  rw [hstep]
  dsimp only
  rw [if_pos hspent, hbusy]
  split
  · apply Nat.lt_succ_of_le
    apply le_trans (startNext_turns k (gemmEnd_state _))
    unfold turns
    rw [gemmEnd_q, gemmEnd_calPending, gemmEnd_state, if_pos rfl, Nat.add_zero]
  · apply Nat.lt_succ_of_le
    apply le_trans (startNext_turns k (calEnd_state _))
    unfold turns
    rw [calEnd_q, calEnd_calPending, calEnd_state, if_pos rfl, Nat.add_zero]

/-- A turn that ends nothing spends all the cycles. -/
theorem turn_short {cycles : U64} (hc : cycles < t.left) :
    turn k t cycles = ({ t with now := t.now + cycles, left := t.left - cycles }, [], 0) := by
  have hstep : ¬t.left < cycles := BitVec.not_lt.mpr (BitVec.le_of_lt hc)
  have hleft : t.left - cycles ≠ 0 := by
    intro h
    rw [eq_of_sub_eq_zero h] at hc
    exact absurd hc (BitVec.lt_irrefl _)
  unfold turn
  dsimp only
  rw [if_neg hstep, if_neg hleft, BitVec.sub_self]
  rfl

theorem runLoop_idle (fuel : ℕ) (hi : t.state = .idle) (cycles : U64) :
    runLoop k (fuel + 1) t cycles = ({ t with now := t.now + cycles }, [], 0) := by
  rw [runLoop]
  by_cases h0 : cycles = 0
  · have hnow : t.now + 0 = t.now := BitVec.add_zero t.now
    rw [if_pos h0, h0, hnow]
  · rw [if_neg h0, if_pos hi]

/-- Any fuel that is enough runs the loop alike. -/
theorem runLoop_fuel {fuel fuel' : ℕ} {cycles : U64} (hf : turns t < fuel) (hf' : turns t < fuel') :
    runLoop k fuel t cycles = runLoop k fuel' t cycles := by
  induction fuel generalizing t fuel' cycles with
  | zero => exact absurd hf (Nat.not_lt_zero _)
  | succ fuel ih =>
    obtain ⟨fuel', rfl⟩ : ∃ n, fuel' = n + 1 := Nat.exists_eq_succ_of_ne_zero (Nat.ne_zero_of_lt hf')
    by_cases h0 : cycles = 0
    · rw [h0, runLoop_zero, runLoop_zero]
    by_cases hi : t.state = .idle
    · rw [runLoop_idle _ hi, runLoop_idle _ hi]
    rw [runLoop_turn _ hi h0, runLoop_turn _ hi h0]
    by_cases hc : t.left ≤ cycles
    · have hless := turn_turns (k := k) hi hc
      have hturned : turns (turn k t cycles).1 < fuel ∧ turns (turn k t cycles).1 < fuel' := by
        omega
      rw [ih hturned.1 hturned.2]
    · rw [turn_short (BitVec.not_le.mp hc), runLoop_zero, runLoop_zero]

theorem run_eq (k : TileKernel Dev) (t : Twin Dev P) (cycles : U64) :
    run k t cycles = ((runLoop k (runFuel t) t cycles).1, (runLoop k (runFuel t) t cycles).2.1) := by
  unfold run
  generalize runLoop k (runFuel t) t cycles = r
  rfl

section Split

variable {a b : U64}

theorem add_toNat (hab : a.toNat + b.toNat < 2 ^ 64) : (a + b).toNat = a.toNat + b.toNat := by
  rw [BitVec.toNat_add]
  exact Nat.mod_eq_of_lt hab

theorem turn_rest_le (k : TileKernel Dev) (t : Twin Dev P) (cycles : U64) :
    (turn k t cycles).2.2.toNat ≤ cycles.toNat := by
  have hspent : (cycles - if t.left < cycles then t.left else cycles).toNat ≤ cycles.toNat := by
    split
    next h =>
      rw [BitVec.toNat_sub_of_le (BitVec.le_of_lt h)]
      exact Nat.sub_le _ _
    next =>
      rw [BitVec.sub_self]
      exact Nat.zero_le _
  unfold turn
  generalize (if t.left < cycles then t.left else cycles) = step at hspent ⊢
  dsimp only
  by_cases hl : t.left - step = 0
  · rwa [if_pos hl]
  · rwa [if_neg hl]

/-- A turn that ends within the first part is the turn of the whole. -/
theorem turn_first (hab : a.toNat + b.toNat < 2 ^ 64) (hc : t.left ≤ a) :
    turn k t (a + b) = ((turn k t a).1, (turn k t a).2.1, (turn k t a).2.2 + b) := by
  have hsum := add_toNat hab
  have hstep : ∀ c : U64, t.left ≤ c → (if t.left < c then t.left else c) = t.left := by
    intro c hle
    split
    · rfl
    · next h => exact BitVec.le_antisymm (BitVec.not_lt.mp h) hle
  have hwhole : t.left ≤ a + b := by
    rw [BitVec.le_def] at hc ⊢
    omega
  have hrest : a + b - t.left = a - t.left + b := by
    rw [BitVec.sub_eq_add_neg, BitVec.sub_eq_add_neg, BitVec.add_assoc, BitVec.add_comm b, ← BitVec.add_assoc]
  have hspent : t.left - t.left = 0 := BitVec.sub_self t.left
  unfold turn
  rw [hstep a hc, hstep (a + b) hwhole]
  dsimp only
  rw [if_pos hspent, if_pos hspent, hrest]

/-- A turn that the first part cuts goes on with the second. -/
theorem turn_second (hab : a.toNat + b.toNat < 2 ^ 64) (hc : a < t.left) :
    turn k t (a + b) = turn k { t with now := t.now + a, left := t.left - a } b := by
  have hsum := add_toNat hab
  have hleft : (t.left - a).toNat = t.left.toNat - a.toNat :=
    BitVec.toNat_sub_of_le (BitVec.le_of_lt hc)
  have hcut := BitVec.lt_def.mp hc
  have hstep : (if t.left < a + b then t.left else a + b) =
      a + (if t.left - a < b then t.left - a else b) := by
    by_cases hend : t.left - a < b
    · have hend' := BitVec.lt_def.mp hend
      rw [if_pos hend, if_pos (BitVec.lt_def.mpr (by omega)), BitVec.add_comm, BitVec.sub_add_cancel]
    · have hend' := mt BitVec.lt_def.mpr hend
      rw [if_neg hend, if_neg (mt BitVec.lt_def.mp (by omega))]
  have hspent : ∀ s : U64, t.left - (a + s) = t.left - a - s ∧ a + b - (a + s) = b - s := by
    intro s
    constructor
    · bv_omega
    · bv_omega
  unfold turn
  dsimp only
  rw [hstep, (hspent _).1, (hspent _).2, BitVec.add_assoc]

theorem runLoop_add_pos (hab : a.toNat + b.toNat < 2 ^ 64) (hb : b ≠ 0) {fuel fuel' : ℕ} (hf : turns t < fuel)
    (hf' : turns (runLoop k fuel t a).1 < fuel') :
    runLoop k fuel t (a + b) = ((runLoop k fuel' (runLoop k fuel t a).1 b).1,
      (runLoop k fuel t a).2.1 ++ (runLoop k fuel' (runLoop k fuel t a).1 b).2.1,
      (runLoop k fuel' (runLoop k fuel t a).1 b).2.2) := by
  induction fuel generalizing t a with
  | zero => exact absurd hf (Nat.not_lt_zero _)
  | succ fuel ih =>
    have hsum := add_toNat hab
    by_cases ha : a = 0
    · subst ha
      have hwhole : 0 + b = b := BitVec.zero_add b
      rw [runLoop_zero] at hf' ⊢
      rw [hwhole]
      exact runLoop_fuel hf hf'
    have hab0 : a + b ≠ 0 := by
      intro h
      rw [h] at hsum
      apply ha
      apply BitVec.eq_of_toNat_eq
      show a.toNat = 0
      have hzero : (0 : U64).toNat = 0 := rfl
      omega
    by_cases hi : t.state = .idle
    · obtain ⟨n, rfl⟩ : ∃ n, fuel' = n + 1 := Nat.exists_eq_succ_of_ne_zero (Nat.ne_zero_of_lt hf')
      have hfree : ({ t with now := t.now + a } : Twin Dev P).state = .idle := hi
      rw [runLoop_idle _ hi, runLoop_idle _ hi, runLoop_idle _ hfree, BitVec.add_assoc]
      rfl
    by_cases hc : t.left ≤ a
    · -- the turn ends before the split
      have hless := turn_turns (k := k) hi hc
      rw [runLoop_turn _ hi ha] at hf' ⊢
      rw [runLoop_turn _ hi hab0, turn_first hab hc]
      dsimp only at hf' ⊢
      have hrest := turn_rest_le k t a
      rw [ih (by omega) (by omega) hf', List.append_assoc]
    · -- the split cuts the turn
      have hcut := BitVec.not_le.mp hc
      have hshort := turn_short (k := k) hcut
      rw [runLoop_turn _ hi ha, hshort, runLoop_zero] at hf' ⊢
      rw [runLoop_turn _ hi hab0, turn_second hab hcut]
      dsimp only at hf' ⊢
      rw [List.append_nil, List.nil_append]
      have hmid : turns { t with now := t.now + a, left := t.left - a } = turns t := rfl
      rw [← runLoop_turn fuel (t := { t with now := t.now + a, left := t.left - a }) hi hb]
      exact runLoop_fuel (hmid ▸ hf) hf'

/-- Two runs of the loop after one another are one of the sum. -/
theorem runLoop_add (hab : a.toNat + b.toNat < 2 ^ 64) {fuel fuel' : ℕ} (hf : turns t < fuel)
    (hf' : turns (runLoop k fuel t a).1 < fuel') :
    runLoop k fuel t (a + b) = ((runLoop k fuel' (runLoop k fuel t a).1 b).1,
      (runLoop k fuel t a).2.1 ++ (runLoop k fuel' (runLoop k fuel t a).1 b).2.1,
      (runLoop k fuel' (runLoop k fuel t a).1 b).2.2) := by
  by_cases hb : b = 0
  · have hwhole : a + 0 = a := BitVec.add_zero a
    have hspent := runLoop_drains k fuel t a hf
    rw [hb, hwhole, runLoop_zero, List.append_nil, ← hspent]
  · exact runLoop_add_pos hab hb hf hf'

end Split

/-- Every run is over when its cycles are spent. A run of `a` and then one of `b` leave what a run of `a + b`
leaves, and report what it reports, in its order. -/
theorem run_add (k : TileKernel Dev) (t : Twin Dev P) (a b : U64) (hab : a.toNat + b.toNat < 2 ^ 64) :
    run k t (a + b) = ((run k (run k t a).1 b).1, (run k t a).2 ++ (run k (run k t a).1 b).2) ∧
      ∀ cycles fuel, runFuel t ≤ fuel → runLoop k fuel t cycles = ((run k t cycles).1, (run k t cycles).2, 0) := by
  constructor
  · rw [run_eq k t a]
    dsimp only
    rw [run_eq, run_eq, runLoop_add hab (turns_lt_runFuel t) (turns_lt_runFuel _)]
  · intro cycles fuel hfuel
    have hturns := turns_lt_runFuel t
    have hspent := runLoop_drains k (runFuel t) t cycles hturns
    rw [runLoop_fuel (lt_of_lt_of_le hturns hfuel) hturns, run_eq, ← hspent]

/-- Two commands of a cycle each and a calibration, on a tile of one element. -/
def busyTwin : Twin Unit ℕ where
  build := { rows := 1, cols := 1, dinW := 8, accW := 20, queueDepth := 2, actHold := 0 }
  dev := ()
  state := .gemm
  left := 1
  calPending := true
  cur := { M := 1, N := 1, K := 1, A := some [2], B := some [3], C := some 0, status := some 1 }
  curC := [6]
  q := [{ M := 1, N := 1, K := 1, A := some [4], B := some [5], C := some 2, status := some 3 }]

theorem run_add_busy :
    run exactKernel busyTwin (1 + 2) =
        ((run exactKernel (run exactKernel busyTwin 1).1 2).1,
          (run exactKernel busyTwin 1).2 ++ (run exactKernel (run exactKernel busyTwin 1).1 2).2) ∧
      ∀ cycles fuel, runFuel busyTwin ≤ fuel →
        runLoop exactKernel fuel busyTwin cycles =
          ((run exactKernel busyTwin cycles).1, (run exactKernel busyTwin cycles).2, 0) :=
  run_add exactKernel busyTwin 1 2 (by decide)

end Grxcp.PtaTwin
