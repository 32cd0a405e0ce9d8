import Mathlib.Tactic

/-!
# Scans

A loop over indices that stops at the first that decides: it is stuck there, or it has a hit. An index that
misses goes on to the next.
-/

namespace Grxcp.Scan

/-- What an index, or a whole scan, comes to. -/
inductive Result (α : Type*)
  | stuck
  | miss
  | hit (a : α)
deriving DecidableEq, Repr

variable {α : Type*}

/-- Go on with a value, where there is one. -/
def Result.ofOption {β : Type*} (x : Option β) (f : β → Result α) : Result α :=
  match x with
  | none => .stuck
  | some b => f b

/-- Scan `n` indices from `i` on. -/
def scanFrom (f : ℕ → Result α) : ℕ → ℕ → Result α
  | _, 0 => .miss
  | i, n + 1 =>
    match f i with
    | .stuck => .stuck
    | .miss => scanFrom f (i + 1) n
    | .hit a => .hit a

/-- Scan the indices below `n`. -/
def scan (f : ℕ → Result α) (n : ℕ) : Result α :=
  scanFrom f 0 n

/-- The scan gets to an index if every index before it misses. -/
def Reaches (f : ℕ → Result α) (j : ℕ) : Prop :=
  ∀ k < j, f k = .miss

variable {f : ℕ → Result α} {i n : ℕ} {r : Result α}

theorem scanFrom_eq_iff (hr : r ≠ .miss) :
    scanFrom f i n = r ↔ ∃ j < n, (∀ k < j, f (i + k) = .miss) ∧ f (i + j) = r := by
  induction n generalizing i with
  | zero =>
    constructor
    · exact fun h => absurd h.symm hr
    · rintro ⟨j, hj, -⟩
      exact absurd hj (Nat.not_lt_zero _)
  | succ n ih =>
    have hstop : f i ≠ .miss → ((∃ j < n + 1, (∀ k < j, f (i + k) = .miss) ∧ f (i + j) = r) ↔ f i = r) := by
      intro hne
      constructor
      · rintro ⟨j, -, hbefore, hj⟩
        cases j with
        | zero => exact hj
        | succ j => exact absurd (hbefore 0 (Nat.succ_pos j)) hne
      · intro h
        exact ⟨0, Nat.succ_pos n, fun k hk => absurd hk (Nat.not_lt_zero _), h⟩
    unfold scanFrom
    split
    next hi => rw [hstop (by rw [hi]; nofun), hi]
    next hi =>
      rw [ih]
      constructor
      · rintro ⟨j, hj, hbefore, h⟩
        rw [Nat.add_assoc, Nat.add_comm 1] at h
        refine ⟨j + 1, by omega, fun k hk => ?_, h⟩
        cases k with
        | zero => exact hi
        | succ k =>
          have hk' := hbefore k (by omega)
          rwa [Nat.add_assoc, Nat.add_comm 1] at hk'
      · rintro ⟨j, hj, hbefore, h⟩
        cases j with
        | zero => exact absurd (h.symm.trans hi) hr
        | succ j =>
          refine ⟨j, by omega, fun k hk => ?_, ?_⟩
          · rw [Nat.add_assoc, Nat.add_comm 1]
            exact hbefore (k + 1) (by omega)
          · rw [Nat.add_assoc, Nat.add_comm 1]
            exact h
    next a hi => rw [hstop (by rw [hi]; nofun), hi]

/-- The index that a scan stops at decides it. -/
theorem scan_eq_iff (hr : r ≠ .miss) : scan f n = r ↔ ∃ j < n, Reaches f j ∧ f j = r := by
  unfold scan
  rw [scanFrom_eq_iff hr]
  simp only [Nat.zero_add, Reaches]

theorem scan_eq_hit_iff {a : α} :
    scan f n = .hit a ↔ ∃ j < n, Reaches f j ∧ f j = .hit a := by
  apply scan_eq_iff
  intro h
  cases h

/-- A scan is not stuck if no index that it gets to is. -/
theorem scan_ne_stuck_iff : scan f n ≠ .stuck ↔ ∀ j < n, Reaches f j → f j ≠ .stuck := by
  have hne : (Result.stuck : Result α) ≠ .miss := nofun
  rw [ne_eq, scan_eq_iff hne]
  constructor
  · intro h j hj hreach hstuck
    exact h ⟨j, hj, hreach, hstuck⟩
  · rintro h ⟨j, hj, hreach, hstuck⟩
    exact h j hj hreach hstuck

end Grxcp.Scan
