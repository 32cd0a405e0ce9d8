import Grxcp.Pta.TwinTurns

/-!
# How long a command takes

A run that is shorter than what the tile has left moves the clock. A run that reaches the end of the
only command ends it, and the rest of its time passes on a free tile. So a host that looks at the twin
again and again, and lets it run a little each time, sees it fall idle at a look that can be computed.
-/

namespace Grxcp.PtaTwin

variable {Dev P : Type} {k : TileKernel Dev} {t : Twin Dev P}

/-- The cycles a command holds the tile for. -/
def gemmCycles (b : Build) (r : Regs) (c : Cmd P) : U64 :=
  atLeastOne (tilesOf b c * r.tw.zeroExtend 64 + shotsOf b c * r.ts.zeroExtend 64)

theorem gemmCycles_ne_zero (b : Build) (r : Regs) (c : Cmd P) : gemmCycles b r c ≠ 0 := by
  unfold gemmCycles atLeastOne
  split
  · decide
  · next h => exact h

theorem eq_of_sub_eq_zero {a b : U64} (h : a - b = 0) : a = b := by
  bv_omega

theorem runLoop_zero (fuel : ℕ) (t : Twin Dev P) : runLoop k fuel t 0 = (t, [], 0) := by
  cases fuel with
  | zero => rfl
  | succ fuel =>
    unfold runLoop
    exact if_pos rfl

/-- Time on a free tile. -/
theorem run_idle (hi : t.state = .idle) (cycles : U64) :
    run k t cycles = ({ t with now := t.now + cycles }, []) := by
  unfold run runFuel runLoop
  by_cases h0 : cycles = 0
  · simp [h0]
  · rw [if_neg h0, if_pos hi]

/-- Time that ends nothing. -/
theorem run_short (hb : t.state ≠ .idle) {cycles : U64} (hc : cycles < t.left) :
    run k t cycles = ({ t with now := t.now + cycles, left := t.left - cycles }, []) := by
  unfold run runFuel runLoop
  by_cases h0 : cycles = 0
  · simp [h0]
  rw [if_neg h0, if_neg hb]
  have hstep : ¬t.left < cycles := BitVec.not_lt.mpr (BitVec.le_of_lt hc)
  have hleft : t.left - cycles ≠ 0 := by
    intro h
    rw [eq_of_sub_eq_zero h] at hc
    exact absurd hc (BitVec.lt_irrefl _)
  dsimp only
  rw [if_neg hstep, if_neg hleft, BitVec.sub_self]
  exact congrArg (fun r : Twin Dev P × List (Ending P) × U64 => (r.1, r.2.1)) (runLoop_zero _ _)

/-- Time that ends the only command. -/
theorem run_ends (hg : t.state = .gemm) (hq : t.q = []) (hp : t.calPending = false) {cycles : U64}
    (hc : t.left ≤ cycles) (h0 : cycles ≠ 0) :
    run k t cycles = ({ (gemmEnd t).1 with now := t.now + cycles, left := 0 }, (gemmEnd t).2) := by
  have hfree : (gemmEnd t).1.state = .idle := rfl
  have hstep : (if t.left < cycles then t.left else cycles) = t.left := by
    split
    · rfl
    · next h => exact BitVec.le_antisymm (BitVec.not_lt.mp h) hc
  have hend : ∀ now left : U64, gemmEnd { t with now := now, left := left } =
      ({ (gemmEnd t).1 with now := now, left := left }, (gemmEnd t).2) := by
    intro now left
    unfold gemmEnd
    dsimp only
    split <;> rfl
  have hq' : (gemmEnd t).1.q = [] := (gemmEnd_q t).trans hq
  have hp' : (gemmEnd t).1.calPending = false := (gemmEnd_calPending t).trans hp
  have hnext : ∀ now left : U64, startNext k { (gemmEnd t).1 with now := now, left := left } =
      ({ (gemmEnd t).1 with now := now, left := left }, []) := by
    intro now left
    unfold startNext
    dsimp only
    rw [hq', if_neg (by simp), hp', if_neg (by simp)]
    unfold startQueued
    rw [← hq']
  unfold run runFuel
  rw [hq]
  unfold runLoop
  rw [if_neg h0, if_neg (by simp [hg])]
  dsimp only
  rw [hstep, BitVec.sub_self, if_pos (show 0#64 = (0 : U64) from rfl), if_pos hg, hend]
  dsimp only
  rw [hnext]
  dsimp only
  -- what is left passes on the free tile
  unfold runLoop
  by_cases hr : cycles - t.left = 0
  · rw [if_pos hr, ← eq_of_sub_eq_zero hr]
    simp
  · rw [if_neg hr, if_pos hfree]
    have hsum : t.now + t.left + (cycles - t.left) = t.now + cycles := by
      rw [BitVec.add_assoc, BitVec.add_comm t.left, BitVec.sub_add_cancel]
    simp [hsum]

/-! ## Looking again and again -/

/-- The twin after `n` looks at it, each of which lets it run. -/
def polled (k : TileKernel Dev) (cost : U64) : ℕ → Twin Dev P → Twin Dev P
  | 0, t => t
  | n + 1, t => polled k cost n (run k t cost).1

variable {c : U64}

theorem polled_idle (n : ℕ) :
    ∀ t : Twin Dev P, t.state = .idle → ∃ now, polled k c n t = { t with now := now } := by
  induction n with
  | zero => exact fun t _ => ⟨t.now, rfl⟩
  | succ n ih =>
    intro t hi
    unfold polled
    rw [run_idle hi]
    exact ih _ hi

/-- The looks that end nothing. -/
theorem polled_short (n : ℕ) :
    ∀ t : Twin Dev P, t.state ≠ .idle → n * c.toNat < t.left.toNat →
      ∃ now left, polled k c n t = { t with now := now, left := left } ∧
        left.toNat = t.left.toNat - n * c.toNat := by
  induction n with
  | zero => exact fun t _ _ => ⟨t.now, t.left, rfl, by simp⟩
  | succ n ih =>
    intro t hb hn
    have hmul : (n + 1) * c.toNat = n * c.toNat + c.toNat := Nat.succ_mul _ _
    have hlt : c < t.left := by
      rw [BitVec.lt_def]
      omega
    have hsub : (t.left - c).toNat = t.left.toNat - c.toNat :=
      BitVec.toNat_sub_of_le (BitVec.le_of_lt hlt)
    obtain ⟨now, left, heq, hleft⟩ :=
      ih { t with now := t.now + c, left := t.left - c } hb (by
        show n * c.toNat < (t.left - c).toNat
        omega)
    refine ⟨now, left, ?_, ?_⟩
    · unfold polled
      rw [run_short hb hlt]
      exact heq
    · rw [hleft]
      show (t.left - c).toNat - _ = _
      omega

/-- The looks that see the only command end. -/
theorem polled_ends (n : ℕ) :
    ∀ t : Twin Dev P, t.state = .gemm → t.q = [] → t.calPending = false → t.left ≠ 0 →
      t.left.toNat ≤ n * c.toNat →
      ∃ now, polled k c n t = { (gemmEnd t).1 with now := now, left := 0 } := by
  induction n with
  | zero =>
    intro t _ _ _ h0 hn
    have hz : t.left.toNat = 0 := by omega
    exact absurd (BitVec.eq_of_toNat_eq (by simpa using hz)) h0
  | succ n ih =>
    intro t hg hq hp h0 hn
    have hmul : (n + 1) * c.toNat = n * c.toNat + c.toNat := Nat.succ_mul _ _
    unfold polled
    by_cases hlt : c < t.left
    · have hsub : (t.left - c).toNat = t.left.toNat - c.toNat :=
        BitVec.toNat_sub_of_le (BitVec.le_of_lt hlt)
      have hne : t.left - c ≠ 0 := by
        intro h
        rw [eq_of_sub_eq_zero h] at hlt
        exact absurd hlt (BitVec.lt_irrefl _)
      obtain ⟨now, heq⟩ := ih { t with now := t.now + c, left := t.left - c } hg hq hp hne (by
        show (t.left - c).toNat ≤ _
        omega)
      rw [run_short (by simp [hg]) hlt]
      refine ⟨now, heq.trans ?_⟩
      unfold gemmEnd
      dsimp only
      split <;> rfl
    · have hle : t.left ≤ c := BitVec.not_lt.mp hlt
      have hc : c ≠ 0 := by
        rintro rfl
        have hz := BitVec.le_def.mp hle
        exact h0 (BitVec.eq_of_toNat_eq (by simpa using hz))
      rw [run_ends hg hq hp hle hc]
      obtain ⟨now, heq⟩ := polled_idle (k := k) n
        { (gemmEnd t).1 with now := t.now + c, left := 0 } rfl
      exact ⟨now, heq⟩

theorem polled_settled (n : ℕ) :
    ∀ t : Twin Dev P, Settled t → Settled (polled k c n t) := by
  induction n with
  | zero => exact fun _ h => h
  | succ n ih => exact fun t h => ih _ (run_settled k h c)

theorem polled_add (m n : ℕ) :
    ∀ t : Twin Dev P, polled k c (m + n) t = polled k c n (polled k c m t) := by
  induction m with
  | zero => simp [polled]
  | succ m ih =>
    intro t
    rw [Nat.succ_add]
    exact ih _

/-! ## The clock does not matter to a command -/

theorem gemmBegin_now (t : Twin Dev P) (now : U64) (c : Cmd P) :
    gemmBegin k { t with now := now } c =
      ({ (gemmBegin k t c).1 with now := now }, (gemmBegin k t c).2) := by
  have harith : gemmArith k { t with now := now } c =
      ({ (gemmArith k t c).1 with now := now }, (gemmArith k t c).2) := by
    have hact : actRefused { t with now := now } c = actRefused t c := rfl
    have hcall : tileCall k { t with now := now } c = tileCall k t c := rfl
    rw [gemmArith_eq, gemmArith_eq, hact, hcall]
    split
    · rfl
    split
    · rfl
    split <;> rfl
  unfold gemmBegin
  rw [harith]
  rcases gemmArith k t c with ⟨u, _ | r⟩ <;> rfl

theorem submit_now (t : Twin Dev P) (now : U64) (c : Cmd P) :
    submit k { t with now := now } c =
      ((submit k t c).1, { (submit k t c).2.1 with now := now },
        (submit k t c).2.2) := by
  have hcopy : copyMallocs { t with now := now } c =
      ((copyMallocs t c).1, { (copyMallocs t c).2 with now := now }) := by
    unfold copyMallocs Twin.malloc
    dsimp only
    repeat' split
    all_goals rfl
  unfold submit
  rw [hcopy]
  split
  · rfl
  split
  · rfl
  rcases copyMallocs t c with ⟨ok, u⟩
  cases ok with
  | false => rfl
  | true =>
    dsimp only
    split
    · rw [gemmBegin_now]
    · rfl

end Grxcp.PtaTwin
