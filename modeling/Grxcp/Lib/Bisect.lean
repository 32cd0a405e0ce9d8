import Mathlib.Tactic

/-!
# Bisection

A loop that halves an interval of indices and keeps the last index seen to satisfy a predicate. Where the
predicate holds of an initial segment, what it keeps is the last index of the segment.
-/

namespace Grxcp.Bisect

variable (p : ℕ → Bool)

/-- Halve `[lo, hi)` until it is empty. -/
def lastFrom (lo hi : ℕ) (best : Option ℕ) : Option ℕ :=
  if lo < hi then
    let mid := lo + (hi - lo) / 2
    if p mid then lastFrom (mid + 1) hi (some mid) else lastFrom lo mid best
  else best
termination_by hi - lo

/-- The last index below `n` that satisfies the predicate. -/
def last (n : ℕ) : Option ℕ :=
  lastFrom p 0 n none

/-- The result of a search below `n`: the last index that satisfies the predicate, or none does. -/
def IsLast (n : ℕ) : Option ℕ → Prop
  | none => ∀ i < n, p i = false
  | some i => i < n ∧ p i = true ∧ ∀ j < n, i < j → p j = false

/-- Where the loop is: what it has kept is the last index below `lo`, and none from `hi` on will do. -/
structure Halved (n lo hi : ℕ) (best : Option ℕ) : Prop where
  le : lo ≤ hi
  inside : hi ≤ n
  below : IsLast p lo best
  above : ∀ i < n, hi ≤ i → p i = false

variable {p} {n lo hi : ℕ} {best : Option ℕ}

theorem Halved.right (h : Halved p n lo hi best) (hlt : lo < hi) (hmid : p (lo + (hi - lo) / 2) = true) :
    Halved p n (lo + (hi - lo) / 2 + 1) hi (some (lo + (hi - lo) / 2)) :=
  ⟨by omega, h.inside, ⟨by omega, hmid, fun j hj hgt => by omega⟩, h.above⟩

theorem Halved.left (hanti : ∀ i j, i ≤ j → j < n → p j = true → p i = true)
    (h : Halved p n lo hi best) (hlt : lo < hi) (hmid : p (lo + (hi - lo) / 2) = false) :
    Halved p n lo (lo + (hi - lo) / 2) best := by
  have hinside := h.inside
  refine ⟨by omega, by omega, h.below, fun i hi hle => ?_⟩
  by_contra htrue
  rw [Bool.not_eq_false] at htrue
  rw [hanti _ i hle hi htrue] at hmid
  cases hmid

theorem lastFrom_isLast (hanti : ∀ i j, i ≤ j → j < n → p j = true → p i = true)
    (h : Halved p n lo hi best) : IsLast p n (lastFrom p lo hi best) := by
  induction hd : hi - lo using Nat.strong_induction_on generalizing lo hi best with
  | _ d ih =>
    rw [lastFrom]
    split
    next hlt =>
      dsimp only
      split
      next hmid => exact ih _ (by omega) (h.right hlt hmid) rfl
      next hmid => exact ih _ (by omega) (h.left hanti hlt (Bool.eq_false_iff.mpr hmid)) rfl
    next hge =>
      have heq : lo = hi := le_antisymm h.le (not_lt.mp hge)
      subst heq
      -- The interval is empty: what is kept is the last below, and there is none above.
      have hbelow := h.below
      cases best with
      | none =>
        intro i hi
        rcases Nat.lt_or_ge i lo with hlt | hle
        · exact hbelow i hlt
        · exact h.above i hi hle
      | some i =>
        refine ⟨hbelow.1.trans_le h.inside, hbelow.2.1, fun j hj hgt => ?_⟩
        rcases Nat.lt_or_ge j lo with hlt | hle
        · exact hbelow.2.2 j hlt hgt
        · exact h.above j hj hle

/-- The search is right where the predicate holds of an initial segment. -/
theorem last_isLast (hanti : ∀ i j, i ≤ j → j < n → p j = true → p i = true) :
    IsLast p n (last p n) :=
  lastFrom_isLast hanti ⟨Nat.zero_le _, le_rfl, fun _ h => absurd h (Nat.not_lt_zero _),
    fun _ hlt hle => absurd hlt (not_lt.mpr hle)⟩

end Grxcp.Bisect
