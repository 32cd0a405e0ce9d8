import Grxcp.Lib.Recency
import Grxcp.Pta.BankPolicy

/-!
# The least recently used bank

The laws of `misses_lru` in the number of banks: more banks hold what fewer hold, and miss no more; a cycle of
sets misses at every reference until there is a bank for each, and from there on once for each.
-/

namespace Grxcp.BankPolicy

open Recency (cached cached_hit cached_miss cached_mono cached_nil loads loads_anti loads_concat
  loads_cycle)

variable {α : Type*} [DecidableEq α]

/-- The state of `misses_lru` after its references. -/
theorem lru_run (W : ℕ) (refs : List α) :
    refs.foldl (lruStep W) {} = { banks := cached W refs, m := loads W [] refs } := by
  induction refs using List.reverseRecOn with
  | nil =>
    rw [cached_nil]
    rfl
  | append_singleton refs r ih =>
    rw [List.foldl_append, ih, List.foldl_cons, List.foldl_nil, loads_concat, List.nil_append]
    unfold lruStep
    split_ifs with hhit
    · rw [cached_hit hhit, Nat.add_zero]
    · rw [cached_miss hhit]

theorem missesLru_eq (W : ℕ) (refs : List α) : missesLru refs W = loads W [] refs := by
  unfold missesLru
  rw [lru_run]

/-- More banks miss no more, and hold what fewer hold. A cycle of different sets misses all along with fewer
banks than it has sets, and once for each set with as many or more. -/
theorem lru_laws (refs ids : List α) (hids : ids.Nodup) (n : ℕ) :
    (∀ W W', W ≤ W' → missesLru refs W' ≤ missesLru refs W) ∧
      (∀ W, ∀ r ∈ (refs.foldl (lruStep W) {}).banks, r ∈ (refs.foldl (lruStep (W + 1)) {}).banks) ∧
      (∀ W, W < ids.length → missesLru (List.replicate (n + 1) ids).flatten W =
        (List.replicate (n + 1) ids).flatten.length) ∧
      ∀ W, ids.length ≤ W → missesLru (List.replicate (n + 1) ids).flatten W = ids.length := by
  have hcycle : ∀ W, missesLru (List.replicate (n + 1) ids).flatten W =
      if ids.length ≤ W then ids.length else (List.replicate (n + 1) ids).flatten.length := by
    intro W
    rw [missesLru_eq]
    exact loads_cycle W hids (List.disjoint_nil_left ids) n
  refine ⟨?_, ?_, ?_, ?_⟩
  · intro W W' hW
    rw [missesLru_eq, missesLru_eq]
    exact loads_anti hW [] refs
  · intro W r hr
    rw [lru_run] at hr ⊢
    exact cached_mono (Nat.le_succ W) refs hr
  · intro W hW
    rw [hcycle, if_neg (not_le.mpr hW)]
  · intro W hW
    rw [hcycle, if_pos hW]

/-- Three sets, twice around. -/
theorem lru_laws_three : [0, 1, 2].Nodup ∧ missesLru [0, 1, 2, 0, 1, 2] 2 = 6 ∧
    missesLru [0, 1, 2, 0, 1, 2] 3 = 3 := by
  obtain ⟨-, -, hbelow, hroom⟩ := lru_laws [0, 1, 2] [0, 1, 2] (by decide) 1
  exact ⟨by decide, hbelow 2 (by decide), hroom 3 (by decide)⟩

end Grxcp.BankPolicy
