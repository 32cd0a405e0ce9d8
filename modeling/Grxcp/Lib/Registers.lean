import Grxcp.Lib.Queues

/-!
# Registers that commands write

A command that writes a register does so when it completes. `seen i` are the commands that were done when
command `i` was issued, so `Prec` is the order that the host and the queues give together. What a register
holds comes from a write that no later one has overtaken (`Latest`), so it is a given write's if every
other write that is done comes before that one (`Latest.read`).
-/

namespace Grxcp.Queues

variable {Q C W K V : Type*}

/-- Command `j` is done before command `i` begins. -/
def Prec (log : Log Q C W) (seen : ℕ → Finset ℕ) (j i : ℕ) : Prop :=
  Before log j i ∨ j ∈ seen i

section Prec

variable {log : Log Q C W} {c : Command Q C W} {seen : ℕ → Finset ℕ} {done : Finset ℕ} {i j : ℕ}

theorem Prec.mem_done {b : Board Q C W} (h : Prec b.log seen j i) (hb : b.Closed)
    (hseen : ∀ i, seen i ⊆ b.done) (hi : i ∈ b.done) : j ∈ b.done := by
  rcases h with h | h
  · exact hb.before h hi
  · exact hseen i h

/-- A new command changes nothing among those before it. -/
theorem prec_append_of_lt (hi : i < log.length) :
    Prec (log ++ [c]) (Function.update seen log.length done) j i ↔ Prec log seen j i := by
  unfold Prec
  rw [before_append_of_lt hi, Function.update_of_ne hi.ne]

theorem prec_last :
    Prec (log ++ [c]) (Function.update seen log.length done) j log.length ↔
      Covers log c j ∨ j ∈ done := by
  unfold Prec
  rw [before_last, Function.update_self]

end Prec

/-- What a register holds was written by a command that is done and that no other such write comes after;
or none that is done has written it. -/
def Latest (R : ℕ → ℕ → Prop) (writes : ℕ → Option (K × V)) (done : Finset ℕ) (regs : K → V) : Prop :=
  ∀ k, (∃ j ∈ done, writes j = some (k, regs k) ∧
      ∀ i ∈ done, ∀ v, writes i = some (k, v) → ¬ R j i) ∨
    ∀ j ∈ done, ∀ v, writes j ≠ some (k, v)

section Latest

variable {R R' : ℕ → ℕ → Prop} {writes writes' : ℕ → Option (K × V)} {done : Finset ℕ} {regs : K → V}
  {i : ℕ}

theorem Latest.empty : Latest R writes ∅ regs := by
  intro k
  right
  intro j hj
  cases hj

/-- The commands that are done are all that matters. -/
theorem Latest.congr (h : Latest R writes done regs) (hw : ∀ j ∈ done, writes' j = writes j)
    (hR : ∀ j, ∀ i ∈ done, R' j i → R j i) : Latest R' writes' done regs := by
  intro k
  rcases h k with ⟨j, hj, hjw, hmax⟩ | hnone
  · refine .inl ⟨j, hj, (hw j hj).trans hjw, fun i hi v hv hji => ?_⟩
    exact hmax i hi v ((hw i hi).symm.trans hv) (hR j i hi hji)
  · exact .inr fun j hj v hv => hnone j hj v ((hw j hj).symm.trans hv)

/-- A command that writes nothing completes. -/
theorem Latest.complete (h : Latest R writes done regs) (hw : writes i = none) :
    Latest R writes (insert i done) regs := by
  intro k
  rcases h k with ⟨j, hj, hjw, hmax⟩ | hnone
  · refine .inl ⟨j, Finset.mem_insert_of_mem hj, hjw, fun i' hi' v hv => ?_⟩
    rcases Finset.mem_insert.mp hi' with rfl | hi'
    · rw [hw] at hv
      cases hv
    · exact hmax i' hi' v hv
  · refine .inr fun j hj v hv => ?_
    rcases Finset.mem_insert.mp hj with rfl | hj
    · rw [hw] at hv
      cases hv
    · exact hnone j hj v hv

/-- A write completes, which comes before none that is done. -/
theorem Latest.write [DecidableEq K] (h : Latest R writes done regs) {k : K} {v : V}
    (hw : writes i = some (k, v)) (hfirst : ∀ j ∈ insert i done, ¬ R i j) :
    Latest R writes (insert i done) (Function.update regs k v) := by
  intro k'
  by_cases hk : k' = k
  · subst hk
    refine .inl ⟨i, Finset.mem_insert_self i done, ?_, fun j hj _ _ => hfirst j hj⟩
    rw [Function.update_self, hw]
  · have hother : ∀ j v', writes j = some (k', v') → j ≠ i := by
      rintro j v' hv' rfl
      rw [hw] at hv'
      cases hv'
      exact hk rfl
    rcases h k' with ⟨j, hj, hjw, hmax⟩ | hnone
    · refine .inl ⟨j, Finset.mem_insert_of_mem hj, ?_, fun i' hi' v' hv' => ?_⟩
      · rw [Function.update_of_ne hk, hjw]
      · exact hmax i' (Finset.mem_of_mem_insert_of_ne hi' (hother i' v' hv')) v' hv'
    · refine .inr fun j hj v' hv' => ?_
      exact hnone j (Finset.mem_of_mem_insert_of_ne hj (hother j v' hv')) v' hv'

/-- A register holds what a write that is done wrote, if it comes after every other that is done. -/
theorem Latest.read (h : Latest R writes done regs) {k : K} {v : V} (hi : i ∈ done)
    (hw : writes i = some (k, v))
    (hlast : ∀ j ∈ done, ∀ v', writes j = some (k, v') → j ≠ i → R j i) : regs k = v := by
  rcases h k with ⟨j, hj, hjw, hmax⟩ | hnone
  · by_cases hji : j = i
    · subst hji
      rw [hw] at hjw
      cases hjw
      rfl
    · exact absurd (hlast j hj _ hjw hji) (hmax i hi v hw)
  · exact absurd hw (hnone i hi v)

end Latest

end Grxcp.Queues
