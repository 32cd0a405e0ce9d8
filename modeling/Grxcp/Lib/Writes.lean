import Mathlib.Tactic

/-!
# Writes to a table

A list of writes is carried out in order on a table `f : κ → ν`. What it leaves at a key is the last
value written there, or what was there before.
-/

namespace Grxcp.Writes

variable {κ ν : Type*} [DecidableEq κ]

/-- Carry out writes, the first first. -/
def apply (f : κ → ν) (ws : List (κ × ν)) : κ → ν :=
  ws.foldl (fun f w => Function.update f w.1 w.2) f

/-- The last value that is written at a key. -/
def last (k : κ) : List (κ × ν) → Option ν
  | [] => none
  | (k', v) :: ws => (last k ws).or (if k' = k then some v else none)

@[simp] theorem apply_nil (f : κ → ν) : apply f [] = f := rfl

@[simp] theorem apply_cons (f : κ → ν) (w : κ × ν) (ws : List (κ × ν)) :
    apply f (w :: ws) = apply (Function.update f w.1 w.2) ws := rfl

theorem apply_append (f : κ → ν) (ws ws' : List (κ × ν)) :
    apply f (ws ++ ws') = apply (apply f ws) ws' :=
  List.foldl_append

@[simp] theorem last_nil (k : κ) : last k ([] : List (κ × ν)) = none := rfl

theorem last_append (k : κ) (ws ws' : List (κ × ν)) :
    last k (ws ++ ws') = (last k ws').or (last k ws) := by
  induction ws with
  | nil => simp
  | cons w ws ih =>
    show (last k (ws ++ ws')).or _ = (last k ws').or ((last k ws).or _)
    rw [ih, Option.or_assoc]

/-- What the writes leave at a key. -/
theorem apply_eq (f : κ → ν) (ws : List (κ × ν)) (k : κ) :
    apply f ws k = (last k ws).getD (f k) := by
  induction ws generalizing f with
  | nil => rfl
  | cons w ws ih =>
    rw [apply_cons, ih]
    show _ = ((last k ws).or (if w.1 = k then some w.2 else none)).getD (f k)
    cases last k ws with
    | some v => rfl
    | none =>
      by_cases h : w.1 = k
      · subst h
        simp
      · simp [h, Function.update_of_ne (Ne.symm h)]

/-- A key that is not among those written keeps its value. -/
theorem last_eq_none (k : κ) (ws : List (κ × ν)) (h : ∀ w ∈ ws, w.1 ≠ k) : last k ws = none := by
  induction ws with
  | nil => rfl
  | cons w ws ih =>
    have hrest := ih fun w' hw' => h w' (List.mem_cons_of_mem w hw')
    show (last k ws).or (if w.1 = k then some w.2 else none) = none
    rw [hrest, if_neg (h w List.mem_cons_self)]
    rfl

/-- A key whose last writer is known does not depend on the table. -/
theorem apply_of_last {k : κ} {v : ν} {ws : List (κ × ν)} (h : last k ws = some v) (f : κ → ν) :
    apply f ws k = v := by
  rw [apply_eq, h]
  rfl

end Grxcp.Writes
