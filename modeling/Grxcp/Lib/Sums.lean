import Mathlib.Tactic
import Mathlib.Algebra.BigOperators.Pi

/-!
# Loops that add

A loop whose turns each add something adds the sum over its turns (`foldl_adds`), whatever it is that a
turn adds to: adding is any relation between two states that is transitive along sums. `spread` adds to
one cell of a row-major matrix, and cells are apart, so what a loop over all of them adds to a cell is
that cell's share (`spread_apply`).
-/

namespace Grxcp.Sums

section Loops

variable {S M : Type*} [AddCommMonoid M] {R : S → S → M → Prop}

/-- A loop adds what its turns add, in states that keep `P`. -/
theorem foldl_adds (hrefl : ∀ s, R s s 0) (htrans : ∀ s t u d d', R s t d → R t u d' → R s u (d + d'))
    {α : Type*} {f : S → α → S} (P : S → Prop) (d : α → M) (l : List α)
    (hf : ∀ s, ∀ a ∈ l, P s → R s (f s a) (d a) ∧ P (f s a)) :
    ∀ s, P s → R s (l.foldl f s) (l.map d).sum ∧ P (l.foldl f s) := by
  induction l with
  | nil => exact fun s hs => ⟨hrefl s, hs⟩
  | cons a l ih =>
    intro s hs
    obtain ⟨hone, hP⟩ := hf s a List.mem_cons_self hs
    obtain ⟨hrest, hP'⟩ := ih (fun s b hb => hf s b (List.mem_cons_of_mem a hb)) _ hP
    rw [List.map_cons, List.sum_cons]
    exact ⟨htrans _ _ _ _ _ hone hrest, hP'⟩

/-- A turn that is taken again and again adds a multiple. -/
theorem iterate_adds (hrefl : ∀ s, R s s 0) (htrans : ∀ s t u d d', R s t d → R t u d' → R s u (d + d'))
    {f : S → S} (P : S → Prop) (d : M) (hf : ∀ s, P s → R s (f s) d ∧ P (f s)) (n : ℕ) :
    ∀ s, P s → R s (f^[n] s) (n • d) ∧ P (f^[n] s) := by
  induction n with
  | zero =>
    intro s hs
    rw [zero_nsmul]
    exact ⟨hrefl s, hs⟩
  | succ n ih =>
    intro s hs
    obtain ⟨hone, hP⟩ := hf s hs
    obtain ⟨hrest, hP'⟩ := ih _ hP
    rw [Function.iterate_succ_apply, succ_nsmul']
    exact ⟨htrans _ _ _ _ _ hone hrest, hP'⟩

end Loops

section Lists

variable {M : Type*} [AddCommMonoid M]

theorem sum_map_range (f : ℕ → M) (n : ℕ) : ((List.range n).map f).sum = ∑ i ∈ Finset.range n, f i :=
  rfl

theorem foldl_add_eq_sum (f : ℕ → M) (n : ℕ) :
    (List.range n).foldl (fun y r => y + f r) 0 = ∑ r ∈ Finset.range n, f r := by
  induction n with
  | zero => rfl
  | succ n ih => rw [List.range_succ, List.foldl_append, ih, Finset.sum_range_succ, List.foldl_cons, List.foldl_nil]

theorem sum_map_sum {α : Type*} (l : List α) (S : Finset ℕ) (f : α → ℕ → M) :
    (l.map fun a => ∑ i ∈ S, f a i).sum = ∑ i ∈ S, (l.map fun a => f a i).sum := by
  induction l with
  | nil => simp
  | cons a l ih =>
    simp only [List.map_cons, List.sum_cons, ih]
    rw [Finset.sum_add_distrib]

theorem sum_map_single {α : Type*} (l : List α) (i : ℕ) (f : α → M) :
    (l.map fun a => (Pi.single i (f a) : ℕ → M)).sum = Pi.single i (l.map f).sum := by
  induction l with
  | nil => exact (Pi.single_zero i).symm
  | cons a l ih => rw [List.map_cons, List.sum_cons, ih, ← Pi.single_add, List.map_cons, List.sum_cons]

end Lists

section Cells

variable {M : Type*} [AddCommMonoid M]

/-- The cells of a row-major matrix are apart. -/
theorem index_inj {c r n r' n' : ℕ} (hn : n < c) (hn' : n' < c) (h : r * c + n = r' * c + n') :
    r = r' ∧ n = n' := by
  have hr : r = r' := by
    rcases lt_trichotomy r r' with hlt | heq | hgt
    · nlinarith
    · exact heq
    · nlinarith
  subst hr
  exact ⟨rfl, by omega⟩

/-- What is added to a cell of a matrix with `N` columns, and to no other. -/
def spread (N : ℕ) (f : ℕ → ℕ → M) (m c : ℕ) : ℕ → M :=
  Pi.single (m * N + c) (f m c)

theorem spread_apply {m c rows N : ℕ} (f : ℕ → ℕ → M) (hm : m < rows) (hc : c < N) :
    (∑ m' ∈ Finset.range rows, ∑ c' ∈ Finset.range N, spread N f m' c') (m * N + c) = f m c := by
  rw [Finset.sum_apply, Finset.sum_eq_single m]
  · rw [Finset.sum_apply, Finset.sum_eq_single c]
    · exact Pi.single_eq_same _ _
    · intro c' _ hne
      exact Pi.single_eq_of_ne (fun h => hne (by omega)) _
    · intro hmem
      exact absurd (Finset.mem_range.mpr hc) hmem
  · intro m' _ hne
    rw [Finset.sum_apply]
    refine Finset.sum_eq_zero fun c' hc' => Pi.single_eq_of_ne (fun h => ?_) _
    exact hne (index_inj hc (Finset.mem_range.mp hc') h).1.symm
  · intro hmem
    exact absurd (Finset.mem_range.mpr hm) hmem

end Cells

end Grxcp.Sums
