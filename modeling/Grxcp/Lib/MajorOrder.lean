import Mathlib.Tactic
import Mathlib.LinearAlgebra.Matrix.Notation

/-!
# Column-major and row-major

A matrix is stored column by column, or row by row, at a stride. The cells of the one order read in the
other are the transpose, so an engine that multiplies in the one order multiplies in the other when it is
given its operands, and their dimensions, crossed (`columns_mul`).
-/

namespace Grxcp.MajorOrder

variable {R : Type*}

/-- The `m x n` matrix that is stored column by column. -/
def columns (m n : ℕ) (cell : ℕ → R) (ld : ℕ) : Matrix (Fin m) (Fin n) R :=
  Matrix.of fun i j => cell (i + j * ld)

/-- The `m x n` matrix that is stored row by row. -/
def rows (m n : ℕ) (cell : ℕ → R) (ld : ℕ) : Matrix (Fin m) (Fin n) R :=
  Matrix.of fun i j => cell (i * ld + j)

theorem columns_apply {m n : ℕ} (cell : ℕ → R) (ld : ℕ) (i : Fin m) (j : Fin n) :
    columns m n cell ld i j = cell (i + j * ld) := rfl

theorem rows_apply {m n : ℕ} (cell : ℕ → R) (ld : ℕ) (i : Fin m) (j : Fin n) :
    rows m n cell ld i j = cell (i * ld + j) := rfl

/-- What is stored column by column, read row by row. -/
theorem transpose_rows (m n : ℕ) (cell : ℕ → R) (ld : ℕ) :
    (rows n m cell ld).transpose = columns m n cell ld := by
  ext i j
  rw [Matrix.transpose_apply, rows_apply, columns_apply, Nat.add_comm]

/-- The product of two matrices stored column by column is what is stored row by row by the product of
the second with the first. -/
theorem columns_mul [CommSemiring R] (m n k : ℕ) (a b : ℕ → R) (lda ldb : ℕ) :
    columns m k a lda * columns k n b ldb = (rows n k b ldb * rows k m a lda).transpose := by
  rw [Matrix.transpose_mul, transpose_rows, transpose_rows]

/-- A cell of a matrix is among the cells that are stored. -/
theorem cell_lt {m n : ℕ} (i : Fin m) (j : Fin n) : i.val * n + j.val < m * n :=
  calc i.val * n + j.val < i.val * n + n := by omega
    _ = (i.val + 1) * n := by ring
    _ ≤ m * n := Nat.mul_le_mul_right n i.isLt

/-- A product reads the cells below its dimensions. -/
theorem rows_mul_congr [CommSemiring R] {m n k : ℕ} {a a' b b' : ℕ → R}
    (ha : ∀ q < m * k, a q = a' q) (hb : ∀ q < k * n, b q = b' q) :
    rows m k a k * rows k n b n = rows m k a' k * rows k n b' n := by
  have hrows : ∀ {m n : ℕ} {f g : ℕ → R}, (∀ q < m * n, f q = g q) → rows m n f n = rows m n g n := by
    intro m n f g hfg
    ext i j
    rw [rows_apply, rows_apply]
    exact hfg _ (cell_lt i j)
  rw [hrows ha, hrows hb]

/-- The cells of a product of matrices that are stored row by row. -/
def productCells [CommSemiring R] (m n k : ℕ) (a b : ℕ → R) : List R :=
  (List.range (m * n)).map fun q => ∑ p ∈ Finset.range k, a (q / n * k + p) * b (p * n + q % n)

theorem productCells_getElem? [CommSemiring R] {m n k : ℕ} (a b : ℕ → R) (i : Fin m) (j : Fin n) :
    (productCells m n k a b)[i.val * n + j.val]? = some ((rows m k a k * rows k n b n) i j) := by
  have hpos : 0 < n := j.pos
  have hrow : (i.val * n + j.val) / n = i.val := by
    rw [Nat.mul_comm, Nat.mul_add_div hpos, Nat.div_eq_of_lt j.isLt, Nat.add_zero]
  have hcol : (i.val * n + j.val) % n = j.val := by
    rw [Nat.mul_add_mod_self_right, Nat.mod_eq_of_lt j.isLt]
  unfold productCells
  rw [List.getElem?_map, List.getElem?_range (cell_lt i j), Option.map_some, Matrix.mul_apply,
    ← Fin.sum_univ_eq_sum_range, hrow, hcol]
  rfl

end Grxcp.MajorOrder
