import Grxcp.Libs.GemmLayout
import Grxcp.Npu.Shim

/-!
# The exact GEMM of the register model

The loop stores each cell before it computes the next. Where the result's window is apart from those of
the operands no cell is read again, and what the loop leaves is the memory with the product in that window
and every other byte as it was (`loop_eq`). The bounds check of a start sees to it that the windows are in
the memory, as long as the sizes that it computes have not wrapped (`Sized`).
-/

namespace Grxcp.NpuDpi

open Blas (Bytes int8At writeWords int32At)
open MajorOrder (productCells)

/-! ## Words in memory -/

/-- A word is written where it does not wrap. -/
theorem putWord_eq (mem : Bytes) {a : U32} (ha : a.toNat + 4 ≤ 2 ^ 32) (v : U32) :
    Shim.putWord mem a v = writeWords mem a.toNat [v] := by
  have haddr : ∀ t < 4, (a + BitVec.ofNat 32 t).toNat = a.toNat + t := by
    intro t ht
    rw [BitVec.toNat_add, BitVec.toNat_ofNat]
    omega
  have hsteps : ∀ t ≤ 4, (List.range t).foldl (fun mem t =>
      Function.update mem (a + BitVec.ofNat 32 t).toNat (UInt8.ofNat (v.toNat / 2 ^ (8 * t)))) mem =
        fun x => if a.toNat ≤ x ∧ x < a.toNat + t then UInt8.ofNat (v.toNat / 2 ^ (8 * (x - a.toNat))) else mem x := by
    intro t
    induction t with
    | zero =>
      intro _
      funext x
      rw [if_neg (by omega)]
      rfl
    | succ t ih =>
      intro ht
      rw [List.range_succ, List.foldl_append, ih (by omega), List.foldl_cons, List.foldl_nil, haddr t (by omega)]
      funext x
      by_cases hx : x = a.toNat + t
      · subst hx
        rw [Function.update_self, if_pos ⟨by omega, by omega⟩, Nat.add_sub_cancel_left]
      · rw [Function.update_of_ne hx]
        by_cases hin : a.toNat ≤ x ∧ x < a.toNat + t
        · rw [if_pos hin, if_pos ⟨hin.1, by omega⟩]
        · rw [if_neg hin, if_neg (by omega)]
  unfold Shim.putWord
  rw [hsteps 4 le_rfl]
  funext x
  unfold writeWords
  rw [List.length_singleton]
  by_cases hin : a.toNat ≤ x ∧ x < a.toNat + 4
  · have hindex : (x - a.toNat) / 4 = 0 := by omega
    have hoffset : (x - a.toNat) % 4 = x - a.toNat := by omega
    rw [if_pos hin, if_pos ⟨hin.1, by omega⟩, hindex, hoffset]
    rfl
  · rw [if_neg hin, if_neg (by omega)]

/-- A word more. -/
theorem writeWords_concat (mem : Bytes) (a : ℕ) (ws : List U32) (v : U32) :
    writeWords (writeWords mem a ws) (a + 4 * ws.length) [v] = writeWords mem a (ws ++ [v]) := by
  funext x
  unfold writeWords
  rw [List.length_append, List.length_singleton]
  by_cases hlast : a + 4 * ws.length ≤ x ∧ x < a + 4 * ws.length + 4 * 1
  · have hindex : (x - a) / 4 = ws.length := by omega
    have hzero : (x - (a + 4 * ws.length)) / 4 = 0 := by omega
    have hoffset : (x - (a + 4 * ws.length)) % 4 = (x - a) % 4 := by omega
    rw [if_pos hlast, if_pos ⟨by omega, by omega⟩, hindex, hzero, hoffset]
    simp
  · rw [if_neg hlast]
    by_cases hin : a ≤ x ∧ x < a + 4 * ws.length
    · rw [if_pos hin, if_pos ⟨hin.1, by omega⟩]
      congr 3
      rw [List.getD_append _ _ _ _ (by omega)]
    · rw [if_neg hin, if_neg (by omega)]

/-- Outside the words nothing is written. -/
theorem writeWords_of_outside (mem : Bytes) {a x : ℕ} {ws : List U32} (h : ¬(a ≤ x ∧ x < a + 4 * ws.length)) :
    writeWords mem a ws x = mem x :=
  if_neg h

/-! ## Operands -/

/-- How many bytes the first `n` elements of a matrix take. -/
def extent (prec : U32) (n : ℕ) : ℕ :=
  if prec = precInt16 then 2 * n else if prec = precInt4 then (n + 1) / 2 else n

/-- An operand reads the bytes that it takes. -/
theorem operand_congr {mem mem' : Bytes} {prec base : U32} {i n : ℕ} (hi : i < n)
    (hbase : base.toNat + extent prec n ≤ 2 ^ 32) (hn : n < 2 ^ 31)
    (h : ∀ x, base.toNat ≤ x → x < base.toNat + extent prec n → mem x = mem' x) :
    Shim.operand mem prec base (BitVec.ofNat 32 i) = Shim.operand mem' prec base (BitVec.ofNat 32 i) := by
  unfold extent at hbase h
  unfold Shim.operand
  dsimp only
  by_cases h16 : prec = precInt16
  · rw [if_pos h16, if_pos h16]
    rw [if_pos h16] at hbase h
    have hoff : (base + BitVec.ofNat 32 i * 2).toNat = base.toNat + 2 * i := by
      rw [BitVec.toNat_add, BitVec.toNat_mul, BitVec.toNat_ofNat, show (2 : U32).toNat = 2 from rfl]
      omega
    have hoff1 : (base + BitVec.ofNat 32 i * 2 + 1).toNat = base.toNat + 2 * i + 1 := by
      rw [BitVec.toNat_add, hoff, show (1 : U32).toNat = 1 from rfl]
      omega
    rw [hoff, hoff1, h _ (by omega) (by omega), h _ (by omega) (by omega)]
  rw [if_neg h16, if_neg h16]
  rw [if_neg h16] at hbase h
  by_cases h4 : prec = precInt4
  · rw [if_pos h4, if_pos h4]
    rw [if_pos h4] at hbase h
    have hoff : (base + BitVec.ofNat 32 i / 2).toNat = base.toNat + i / 2 := by
      rw [BitVec.toNat_add, BitVec.toNat_udiv, BitVec.toNat_ofNat, show (2 : U32).toNat = 2 from rfl]
      omega
    rw [hoff, h _ (by omega) (by omega)]
  · rw [if_neg h4, if_neg h4]
    rw [if_neg h4] at hbase h
    have hoff : (base + BitVec.ofNat 32 i).toNat = base.toNat + i := by
      rw [BitVec.toNat_add, BitVec.toNat_ofNat]
      omega
    unfold int8At
    rw [hoff, h _ (by omega) (by omega)]

/-! ## The loop -/

namespace Shim

variable {s : Shim}

/-- The windows of a GEMM: the sizes have not wrapped, and all three are in the memory. -/
structure Sized (s : Shim) : Prop where
  inner : s.dimM.toNat * s.dimK.toNat < 2 ^ 31
  outer : s.dimK.toNat * s.dimN.toNat < 2 ^ 31
  a : s.aBase.toNat + extent s.prec (s.dimM.toNat * s.dimK.toNat) ≤ ddrSize.toNat
  b : s.bBase.toNat + extent s.prec (s.dimK.toNat * s.dimN.toNat) ≤ ddrSize.toNat
  c : s.cBase.toNat + 4 * (s.dimM.toNat * s.dimN.toNat) ≤ ddrSize.toNat

/-- The result's window, of so many bytes from the base on. -/
def InResult (s : Shim) (x : ℕ) : Prop :=
  s.cBase.toNat ≤ x ∧ x < s.cBase.toNat + 4 * (s.dimM.toNat * s.dimN.toNat)

/-- The result's window is apart from the operands'. -/
structure Apart (s : Shim) : Prop where
  a : ∀ x, s.aBase.toNat ≤ x → x < s.aBase.toNat + extent s.prec (s.dimM.toNat * s.dimK.toNat) → ¬s.InResult x
  b : ∀ x, s.bBase.toNat ≤ x → x < s.bBase.toNat + extent s.prec (s.dimK.toNat * s.dimN.toNat) → ¬s.InResult x

/-- The cells of the product of what the memory holds. -/
def product (s : Shim) : List U32 :=
  (productCells s.dimM.toNat s.dimN.toNat s.dimK.toNat
    (fun q => operand s.ddr s.prec s.aBase (BitVec.ofNat 32 q))
    (fun q => operand s.ddr s.prec s.bBase (BitVec.ofNat 32 q))).map (BitVec.ofInt 32)

theorem index_eq (i j : ℕ) (n : U32) :
    BitVec.ofNat 32 i * n + BitVec.ofNat 32 j = BitVec.ofNat 32 (i * n.toNat + j) := by
  rw [BitVec.ofNat_add, BitVec.ofNat_mul, BitVec.ofNat_toNat, BitVec.setWidth_eq]

/-- A cell of the product, from a memory that has the operands. -/
theorem dot_eq (hs : s.Sized) {mem : Bytes} {i j : ℕ} (hi : i < s.dimM.toNat) (hj : j < s.dimN.toNat)
    (ha : ∀ x, s.aBase.toNat ≤ x → x < s.aBase.toNat + extent s.prec (s.dimM.toNat * s.dimK.toNat) →
      mem x = s.ddr x)
    (hb : ∀ x, s.bBase.toNat ≤ x → x < s.bBase.toNat + extent s.prec (s.dimK.toNat * s.dimN.toNat) →
      mem x = s.ddr x) :
    s.dot mem (BitVec.ofNat 32 i) (BitVec.ofNat 32 j) = BitVec.ofInt 32 (∑ p ∈ Finset.range s.dimK.toNat,
      operand s.ddr s.prec s.aBase (BitVec.ofNat 32 (i * s.dimK.toNat + p)) *
        operand s.ddr s.prec s.bBase (BitVec.ofNat 32 (p * s.dimN.toNat + j))) := by
  have hsize : ddrSize.toNat = 65536 := rfl
  have hrun : ∀ k ≤ s.dimK.toNat, (List.range k).foldl (fun sum p =>
      sum + BitVec.ofInt 32 (operand mem s.prec s.aBase (BitVec.ofNat 32 i * s.dimK + BitVec.ofNat 32 p) *
        operand mem s.prec s.bBase (BitVec.ofNat 32 p * s.dimN + BitVec.ofNat 32 j))) 0 =
      BitVec.ofInt 32 (∑ p ∈ Finset.range k,
        operand s.ddr s.prec s.aBase (BitVec.ofNat 32 (i * s.dimK.toNat + p)) *
          operand s.ddr s.prec s.bBase (BitVec.ofNat 32 (p * s.dimN.toNat + j))) := by
    intro k
    induction k with
    | zero => exact fun _ => rfl
    | succ k ih =>
      intro hk
      have hrow : i * s.dimK.toNat + k < s.dimM.toNat * s.dimK.toNat := by nlinarith
      have hcol : k * s.dimN.toNat + j < s.dimK.toNat * s.dimN.toNat := by nlinarith
      have hsa := hs.a
      have hsb := hs.b
      rw [List.range_succ, List.foldl_append, ih (by omega), Finset.sum_range_succ, BitVec.ofInt_add,
        List.foldl_cons, List.foldl_nil, index_eq, index_eq,
        operand_congr hrow (by omega) hs.inner ha, operand_congr hcol (by omega) hs.outer hb]
  exact hrun _ le_rfl

/-- The loop leaves the product in the result's window, and the rest of the memory as it was. -/
theorem loop_eq (hs : s.Sized) (hap : s.Apart) : s.loop = writeWords s.ddr s.cBase.toNat s.product := by
  have hsize : ddrSize.toNat = 65536 := rfl
  -- the words that the first `q` cells have stored
  let words := fun q => (List.range q).map fun q => BitVec.ofInt 32 (∑ p ∈ Finset.range s.dimK.toNat,
    operand s.ddr s.prec s.aBase (BitVec.ofNat 32 (q / s.dimN.toNat * s.dimK.toNat + p)) *
      operand s.ddr s.prec s.bBase (BitVec.ofNat 32 (p * s.dimN.toNat + q % s.dimN.toNat)))
  have hlen : ∀ q, (words q).length = q := fun q => by rw [List.length_map, List.length_range]
  have hcell : ∀ i < s.dimM.toNat, ∀ j < s.dimN.toNat,
      s.cell (BitVec.ofNat 32 i) (writeWords s.ddr s.cBase.toNat (words (i * s.dimN.toNat + j))) j =
        writeWords s.ddr s.cBase.toNat (words (i * s.dimN.toNat + j + 1)) := by
    intro i hi j hj
    have hq : i * s.dimN.toNat + j < s.dimM.toNat * s.dimN.toNat := by nlinarith
    have hc := hs.c
    have hkeep : ∀ x, ¬s.InResult x →
        writeWords s.ddr s.cBase.toNat (words (i * s.dimN.toNat + j)) x = s.ddr x := by
      intro x hx
      refine writeWords_of_outside _ fun hin => hx ⟨hin.1, ?_⟩
      rw [hlen] at hin
      omega
    have haddr : (s.cBase + BitVec.ofNat 32 (i * s.dimN.toNat + j) * 4).toNat =
        s.cBase.toNat + 4 * (words (i * s.dimN.toNat + j)).length := by
      rw [hlen, BitVec.toNat_add, BitVec.toNat_mul, BitVec.toNat_ofNat, show (4 : U32).toNat = 4 from rfl]
      omega
    unfold cell
    rw [dot_eq hs hi hj (fun x hlo hhi => hkeep x (hap.a x hlo hhi)) (fun x hlo hhi => hkeep x (hap.b x hlo hhi)),
      index_eq, putWord_eq _ (by rw [haddr, hlen]; omega), haddr, writeWords_concat]
    congr 1
    have hpos : 0 < s.dimN.toNat := by omega
    have hrow : (i * s.dimN.toNat + j) / s.dimN.toNat = i := by
      rw [Nat.mul_comm, Nat.mul_add_div hpos, Nat.div_eq_of_lt hj, Nat.add_zero]
    have hcol : (i * s.dimN.toNat + j) % s.dimN.toNat = j := by
      rw [Nat.mul_add_mod_self_right, Nat.mod_eq_of_lt hj]
    dsimp only [words]
    rw [List.range_succ, List.map_append, List.map_singleton, hrow, hcol]
  have hrow : ∀ i < s.dimM.toNat, ∀ n ≤ s.dimN.toNat,
      (List.range n).foldl (s.cell (BitVec.ofNat 32 i))
        (writeWords s.ddr s.cBase.toNat (words (i * s.dimN.toNat))) =
          writeWords s.ddr s.cBase.toNat (words (i * s.dimN.toNat + n)) := by
    intro i hi n
    induction n with
    | zero => exact fun _ => rfl
    | succ n ih =>
      intro hn
      rw [List.range_succ, List.foldl_append, ih (by omega)]
      exact hcell i hi n (by omega)
  have hall : ∀ m ≤ s.dimM.toNat,
      (List.range m).foldl (fun mem i => (List.range s.dimN.toNat).foldl (s.cell (BitVec.ofNat 32 i)) mem) s.ddr =
        writeWords s.ddr s.cBase.toNat (words (m * s.dimN.toNat)) := by
    intro m
    induction m with
    | zero =>
      intro _
      funext x
      rw [Nat.zero_mul]
      exact (writeWords_of_outside s.ddr fun hin => by rw [hlen] at hin; omega).symm
    | succ m ih =>
      intro hm
      rw [List.range_succ, List.foldl_append, ih (by omega), Nat.succ_mul]
      exact hrow m (by omega) _ le_rfl
  unfold loop
  rw [hall _ le_rfl]
  congr 1
  unfold product productCells
  rw [List.map_map]
  rfl

theorem product_length (s : Shim) : s.product.length = s.dimM.toNat * s.dimN.toNat := by
  rw [product, List.length_map, productCells, List.length_map, List.length_range]

/-- What a cell stores is in the result's window, wherever the operands are. -/
theorem loop_frame (hs : s.Sized) {x : ℕ} (hx : ¬s.InResult x) : s.loop x = s.ddr x := by
  have hsize : ddrSize.toNat = 65536 := rfl
  have hcell : ∀ i < s.dimM.toNat, ∀ j < s.dimN.toNat, ∀ mem : Bytes,
      s.cell (BitVec.ofNat 32 i) mem j x = mem x := by
    intro i hi j hj mem
    have hq : i * s.dimN.toNat + j < s.dimM.toNat * s.dimN.toNat := by nlinarith
    have hc := hs.c
    have haddr : (s.cBase + BitVec.ofNat 32 (i * s.dimN.toNat + j) * 4).toNat =
        s.cBase.toNat + 4 * (i * s.dimN.toNat + j) := by
      rw [BitVec.toNat_add, BitVec.toNat_mul, BitVec.toNat_ofNat, show (4 : U32).toNat = 4 from rfl]
      omega
    unfold cell
    rw [index_eq, putWord_eq _ (by rw [haddr]; omega), haddr]
    refine writeWords_of_outside _ fun hin => hx ⟨by omega, ?_⟩
    rw [List.length_singleton] at hin
    omega
  have hrow : ∀ i < s.dimM.toNat, ∀ n ≤ s.dimN.toNat, ∀ mem : Bytes,
      (List.range n).foldl (s.cell (BitVec.ofNat 32 i)) mem x = mem x := by
    intro i hi n
    induction n with
    | zero => exact fun _ _ => rfl
    | succ n ih =>
      intro hn mem
      rw [List.range_succ, List.foldl_append, List.foldl_cons, List.foldl_nil, hcell i hi n (by omega),
        ih (by omega)]
  have hall : ∀ m ≤ s.dimM.toNat, (List.range m).foldl
      (fun mem i => (List.range s.dimN.toNat).foldl (s.cell (BitVec.ofNat 32 i)) mem) s.ddr x = s.ddr x := by
    intro m
    induction m with
    | zero => exact fun _ => rfl
    | succ m ih =>
      intro hm
      rw [List.range_succ, List.foldl_append, List.foldl_cons, List.foldl_nil, hrow m (by omega) _ le_rfl,
        ih (by omega)]
  exact hall _ le_rfl

/-! ## The bounds check -/

/-- The sizes that the bounds check computes have not wrapped. -/
structure Unwrapped (s : Shim) : Prop where
  inner : s.dimM.toNat * s.dimK.toNat < 2 ^ 31
  outer : s.dimK.toNat * s.dimN.toNat < 2 ^ 31
  result : s.dimM.toNat * s.dimN.toNat < 2 ^ 30

theorem size_toNat {x y : U32} {n : ℕ} (h : x.toNat * y.toNat = n) (hn : n < 2 ^ 31) :
    (if s.prec = precInt4 then (x * y + 1) / 2 else if s.prec = precInt8 then x * y else x * y * 2).toNat =
      if s.prec = precInt4 then (n + 1) / 2 else if s.prec = precInt8 then n else 2 * n := by
  have hxy : (x * y).toNat = n := by
    rw [BitVec.toNat_mul, h]
    omega
  split
  · rw [BitVec.toNat_udiv, BitVec.toNat_add, hxy, show (1 : U32).toNat = 1 from rfl,
      show (2 : U32).toNat = 2 from rfl]
    omega
  · split
    · exact hxy
    · rw [BitVec.toNat_mul, hxy, show (2 : U32).toNat = 2 from rfl]
      omega

/-- What is read of a matrix is no more than what the check allows it. -/
theorem extent_le (prec : U32) (n : ℕ) :
    extent prec n ≤ if prec = precInt4 then (n + 1) / 2 else if prec = precInt8 then n else 2 * n := by
  unfold extent
  by_cases h16 : prec = precInt16
  · subst h16
    rw [if_pos rfl, if_neg (by decide), if_neg (by decide)]
  · rw [if_neg h16]
    split
    · exact le_rfl
    · split <;> omega

/-- A window that the check takes is in the memory. -/
theorem window_le {base size : U32} (hbase : ¬base ≥ ddrSize) (hsize : ¬size > ddrSize - base) :
    base.toNat + size.toNat ≤ ddrSize.toNat := by
  rw [ge_iff_le, BitVec.le_def, not_le] at hbase
  rw [gt_iff_lt, BitVec.lt_def, not_lt, BitVec.toNat_sub_of_le (BitVec.le_def.mpr hbase.le)] at hsize
  omega

theorem Unwrapped.sized (h : s.Unwrapped) (hin : s.outside = false) : s.Sized := by
  unfold outside at hin
  simp only [decide_eq_false_iff_not, not_or] at hin
  obtain ⟨ha, hasz, hb, hbsz, hc, hcsz⟩ := hin
  have hwa := window_le ha hasz
  have hwb := window_le hb hbsz
  have hwc := window_le hc hcsz
  have hcz : s.cSize.toNat = 4 * (s.dimM.toNat * s.dimN.toNat) := by
    have hmn := h.result
    unfold cSize
    rw [BitVec.toNat_mul, BitVec.toNat_mul, show (4 : U32).toNat = 4 from rfl]
    omega
  rw [aSize, size_toNat rfl h.inner] at hwa
  rw [bSize, size_toNat rfl h.outer] at hwb
  rw [hcz] at hwc
  exact ⟨h.inner, h.outer, (Nat.add_le_add_left (extent_le _ _) _).trans hwa,
    (Nat.add_le_add_left (extent_le _ _) _).trans hwb, hwc⟩

/-- A start that is taken. -/
structure Accepted (s : Shim) : Prop where
  idle : s.busy = false
  m : s.dimM ≠ 0
  n : s.dimN ≠ 0
  k : s.dimK ≠ 0
  allowed : s.refused = false
  inside : s.outside = false

/-- The state that a GEMM is computed in. -/
def cleared (s : Shim) : Shim :=
  { s with doneLatch := false, error := false, satCt := 0 }

theorem Accepted.start_eq (h : s.Accepted) : s.start =
    if s.tile = true ∧ s.impair ≠ 0 then
      if s.cleared.gemmTile.2 then (s.cleared.gemmTile.1.launched, true)
      else ({ s.cleared.gemmTile.1 with error := true }, false)
    else (launched { s.cleared with ddr := s.loop }, true) := by
  have hdims : ¬(s.dimM = 0 ∨ s.dimN = 0 ∨ s.dimK = 0) := by
    rintro (h0 | h0 | h0)
    · exact h.m h0
    · exact h.n h0
    · exact h.k h0
  have hidle : ¬s.busy = true := by
    rw [h.idle]
    exact Bool.false_ne_true
  have hcleared : ({ s with doneLatch := false, error := false, satCt := 0 } : Shim) = s.cleared := rfl
  unfold start
  dsimp only
  rw [if_neg hidle]
  change (if s.dimM = 0 ∨ s.dimN = 0 ∨ s.dimK = 0 then _ else if s.refused = true then _
    else if s.outside = true then _ else _) = _
  rw [if_neg hdims, h.allowed, if_neg Bool.false_ne_true, h.inside, if_neg Bool.false_ne_true]
  by_cases hon : s.tile = true ∧ s.impair ≠ 0
  · rw [if_pos hon, if_pos hon, hcleared]
    cases s.cleared.gemmTile with
    | mk x ok => cases ok <;> rfl
  · rw [if_neg hon, if_neg hon]
    rfl

/-- A write of `CTRL.START` is stored if the start lets it. -/
theorem csrWrite_start (s : Shim) :
    s.csrWrite 0x40000000 1 = if s.start.2 then s.start.1.setCsr 0 1 else s.start.1 := by
  have hpta : s.ptaCsrWrite 0x40000000 1 = none := rfl
  unfold csrWrite
  rw [hpta]
  dsimp only
  rw [if_neg (by decide), if_pos ⟨by decide, by decide⟩]
  cases s.start with
  | mk x ok => cases ok <;> rfl

end Shim

end Grxcp.NpuDpi
