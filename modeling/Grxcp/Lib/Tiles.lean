import Mathlib.Tactic

/-!
# Tiles

The cells of an `m x n` matrix, dealt out in patches of `rm x rn`. With `rb` rows of patches, a patch's
rows lie `rb` apart and its columns are neighbours, and what a patch has past the edge is dropped. Every
cell is in one patch, and is there once (`patches_perm`), so the patches in any order list the cells that
the columns list one after the other.
-/

namespace Grxcp.Tiles

/-- How many pieces of `r` cover `m`. -/
def blocks (m r : ℕ) : ℕ :=
  (m + r - 1) / r

theorem le_blocks_mul {m r : ℕ} (hr : 0 < r) : m ≤ r * blocks m r := by
  have hdiv := Nat.div_add_mod (m + r - 1) r
  have hmod := Nat.mod_lt (m + r - 1) hr
  unfold blocks
  omega

theorem blocks_mul_lt {m r : ℕ} (hr : 0 < r) : r * blocks m r < m + r := by
  have hdiv := Nat.div_add_mod (m + r - 1) r
  unfold blocks
  omega

theorem blocks_le {m r : ℕ} (hr : 0 < r) : blocks m r ≤ m := by
  by_contra hlt
  have hmul : r * (m + 1) ≤ r * blocks m r := Nat.mul_le_mul_left r (by omega)
  have hm : m ≤ r * m := Nat.le_mul_of_pos_left m hr
  have hbound := blocks_mul_lt (m := m) hr
  rw [Nat.mul_add] at hmul
  omega

theorem blocks_of_dvd {m r : ℕ} (hr : 0 < r) (hdvd : r ∣ m) : r * blocks m r = m := by
  obtain ⟨q, rfl⟩ := hdvd
  have hle := le_blocks_mul (m := r * q) hr
  have hlt := blocks_mul_lt (m := r * q) hr
  have hq : blocks (r * q) r = q := by
    have hge : q ≤ blocks (r * q) r := Nat.le_of_mul_le_mul_left hle hr
    have hgt : blocks (r * q) r < q + 1 := by
      apply Nat.lt_of_mul_lt_mul_left (a := r)
      rw [Nat.mul_add]
      omega
    omega
  rw [hq]

/-- The cells of a matrix, column by column. -/
def cells (m n : ℕ) : List (ℕ × ℕ) :=
  (List.range (m * n)).map fun q => (q % m, q / m)

/-- The cells of a patch that are in the matrix. -/
def patch (m n rb rm rn idx : ℕ) : List (ℕ × ℕ) :=
  ((List.range rn).filter fun j => idx / rb * rn + j < n).flatMap fun j =>
    ((List.range rm).filter fun i => idx % rb + i * rb < m).map fun i =>
      (idx % rb + i * rb, idx / rb * rn + j)

section Patches

variable {m n rb rm rn idx : ℕ}

theorem mem_cells {c : ℕ × ℕ} : c ∈ cells m n ↔ c.1 < m ∧ c.2 < n := by
  unfold cells
  rw [List.mem_map]
  constructor
  · rintro ⟨q, hq, rfl⟩
    rw [List.mem_range] at hq
    have hpos : 0 < m := by
      rcases Nat.eq_zero_or_pos m with rfl | hpos
      · rw [Nat.zero_mul] at hq
        exact absurd hq (Nat.not_lt_zero q)
      · exact hpos
    exact ⟨Nat.mod_lt q hpos, Nat.div_lt_of_lt_mul hq⟩
  · rintro ⟨hrow, hcol⟩
    have hpos : 0 < m := Nat.zero_lt_of_lt hrow
    refine ⟨c.1 + m * c.2, ?_, ?_⟩
    · rw [List.mem_range]
      calc c.1 + m * c.2 < m + m * c.2 := by omega
        _ = m * (c.2 + 1) := by ring
        _ ≤ m * n := Nat.mul_le_mul_left m hcol
    · rw [Nat.add_mul_mod_self_left, Nat.mod_eq_of_lt hrow, Nat.add_mul_div_left _ _ hpos,
        Nat.div_eq_of_lt hrow, Nat.zero_add]

theorem nodup_cells : (cells m n).Nodup := by
  unfold cells
  apply List.Nodup.map _ List.nodup_range
  intro q q' h
  have hmod : q % m = q' % m := congrArg Prod.fst h
  have hdiv : q / m = q' / m := congrArg Prod.snd h
  rw [← Nat.div_add_mod q m, ← Nat.div_add_mod q' m, hmod, hdiv]

/-- A cell is in the patch that its row and its column give. -/
theorem mem_patch (hrb : 0 < rb) (hrn : 0 < rn) {c : ℕ × ℕ} : c ∈ patch m n rb rm rn idx ↔
    c.1 < m ∧ c.2 < n ∧ c.1 % rb = idx % rb ∧ c.1 / rb < rm ∧ c.2 / rn = idx / rb := by
  unfold patch
  simp only [List.mem_flatMap, List.mem_map, List.mem_filter, List.mem_range, decide_eq_true_eq]
  constructor
  · rintro ⟨j, ⟨hj, hcol⟩, i, ⟨hi, hrow⟩, rfl⟩
    refine ⟨hrow, hcol, ?_, ?_, ?_⟩
    · rw [Nat.add_mul_mod_self_right, Nat.mod_mod]
    · rw [Nat.add_mul_div_right _ _ hrb, Nat.div_eq_of_lt (Nat.mod_lt idx hrb), Nat.zero_add]
      exact hi
    · show (idx / rb * rn + j) / rn = idx / rb
      rw [Nat.add_comm, Nat.add_mul_div_right _ _ hrn, Nat.div_eq_of_lt hj, Nat.zero_add]
  · rintro ⟨hrow, hcol, hmod, hdiv, hblock⟩
    have hcols : idx / rb * rn + c.2 % rn = c.2 := by
      rw [← hblock, Nat.mul_comm]
      exact Nat.div_add_mod c.2 rn
    have hrows : idx % rb + c.1 / rb * rb = c.1 := by
      rw [← hmod]
      exact Nat.mod_add_div' c.1 rb
    refine ⟨c.2 % rn, ⟨Nat.mod_lt _ hrn, by rwa [hcols]⟩, c.1 / rb, ⟨hdiv, by rwa [hrows]⟩, ?_⟩
    rw [hcols, hrows]

theorem nodup_patch (hrb : 0 < rb) : (patch m n rb rm rn idx).Nodup := by
  unfold patch
  rw [List.nodup_flatMap]
  refine ⟨fun j _ => ?_, ?_⟩
  · apply List.Nodup.map _ (List.nodup_range.filter _)
    intro i i' h
    have hrow : idx % rb + i * rb = idx % rb + i' * rb := congrArg Prod.fst h
    exact Nat.eq_of_mul_eq_mul_right hrb (by omega)
  · apply (List.nodup_range.filter _).imp
    intro j j' hne c hc hc'
    obtain ⟨i, -, rfl⟩ := List.mem_map.mp hc
    obtain ⟨i', -, h⟩ := List.mem_map.mp hc'
    have hcol : idx / rb * rn + j' = idx / rb * rn + j := congrArg Prod.snd h
    omega

/-- The patches list every cell, each once. -/
theorem patches_perm (hrm : 0 < rm) (hrn : 0 < rn) (hm : 0 < m) :
    ((List.range (blocks m rm * blocks n rn)).flatMap (patch m n (blocks m rm) rm rn)).Perm (cells m n) := by
  have hrb : 0 < blocks m rm := by
    have hle := le_blocks_mul (m := m) hrm
    exact Nat.pos_of_mul_pos_left (lt_of_lt_of_le hm hle)
  rw [List.perm_ext_iff_of_nodup]
  · intro c
    rw [mem_cells, List.mem_flatMap]
    constructor
    · rintro ⟨idx, -, hc⟩
      obtain ⟨hrow, hcol, -⟩ := (mem_patch hrb hrn).mp hc
      exact ⟨hrow, hcol⟩
    · rintro ⟨hrow, hcol⟩
      have hrows : c.1 / blocks m rm < rm := by
        apply Nat.div_lt_of_lt_mul
        rw [Nat.mul_comm]
        exact lt_of_lt_of_le hrow (le_blocks_mul hrm)
      have hcols : c.2 / rn < blocks n rn :=
        Nat.div_lt_of_lt_mul (lt_of_lt_of_le hcol (le_blocks_mul hrn))
      have hlt := Nat.mod_lt c.1 hrb
      refine ⟨c.1 % blocks m rm + blocks m rm * (c.2 / rn), ?_, (mem_patch hrb hrn).mpr
        ⟨hrow, hcol, ?_, hrows, ?_⟩⟩
      · rw [List.mem_range]
        calc c.1 % blocks m rm + blocks m rm * (c.2 / rn) < blocks m rm + blocks m rm * (c.2 / rn) := by omega
          _ = blocks m rm * (c.2 / rn + 1) := by ring
          _ ≤ blocks m rm * blocks n rn := Nat.mul_le_mul_left _ hcols
      · rw [Nat.add_mul_mod_self_left, Nat.mod_mod]
      · rw [Nat.add_mul_div_left _ _ hrb, Nat.div_eq_of_lt hlt, Nat.zero_add]
  · rw [List.nodup_flatMap]
    refine ⟨fun idx _ => nodup_patch hrb, ?_⟩
    apply List.nodup_range.imp
    intro idx idx' hne c hc hc'
    obtain ⟨-, -, hmod, -, hdiv⟩ := (mem_patch hrb hrn).mp hc
    obtain ⟨-, -, hmod', -, hdiv'⟩ := (mem_patch hrb hrn).mp hc'
    apply hne
    rw [← Nat.div_add_mod idx (blocks m rm), ← Nat.div_add_mod idx' (blocks m rm), ← hmod, ← hmod', ← hdiv,
      ← hdiv']
  · exact nodup_cells

/-! ## Tiles of neighbours -/

/-- The cells of tile `b` of `rm x rn` that are in the matrix, row by row, of `rb` tiles in a column. -/
def tile (m n rb rm rn b : ℕ) : List (ℕ × ℕ) :=
  ((List.range (rm * rn)).map fun idx => (b % rb * rm + idx / rn, b / rb * rn + idx % rn)).filter
    fun c => c.1 < m ∧ c.2 < n

/-- A cell is in the tile that its row and its column give. -/
theorem mem_tile (hrm : 0 < rm) (hrn : 0 < rn) {c : ℕ × ℕ} : c ∈ tile m n rb rm rn idx ↔
    c.1 < m ∧ c.2 < n ∧ c.1 / rm = idx % rb ∧ c.2 / rn = idx / rb := by
  unfold tile
  simp only [List.mem_filter, List.mem_map, List.mem_range, decide_eq_true_eq]
  constructor
  · rintro ⟨⟨i, hi, rfl⟩, hrow, hcol⟩
    refine ⟨hrow, hcol, ?_, ?_⟩
    · show (idx % rb * rm + i / rn) / rm = idx % rb
      have hdiv : i / rn < rm := Nat.div_lt_of_lt_mul (by rwa [Nat.mul_comm])
      rw [Nat.add_comm, Nat.add_mul_div_right _ _ hrm, Nat.div_eq_of_lt hdiv, Nat.zero_add]
    · show (idx / rb * rn + i % rn) / rn = idx / rb
      rw [Nat.add_comm, Nat.add_mul_div_right _ _ hrn, Nat.div_eq_of_lt (Nat.mod_lt i hrn), Nat.zero_add]
  · rintro ⟨hrow, hcol, hdiv, hdiv'⟩
    have hrowMod := Nat.mod_lt c.1 hrm
    have hcolMod := Nat.mod_lt c.2 hrn
    refine ⟨⟨c.2 % rn + rn * (c.1 % rm), ?_, ?_⟩, hrow, hcol⟩
    · calc c.2 % rn + rn * (c.1 % rm) < rn + rn * (c.1 % rm) := Nat.add_lt_add_right hcolMod _
        _ = rn * (c.1 % rm + 1) := by ring
        _ ≤ rn * rm := Nat.mul_le_mul_left rn hrowMod
        _ = rm * rn := Nat.mul_comm ..
    · rw [Nat.add_mul_div_left _ _ hrn, Nat.div_eq_of_lt hcolMod, Nat.zero_add, Nat.add_mul_mod_self_left,
        Nat.mod_mod, ← hdiv, ← hdiv', Nat.div_add_mod', Nat.div_add_mod']

theorem nodup_tile : (tile m n rb rm rn idx).Nodup := by
  unfold tile
  apply List.Nodup.filter
  apply List.Nodup.map _ List.nodup_range
  intro i i' h
  have hrow : idx % rb * rm + i / rn = idx % rb * rm + i' / rn := congrArg Prod.fst h
  have hcol : idx / rb * rn + i % rn = idx / rb * rn + i' % rn := congrArg Prod.snd h
  rw [← Nat.div_add_mod i rn, ← Nat.div_add_mod i' rn, Nat.add_left_cancel hrow, Nat.add_left_cancel hcol]

/-- The tiles list every cell, each once. -/
theorem tiles_perm (hrm : 0 < rm) (hrn : 0 < rn) :
    ((List.range (blocks m rm * blocks n rn)).flatMap (tile m n (blocks m rm) rm rn)).Perm (cells m n) := by
  rw [List.perm_ext_iff_of_nodup]
  · intro c
    rw [mem_cells, List.mem_flatMap]
    constructor
    · rintro ⟨b, -, hc⟩
      obtain ⟨hrow, hcol, -⟩ := (mem_tile hrm hrn).mp hc
      exact ⟨hrow, hcol⟩
    · rintro ⟨hrow, hcol⟩
      have hrows : c.1 / rm < blocks m rm := Nat.div_lt_of_lt_mul (lt_of_lt_of_le hrow (le_blocks_mul hrm))
      have hcols : c.2 / rn < blocks n rn := Nat.div_lt_of_lt_mul (lt_of_lt_of_le hcol (le_blocks_mul hrn))
      refine ⟨c.1 / rm + blocks m rm * (c.2 / rn), ?_, (mem_tile hrm hrn).mpr ⟨hrow, hcol, ?_, ?_⟩⟩
      · rw [List.mem_range]
        calc c.1 / rm + blocks m rm * (c.2 / rn) < blocks m rm + blocks m rm * (c.2 / rn) :=
              Nat.add_lt_add_right hrows _
          _ = blocks m rm * (c.2 / rn + 1) := by ring
          _ ≤ blocks m rm * blocks n rn := Nat.mul_le_mul_left _ hcols
      · rw [Nat.add_mul_mod_self_left, Nat.mod_eq_of_lt hrows]
      · rw [Nat.add_mul_div_left _ _ (Nat.zero_lt_of_lt hrows), Nat.div_eq_of_lt hrows, Nat.zero_add]
  · rw [List.nodup_flatMap]
    refine ⟨fun b _ => nodup_tile, ?_⟩
    apply List.nodup_range.imp
    intro b b' hne c hc hc'
    obtain ⟨-, -, hmod, hdiv⟩ := (mem_tile hrm hrn).mp hc
    obtain ⟨-, -, hmod', hdiv'⟩ := (mem_tile hrm hrn).mp hc'
    apply hne
    rw [← Nat.div_add_mod b (blocks m rm), ← Nat.div_add_mod b' (blocks m rm), ← hmod, ← hmod', ← hdiv, ← hdiv']
  · exact nodup_cells

end Patches

/-! ## Threads -/

/-- The threads of a launch, by their index: block by block, they count up. -/
theorem flatMap_blocks (grid block : ℕ) :
    ((List.range grid).flatMap fun b => (List.range block).map fun t => b * block + t) =
      List.range (grid * block) := by
  induction grid with
  | zero => rw [Nat.zero_mul]; rfl
  | succ grid ih =>
    rw [List.range_succ, List.flatMap_append, ih, List.flatMap_singleton, Nat.add_mul, Nat.one_mul,
      List.range_add]

/-- What is guarded is what passes the guard. -/
theorem flatMap_ite {α β : Type*} (p : α → Prop) [DecidablePred p] (f : α → List β) (l : List α) :
    (l.flatMap fun x => if p x then f x else []) = (l.filter (p ·)).flatMap f := by
  induction l with
  | nil => rfl
  | cons x l ih =>
    rw [List.flatMap_cons, ih, List.filter_cons]
    by_cases hx : p x
    · rw [if_pos hx, if_pos (decide_eq_true hx), List.flatMap_cons]
    · rw [if_neg hx, if_neg (mt of_decide_eq_true hx), List.nil_append]

/-- What the indices past the work do not add. -/
theorem flatMap_range_of_le {α : Type*} {f : ℕ → List α} {work threads : ℕ} (hle : work ≤ threads)
    (hidle : ∀ i, work ≤ i → i < threads → f i = []) :
    (List.range threads).flatMap f = (List.range work).flatMap f := by
  obtain ⟨extra, rfl⟩ := Nat.exists_eq_add_of_le hle
  rw [List.range_add, List.flatMap_append]
  have hnone : ((List.range extra).map (work + ·)).flatMap f = [] := by
    rw [List.flatMap_eq_nil_iff]
    intro i hi
    obtain ⟨e, he, rfl⟩ := List.mem_map.mp hi
    rw [List.mem_range] at he
    exact hidle _ (by omega) (by omega)
  rw [hnone, List.append_nil]

/-! ## Pieces -/

/-- A sum, piece by piece: the pieces start `r` apart, and the last one is what is left. -/
theorem sum_pieces {M : Type*} [AddCommMonoid M] (f : ℕ → M) {m r : ℕ} (hr : 0 < r) :
    ((List.range' 0 (blocks m r) r).map fun b => ∑ j ∈ Finset.range (min (m - b) r), f (b + j)).sum =
      ∑ i ∈ Finset.range m, f i := by
  have hfirst : ∀ q, ((List.range' 0 q r).map fun b => ∑ j ∈ Finset.range (min (m - b) r), f (b + j)).sum =
      ∑ i ∈ Finset.range (min m (r * q)), f i := by
    intro q
    induction q with
    | zero => simp
    | succ q ih =>
      rw [List.range'_concat, List.map_append, List.sum_append, ih]
      simp only [List.map_cons, List.map_nil, List.sum_cons, List.sum_nil, add_zero, zero_add]
      rcases le_or_gt m (r * q) with hle | hlt
      · -- the piece is past the end
        rw [Nat.sub_eq_zero_of_le hle, Nat.zero_min, Finset.sum_range_zero, add_zero, min_eq_left hle,
          min_eq_left (hle.trans (Nat.mul_le_mul_left r (Nat.le_succ q)))]
      · rw [min_eq_right hlt.le, ← Finset.sum_range_add]
        congr 2
        rw [Nat.mul_succ]
        omega
  rw [hfirst, min_eq_left (le_blocks_mul hr)]

end Grxcp.Tiles
