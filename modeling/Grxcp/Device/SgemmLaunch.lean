import Grxcp.Device.SgemmTiles

/-!
# The blocked kernels and the plain one

The patches of a launch are the elements of `C`, so a launch of a blocked kernel stores what a launch of
the plain kernel stores, each element once (`blocked_refines`). In whatever order the stores are made, `C`
is then the same (`blocked_memory`).
-/

namespace Grxcp.Sgemm

/-- A blocked kernel: `sgemm_rb`, or a micro tile. -/
inductive Shape where
  | rb (RM : UInt32)
  | micro (RM RN : UInt32) (INTERIOR : Bool)

def Shape.rows : Shape → UInt32
  | rb RM => RM
  | micro RM _ _ => RM

def Shape.cols : Shape → UInt32
  | rb _ => 1
  | micro _ RN _ => RN

def Shape.kernel {F : Type} (f : Arith F) (A B : ℤ → F) (x : SgemmArgs F) : Shape → Thread → Trace F
  | rb RM => sgemmRb f A B x RM
  | micro RM RN INTERIOR => microTile f A B x RM RN INTERIOR

/-- How many tiles cover `C`. -/
def Shape.tiles {F : Type} (x : SgemmArgs F) (s : Shape) : ℕ :=
  Tiles.blocks x.m.toNat s.rows.toNat * Tiles.blocks x.n.toNat s.cols.toNat

/-- The shape is one, and the tiles of an interior kernel have no edge. -/
structure Shape.Fits {F : Type} (x : SgemmArgs F) (s : Shape) : Prop where
  rows : 1 ≤ s.rows.toNat
  cols : 1 ≤ s.cols.toNat
  interior : ∀ RM RN, s = .micro RM RN true → RM.toNat ∣ x.m.toNat ∧ RN.toNat ∣ x.n.toNat

/-- The padded sizes, which the counts of tiles are taken from, are below `2 ^ 32`. -/
structure Shape.Padded {F : Type} (x : SgemmArgs F) (s : Shape) : Prop where
  rows : x.m.toNat + s.rows.toNat - 1 < 2 ^ 32
  cols : x.n.toNat + s.cols.toNat - 1 < 2 ^ 32

/-- A grid with a thread for each piece of work. -/
def Grid.Covers (g : Grid) (work : ℕ) : Prop :=
  work ≤ g.x.toNat * g.block.toNat

/-- A grid whose threads have an index each. -/
def Grid.Indexed (g : Grid) : Prop :=
  g.x.toNat * g.block.toNat ≤ 2 ^ 32

section Launches

variable {F : Type} {f : Arith F} {A B : ℤ → F} {x : SgemmArgs F} {g : Grid} {batch : UInt32}

theorem Grid.batch_of_mem {t : Thread} (ht : t ∈ g.threads batch) : t.blockIdxY = batch := by
  obtain ⟨b, -, ht⟩ := List.mem_flatMap.mp ht
  obtain ⟨i, -, rfl⟩ := List.mem_map.mp ht
  rfl

/-- What a launch stores, block by block. -/
theorem Grid.stores_eq_flatMap (g : Grid) (kernel : Thread → Trace F) (batch : UInt32) :
    g.stores kernel batch = (List.range g.x.toNat).flatMap fun b => (List.range g.block.toNat).flatMap fun t =>
      (kernel ⟨UInt32.ofNat b, batch, g.block, UInt32.ofNat t⟩).stores := by
  unfold Grid.stores Grid.threads
  rw [List.flatMap_assoc]
  apply List.flatMap_congr
  intro b _
  rw [List.flatMap_map]

/-- The threads of a batch element have the indices from zero on, each once. -/
theorem Grid.map_idx (hg : g.Indexed) :
    (g.threads batch).map (fun t => t.idx.toNat) = List.range (g.x.toNat * g.block.toNat) := by
  unfold Grid.threads
  rw [← Tiles.flatMap_blocks, List.map_flatMap]
  apply List.flatMap_congr
  intro b hb
  rw [List.mem_range] at hb
  rw [List.map_map]
  apply List.map_congr_left
  intro i hi
  rw [List.mem_range] at hi
  have hlt : i + b * g.block.toNat < 2 ^ 32 := by
    have hmul : (b + 1) * g.block.toNat ≤ g.x.toNat * g.block.toNat := Nat.mul_le_mul_right _ hb
    unfold Grid.Indexed at hg
    rw [Nat.add_mul, Nat.one_mul] at hmul
    omega
  show (UInt32.ofNat b * g.block + UInt32.ofNat i).toNat = _
  rw [UInt32.add_comm, affine_toNat (by rwa [toNat_ofNat_lt hb, toNat_ofNat_lt hi]), toNat_ofNat_lt hb,
    toNat_ofNat_lt hi, Nat.add_comm]

/-- What a launch stores, when each thread computes the elements of its own piece of the work. -/
theorem Grid.stores_eq {kernel : Thread → Trace F} {work : ℕ} {piece : ℕ → List (ℕ × ℕ)}
    (hkernel : ∀ t, x.Computes f A B t.blockIdxY (if t.idx.toNat < work then piece t.idx.toNat else []) (kernel t))
    (hg : g.Indexed) (hcovers : g.Covers work) :
    g.stores kernel batch = ((List.range work).flatMap piece).map (x.element f A B batch) := by
  have hthreads : g.stores kernel batch = ((g.threads batch).map fun t => t.idx.toNat).flatMap fun idx =>
      (if idx < work then piece idx else []).map (x.element f A B batch) := by
    unfold Grid.stores
    rw [List.flatMap_map]
    apply List.flatMap_congr
    intro t ht
    rw [(hkernel t).stores, Grid.batch_of_mem ht]
  rw [hthreads, Grid.map_idx hg, Tiles.flatMap_range_of_le hcovers, List.map_flatMap]
  · apply List.flatMap_congr
    intro idx hidx
    rw [if_pos (List.mem_range.mp hidx)]
  · intro idx hidle _
    rw [if_neg (Nat.not_lt.mpr hidle)]
    rfl

/-- The plain kernel stores the elements, column by column. -/
theorem sgemm_stores (hx : x.InRange) (hg : g.Indexed) (hcovers : g.Covers (x.m.toNat * x.n.toNat)) :
    g.stores (sgemm f A B x) batch = x.elements f A B batch := by
  have hstores : g.stores (sgemm f A B x) batch = ((List.range (x.m.toNat * x.n.toNat)).flatMap fun idx =>
      [(idx % x.m.toNat, idx / x.m.toNat)]).map (x.element f A B batch) :=
    Grid.stores_eq (fun t => sgemm_computes hx) hg hcovers
  rw [hstores, ← List.map_eq_flatMap]
  rfl

theorem Shape.computes (hx : x.InRange) {s : Shape} (hfits : s.Fits x) (hpadded : s.Padded x) (t : Thread) :
    x.Computes f A B t.blockIdxY
      (if t.idx.toNat < s.tiles x then Tiles.patch x.m.toNat x.n.toNat (Tiles.blocks x.m.toNat s.rows.toNat)
        s.rows.toNat s.cols.toNat t.idx.toNat else [])
      (s.kernel f A B x t) := by
  cases s with
  | rb RM => exact sgemmRb_computes hx hfits.rows hpadded.rows
  | micro RM RN INTERIOR =>
    apply microTile_computes hx hfits.rows hfits.cols hpadded.rows hpadded.cols
    intro hint
    exact hfits.interior RM RN (by rw [hint])

/-- A blocked kernel stores the elements, patch by patch. -/
theorem Shape.stores_perm (hx : x.InRange) {s : Shape} (hfits : s.Fits x) (hpadded : s.Padded x)
    (hg : g.Indexed) (hcovers : g.Covers (s.tiles x)) :
    (g.stores (s.kernel f A B x) batch).Perm (x.elements f A B batch) := by
  rw [Grid.stores_eq (Shape.computes hx hfits hpadded) hg hcovers]
  apply List.Perm.map
  rcases Nat.eq_zero_or_pos x.m.toNat with hm | hm
  · -- no rows: no tiles either
    have htiles : s.tiles x = 0 := by
      unfold Shape.tiles
      rw [hm, Nat.le_zero.mp (Tiles.blocks_le hfits.rows), Nat.zero_mul]
    have hcells : Tiles.cells x.m.toNat x.n.toNat = [] := by
      unfold Tiles.cells
      rw [hm, Nat.zero_mul]
      rfl
    rw [htiles, hcells]
    exact List.Perm.nil
  · exact Tiles.patches_perm hfits.rows hfits.cols hm

/-- Neither kernel reads past its operands. -/
theorem Grid.within {kernel : Thread → Trace F} {cells : Thread → List (ℕ × ℕ)}
    (hkernel : ∀ t, x.Computes f A B t.blockIdxY (cells t) (kernel t)) :
    ∀ t ∈ g.threads batch, x.Within f batch (kernel t) := by
  intro t ht
  have hwithin := (hkernel t).within
  rwa [Grid.batch_of_mem ht] at hwithin

/-- A launch of a blocked kernel stores each element of `C` once, with the value that a launch of the plain
kernel stores there, and reads only elements of the operands. -/
theorem blocked_refines (f : Arith F) (A B : ℤ → F) (x : SgemmArgs F) (hx : x.InRange) (s : Shape)
    (hfits : s.Fits x) (hpadded : s.Padded x) (g plain : Grid) (hg : g.Indexed) (hcovers : g.Covers (s.tiles x))
    (hplain : plain.Indexed) (hall : plain.Covers (x.m.toNat * x.n.toNat)) (batch : UInt32) :
    (g.stores (s.kernel f A B x) batch).Perm (x.elements f A B batch) ∧
      (g.stores (s.kernel f A B x) batch).Perm (plain.stores (sgemm f A B x) batch) ∧
      (∀ t ∈ g.threads batch, x.Within f batch (s.kernel f A B x t)) ∧
      ∀ t ∈ plain.threads batch, x.Within f batch (sgemm f A B x t) := by
  refine ⟨Shape.stores_perm hx hfits hpadded hg hcovers, ?_, ?_, ?_⟩
  · rw [sgemm_stores hx hplain hall]
    exact Shape.stores_perm hx hfits hpadded hg hcovers
  · exact Grid.within (Shape.computes hx hfits hpadded)
  · exact Grid.within fun t => sgemm_computes hx

/-- Integers, for examples. -/
def intArith : Arith ℤ where
  zero := 0
  add := (· + ·)
  mul := (· * ·)
  isZero := fun a => decide (a = 0)

/-- A product of `m x 1` by `1 x n`, of which no term is summed where `k` is zero. -/
def intArgs (m n k : UInt32) : SgemmArgs ℤ where
  m := m
  n := n
  k := k
  lda := m
  ldb := k
  ldc := m
  alpha := 1
  beta := 0

theorem length_elements {F : Type} (f : Arith F) (A B : ℤ → F) (x : SgemmArgs F) (batch : UInt32) :
    (x.elements f A B batch).length = x.m.toNat * x.n.toNat := by
  unfold SgemmArgs.elements Tiles.cells
  rw [List.length_map, List.length_map, List.length_range]

/-- A `5 x 3` matrix in tiles of `4 x 2`, by one block of four threads. -/
theorem blocked_refines_5x3 :
    ((Grid.mk 1 1 4).stores (sgemm4x2 intArith (fun p => p) (fun p => p) (intArgs 5 3 2)) 0).Perm
        ((intArgs 5 3 2).elements intArith (fun p => p) (fun p => p) 0) ∧
      ((Grid.mk 1 1 4).stores (sgemm4x2 intArith (fun p => p) (fun p => p) (intArgs 5 3 2)) 0).Perm
        ((Grid.mk 2 1 8).stores (sgemm intArith (fun p => p) (fun p => p) (intArgs 5 3 2)) 0) ∧
      (∀ t ∈ (Grid.mk 1 1 4).threads 0, (intArgs 5 3 2).Within intArith 0
        (sgemm4x2 intArith (fun p => p) (fun p => p) (intArgs 5 3 2) t)) ∧
      ∀ t ∈ (Grid.mk 2 1 8).threads 0, (intArgs 5 3 2).Within intArith 0
        (sgemm intArith (fun p => p) (fun p => p) (intArgs 5 3 2) t) :=
  blocked_refines intArith (fun p => p) (fun p => p) (intArgs 5 3 2)
    ⟨rfl, by decide, by decide, by decide, by decide⟩ (.micro kMidRows kMidCols false)
    ⟨by decide, by decide, nofun⟩ ⟨by decide, by decide⟩ (Grid.mk 1 1 4) (Grid.mk 2 1 8)
    (by unfold Grid.Indexed; decide) (by unfold Grid.Covers; decide) (by unfold Grid.Indexed; decide)
    (by unfold Grid.Covers; decide) 0

/-- Where a padded size wraps, a blocked kernel has no tiles and stores nothing. Where a grid has more than
`2 ^ 32` threads, two have the index zero and store the same element. -/
theorem blocked_refines_not :
    ((intArgs 0xffffffff 1 0).InRange ∧ (Shape.rb kRbRows).Fits (intArgs 0xffffffff 1 0) ∧
        (Grid.mk 0x10000 1 0x10000).Indexed ∧
        (Grid.mk 0x10000 1 0x10000).Covers ((Shape.rb kRbRows).tiles (intArgs 0xffffffff 1 0)) ∧
        ¬((Grid.mk 0x10000 1 0x10000).stores
            ((Shape.rb kRbRows).kernel intArith (fun p => p) (fun p => p) (intArgs 0xffffffff 1 0)) 0).Perm
          ((intArgs 0xffffffff 1 0).elements intArith (fun p => p) (fun p => p) 0)) ∧
      ((intArgs 1 1 0).InRange ∧ (Shape.rb kRbRows).Fits (intArgs 1 1 0) ∧
        (Grid.mk 3 1 0x80000000).Covers ((Shape.rb kRbRows).tiles (intArgs 1 1 0)) ∧
        ¬((Grid.mk 3 1 0x80000000).stores
            ((Shape.rb kRbRows).kernel intArith (fun p => p) (fun p => p) (intArgs 1 1 0)) 0).Perm
          ((intArgs 1 1 0).elements intArith (fun p => p) (fun p => p) 0)) := by
  have hempty : ∀ {l k : ℕ}, l < k → k = 0 → False := fun hlt hk => Nat.not_lt_zero _ (hk ▸ hlt)
  refine ⟨⟨⟨rfl, by decide, fun _ _ l hl => (hempty hl rfl).elim, fun l hl => (hempty hl rfl).elim, ?_⟩,
    ⟨by decide, by decide, nofun⟩, ?_, ?_, ?_⟩, ⟨rfl, by decide, by decide, by decide, by decide⟩,
    ⟨by decide, by decide, nofun⟩, ?_, ?_⟩
  · intro row hrow col hcol
    have hcol : col < 1 := hcol
    have hrow : row < 0xffffffff := hrow
    rw [Nat.lt_one_iff.mp hcol]
    show row + 0 * _ < _
    omega
  · unfold Grid.Indexed
    decide
  · unfold Grid.Covers
    decide
  · intro hperm
    have hnone : (Grid.mk 0x10000 1 0x10000).stores
        ((Shape.rb kRbRows).kernel intArith (fun p => p) (fun p => p) (intArgs 0xffffffff 1 0)) 0 = [] := by
      unfold Grid.stores
      rw [List.flatMap_eq_nil_iff]
      intro t _
      show (sgemmRb intArith _ _ _ kRbRows t).stores = []
      have hblocks : ((intArgs 0xffffffff 1 0).m + kRbRows - 1) / kRbRows * (intArgs 0xffffffff 1 0).n = 0 := by
        decide
      have habi : ¬(intArgs 0xffffffff 1 0).abiVersion ≠ GRXBLAS_SGEMM_ABI_VERSION := not_not.mpr rfl
      unfold sgemmRb
      rw [if_neg habi]
      dsimp only
      rw [hblocks, if_neg]
      exact fun h => UInt32.not_lt_zero h.2
    have hlength := hperm.length_eq
    rw [hnone, length_elements] at hlength
    exact absurd hlength (by decide)
  · unfold Grid.Covers
    decide
  · intro hperm
    have hlength := hperm.length_eq
    rw [length_elements] at hlength
    -- blocks 0 and 2 start at the same index
    have hblocks : ∀ b ∈ [0, 2], 0 < ((List.range (Grid.mk 3 1 0x80000000).block.toNat).flatMap fun t : ℕ =>
        ((Shape.rb kRbRows).kernel intArith (fun p => p) (fun p => p) (intArgs 1 1 0)
          ⟨UInt32.ofNat b, 0, (Grid.mk 3 1 0x80000000).block, UInt32.ofNat t⟩).stores).length := by
      intro b hb
      have hstore : (((Shape.rb kRbRows).kernel intArith (fun p => p) (fun p => p) (intArgs 1 1 0)
          ⟨UInt32.ofNat b, 0, (Grid.mk 3 1 0x80000000).block, UInt32.ofNat 0⟩).stores).length = 1 := by
        rcases List.mem_pair.mp hb with rfl | rfl
        · rfl
        · rfl
      obtain ⟨s, hs⟩ := List.exists_mem_of_length_pos (hstore ▸ Nat.one_pos)
      exact List.length_pos_of_mem (List.mem_flatMap.mpr ⟨0, List.mem_range.mpr (by decide), hs⟩)
    have hfirst := hblocks 0 (List.mem_cons_self ..)
    have hlast := hblocks 2 (List.mem_cons_of_mem _ (List.mem_cons_self ..))
    have hthree : List.range (Grid.mk 3 1 0x80000000).x.toNat = [0, 1, 2] := rfl
    rw [Grid.stores_eq_flatMap, hthree, List.flatMap_cons, List.flatMap_cons, List.flatMap_singleton,
      List.length_append, List.length_append] at hlength
    have hone : (intArgs 1 1 0).m.toNat * (intArgs 1 1 0).n.toNat = 1 := rfl
    rw [hone] at hlength
    omega

/-! ## Memory -/

/-- The elements of the batch elements have an address each. -/
def SgemmArgs.Distinct (x : SgemmArgs F) (batches : List UInt32) : Prop :=
  (batches.flatMap fun batch => (Tiles.cells x.m.toNat x.n.toNat).map fun c =>
    SgemmArgs.offset batch x.strideC + (x.cIndex c.1 c.2 : ℤ)).Nodup

/-- Stores to two addresses, in either order. -/
theorem Store.run_comm {C : ℤ → F} {s s' : Store F} (hne : s.addr ≠ s'.addr) :
    Store.run (Store.run C s) s' = Store.run (Store.run C s') s := by
  funext p
  unfold Store.run
  by_cases hp : p = s'.addr
  · rw [if_pos hp, if_neg (hp ▸ hne.symm), if_neg (hp ▸ hne.symm), if_pos hp]
  · rw [if_neg hp, if_neg hp]

/-- Stores to an address each leave one memory, whatever their order. -/
theorem Store.run_perm {stores stores' : List (Store F)} (hperm : stores.Perm stores')
    (hdistinct : (stores.map (·.addr)).Nodup) (C : ℤ → F) :
    stores.foldl Store.run C = stores'.foldl Store.run C := by
  apply hperm.foldl_eq'
  intro s hs s' hs' C
  by_cases hsame : s.addr = s'.addr
  · rw [List.inj_on_of_nodup_map hdistinct hs hs' hsame]
  · exact Store.run_comm hsame

theorem Shape.allStores_perm {plain : Grid} (hx : x.InRange) {s : Shape} (hfits : s.Fits x)
    (hpadded : s.Padded x) (hg : g.Indexed) (hcovers : g.Covers (s.tiles x)) (hplain : plain.Indexed)
    (hall : plain.Covers (x.m.toNat * x.n.toNat)) (hbatch : g.batch = plain.batch) :
    (g.allStores (s.kernel f A B x)).Perm (plain.allStores (sgemm f A B x)) := by
  have hbatches : plain.batches = g.batches := by
    unfold Grid.batches
    rw [hbatch]
  unfold Grid.allStores
  rw [hbatches]
  apply List.Perm.flatMap_left
  intro batch _
  rw [sgemm_stores hx hplain hall]
  exact Shape.stores_perm hx hfits hpadded hg hcovers

/-- Two launches over the same batches, each making its stores in an order of its own, leave the same `C`. -/
theorem blocked_memory {plain : Grid} (hx : x.InRange) {s : Shape} (hfits : s.Fits x) (hpadded : s.Padded x)
    (hg : g.Indexed) (hcovers : g.Covers (s.tiles x)) (hplain : plain.Indexed)
    (hall : plain.Covers (x.m.toNat * x.n.toNat)) (hbatch : g.batch = plain.batch)
    (hdistinct : x.Distinct plain.batches) {blockedRun plainRun : List (Store F)}
    (hblockedRun : blockedRun.Perm (g.allStores (s.kernel f A B x)))
    (hplainRun : plainRun.Perm (plain.allStores (sgemm f A B x))) (C : ℤ → F) :
    blockedRun.foldl Store.run C = plainRun.foldl Store.run C := by
  have haddr : ((plain.allStores (sgemm f A B x)).map (·.addr)).Nodup := by
    unfold Grid.allStores
    rw [List.map_flatMap]
    have helements : ∀ batch ∈ plain.batches, (plain.stores (sgemm f A B x) batch).map (·.addr) =
        (Tiles.cells x.m.toNat x.n.toNat).map fun c =>
          SgemmArgs.offset batch x.strideC + (x.cIndex c.1 c.2 : ℤ) := by
      intro batch _
      rw [sgemm_stores hx hplain hall]
      unfold SgemmArgs.elements
      rw [List.map_map]
      rfl
    rw [List.flatMap_congr helements]
    exact hdistinct
  have hsame := hblockedRun.trans (Shape.allStores_perm hx hfits hpadded hg hcovers hplain hall hbatch)
  rw [Store.run_perm hplainRun ((hplainRun.map _).nodup_iff.mpr haddr)]
  exact Store.run_perm hsame ((hsame.map _).nodup_iff.mpr haddr) C

end Launches

end Grxcp.Sgemm
