import Grxcp.Device.SgemmTiles
import Grxcp.Device.WarpTile
import Grxcp.Lib.Words

/-!
# The kernels of level 1 and 2

`saxpy`, `sscal` and `sgemv` of `blas12.cpp`, each as what one thread does, over any multiplication and
addition. `A`, `x` and `y` are memories by element, from the address of the argument on. The walks of
`sgemv` keep pointers, which a bump moves by a signed count of elements. The cycle probe is left out.
-/

namespace Grxcp.Blas12

open Sgemm (Arith Thread Store kLoop)
open Warp (TileSize)

def GRXBLAS_BLAS12_ABI_VERSION : UInt32 := 1

/-- `grxblas_axpy_args`. -/
structure AxpyArgs (F : Type) where
  abiVersion : UInt32 := GRXBLAS_BLAS12_ABI_VERSION
  n : UInt32
  incx : Int32
  incy : Int32
  alpha : F

/-- `grxblas_scal_args`. -/
structure ScalArgs (F : Type) where
  abiVersion : UInt32 := GRXBLAS_BLAS12_ABI_VERSION
  n : UInt32
  incx : Int32
  alpha : F

/-- `grxblas_gemv_args`, without the sizes of `A`, which no kernel reads. -/
structure GemvArgs (F : Type) where
  abiVersion : UInt32 := GRXBLAS_BLAS12_ABI_VERSION
  lda : UInt32
  trans : UInt32 := 0
  rows : UInt32
  depth : UInt32
  incx : Int32
  incy : Int32
  alpha : F
  beta : F

/-- `vec_index`. -/
def vecIndex (i n : UInt32) (inc : Int32) : UInt32 :=
  if 0 < inc then i * inc.toUInt32 else (n - 1 - i) * (-inc).toUInt32

/-- `vec_start`, from the start of the vector. -/
def vecStart (i n : UInt32) (inc : Int32) : ℤ :=
  if i < n then (vecIndex i n inc).toNat else 0

/-- What a thread reads of `A`, `x` and `y`, and what it stores to its output. -/
structure Trace (F : Type) where
  a : List ℤ := []
  x : List ℤ := []
  y : List ℤ := []
  stores : List (Store F) := []

section Kernels

variable {F : Type} (f : Arith F) (A X : ℤ → F)

/-- `saxpy`. -/
def saxpy (arg : AxpyArgs F) (t : Thread) : Trace F :=
  if arg.abiVersion ≠ GRXBLAS_BLAS12_ABI_VERSION then {}
  else
    let i := t.idx
    if i < arg.n then
      let xi : ℤ := (vecIndex i arg.n arg.incx).toNat
      let yi : ℤ := (vecIndex i arg.n arg.incy).toNat
      { x := [xi], y := [yi], stores := [⟨yi, fun y => f.add (f.mul arg.alpha (X xi)) y⟩] }
    else {}

/-- `sscal`, whose output is `x`. -/
def sscal (arg : ScalArgs F) (t : Thread) : Trace F :=
  if arg.abiVersion ≠ GRXBLAS_BLAS12_ABI_VERSION then {}
  else
    let i := t.idx
    if i < arg.n then
      let xi : ℤ := (vecIndex i arg.n arg.incx).toNat
      { x := [xi], stores := [⟨xi, fun x => f.mul arg.alpha x⟩] }
    else {}

/-- The state of a loop of `sgemv`: the pointers, the sum, and what was read. -/
structure GemvLoop (F : Type) where
  ap : ℤ
  xp : ℤ
  acc : F
  a : List ℤ := []
  x : List ℤ := []

/-- A round of it. -/
def GemvLoop.step (aStep xStep : ℤ) (s : GemvLoop F) : GemvLoop F where
  ap := s.ap + aStep
  xp := s.xp + xStep
  acc := f.add s.acc (f.mul (A s.ap) (X s.xp))
  a := s.a ++ [s.ap]
  x := s.x ++ [s.xp]

variable (arg : GemvArgs F)

/-- `y[yi] = ...`, with its read of `y`, which there is none of when `beta` is zero. -/
def GemvArgs.store (s : GemvLoop F) (yi : ℤ) (acc : F) : Trace F where
  a := s.a
  x := s.x
  y := if f.isZero arg.beta then [] else [yi]
  stores := [⟨yi, fun y =>
    if f.isZero arg.beta then f.mul arg.alpha acc else f.add (f.mul arg.alpha acc) (f.mul arg.beta y)⟩]

/-- `sgemv` of one thread for each row. -/
def sgemvN (t : Thread) : Trace F :=
  let row := t.idx
  if row < arg.rows then
    let s := kLoop arg.depth (fun s _ => GemvLoop.step f A X arg.lda.toNat arg.incx.toInt s)
      { ap := row.toNat, xp := vecStart 0 arg.depth arg.incx, acc := f.zero }
    arg.store f s (vecIndex row arg.rows arg.incy).toNat s.acc
  else {}

theorem tileSize_pos (tile : TileSize) : 0 < tile.Size := by
  obtain ⟨k, hk⟩ := tile.pow
  rw [hk]
  exact Nat.two_pow_pos k

/-- What a lane does of a column. A depth is an `int` of the host, so that the index of the loop stays in
its type. -/
def lanePart (tile : TileSize) (col lane : UInt32) : GemvLoop F :=
  Lanes.walk tile.Size arg.depth.toNat (tileSize_pos tile)
    (GemvLoop.step f A X tile.Size (arg.incx.toInt * tile.Size)) lane.toNat
    { ap := (col * arg.lda + lane).toNat, xp := vecStart lane arg.depth arg.incx, acc := f.zero }

/-- `lane_id`, on a build of `warp` lanes. -/
def laneId (warp : ℕ) (t : Thread) : ℕ :=
  t.threadIdxX.toNat % warp

/-- `sgemv` of one warp for each column, whose lanes go in lockstep into the reduction. -/
def sgemvT (tile : TileSize) (t : Thread) : Trace F :=
  let col := t.blockIdxX
  if col < arg.rows then
    let lane := tile.threadRank (UInt32.ofNat (laneId tile.warp t))
    let s := lanePart f A X arg tile col lane
    let acc := tile.reduce f.add
      (fun l => (lanePart f A X arg tile col (tile.threadRank (UInt32.ofNat l))).acc) (laneId tile.warp t)
    if lane = 0 then arg.store f s (vecIndex col arg.rows arg.incy).toNat acc else { a := s.a, x := s.x }
  else {}

/-- `sgemv`. Its tile is the warp of the build. -/
def sgemv (tile : TileSize) (t : Thread) : Trace F :=
  if arg.abiVersion ≠ GRXBLAS_BLAS12_ABI_VERSION then {}
  else if arg.trans = 0 then sgemvN f A X arg t else sgemvT f A X arg tile t

end Kernels

/-! ## The elements of a vector -/

/-- Where element `i` of a vector of `n` is. -/
def vecAt (n : ℕ) (inc : ℤ) (i : ℕ) : ℤ :=
  if 0 < inc then i * inc else (n - 1 - i) * -inc

/-- An increment moves from one element to the next, whatever its sign. -/
theorem vecAt_add (n : ℕ) (inc : ℤ) (i k : ℕ) : vecAt n inc (i + k) = vecAt n inc i + inc * k := by
  unfold vecAt
  split
  · push_cast
    ring
  · push_cast
    ring

theorem vecAt_inj {n : ℕ} {inc : ℤ} (hinc : inc ≠ 0) {i j : ℕ} (h : vecAt n inc i = vecAt n inc j) : i = j := by
  have hfrom : ∀ k, vecAt n inc k = vecAt n inc 0 + inc * k := by
    intro k
    rw [← vecAt_add, Nat.zero_add]
  rw [hfrom i, hfrom j] at h
  exact Int.ofNat_inj.mp (mul_left_cancel₀ hinc (add_left_cancel h))

/-- An increment whose absolute value is one of its type, and a vector whose indices are below `2 ^ 32`. -/
structure VecRange (n : ℕ) (inc : Int32) : Prop where
  magnitude : -2 ^ 31 < inc.toInt
  index : ∀ i < n, vecAt n inc.toInt i < 2 ^ 32

/-- `vec_index` is the index of the element. -/
theorem vecIndex_toNat {i n : UInt32} {inc : Int32} (hv : VecRange n.toNat inc) (hi : i.toNat < n.toNat) :
    ((vecIndex i n inc).toNat : ℤ) = vecAt n.toNat inc.toInt i.toNat := by
  have hlt := hv.index _ hi
  have hsign : 0 < inc ↔ 0 < inc.toInt := Int32.lt_iff_toInt_lt
  have hn := n.toNat_lt
  have hinc := inc.toInt_lt
  have hmagnitude := hv.magnitude
  unfold vecIndex
  unfold vecAt at hlt ⊢
  by_cases hpos : 0 < inc.toInt
  · rw [if_pos hpos] at hlt ⊢
    rw [if_pos (hsign.mpr hpos), UInt32.toNat_mul, Words.toUInt32_toNat hpos.le]
    have hcast : ((i.toNat * inc.toInt.toNat : ℕ) : ℤ) = i.toNat * inc.toInt := by
      rw [Nat.cast_mul, Int.toNat_of_nonneg hpos.le]
    rw [Nat.mod_eq_of_lt (by omega), hcast]
  · rw [if_neg hpos] at hlt ⊢
    have hneg : (-inc).toInt = -inc.toInt := by
      rw [Int32.toInt_neg]
      exact Int.bmod_eq_of_le (by omega) (by omega)
    have hback : (n - 1 - i).toNat = n.toNat - 1 - i.toNat := by
      have hone : (1 : UInt32).toNat = 1 := rfl
      rw [UInt32.toNat_sub_of_le, UInt32.toNat_sub_of_le, hone]
      · rw [UInt32.le_iff_toNat_le, hone]
        omega
      · rw [UInt32.le_iff_toNat_le, UInt32.toNat_sub_of_le, hone]
        · omega
        · rw [UInt32.le_iff_toNat_le, hone]
          omega
    have hcast : (((n.toNat - 1 - i.toNat) * (-inc).toInt.toNat : ℕ) : ℤ) =
        (n.toNat - 1 - i.toNat) * -inc.toInt := by
      rw [Nat.cast_mul, Int.toNat_of_nonneg (by omega), hneg, Nat.cast_sub (by omega), Nat.cast_sub (by omega),
        Nat.cast_one]
    rw [if_neg (mt hsign.mp hpos), UInt32.toNat_mul, hback, Words.toUInt32_toNat (x := -inc) (by omega),
      Nat.mod_eq_of_lt (by omega), hcast]

theorem vecStart_eq {i n : UInt32} {inc : Int32} (hv : VecRange n.toNat inc) (hi : i.toNat < n.toNat) :
    vecStart i n inc = vecAt n.toNat inc.toInt i.toNat := by
  unfold vecStart
  rw [if_pos (UInt32.lt_iff_toNat_lt.mpr hi), vecIndex_toNat hv hi]

/-! ## Over exact arithmetic -/

/-- Exact arithmetic. -/
def exact (F : Type) [CommSemiring F] [DecidableEq F] : Arith F where
  zero := 0
  add := (· + ·)
  mul := (· * ·)
  isZero := fun a => decide (a = 0)

section Exact

variable {F : Type} [CommSemiring F] [DecidableEq F] {A X : ℤ → F} {arg : GemvArgs F} {t : Thread}

/-- Where `op(A)(i, j)` is. -/
def GemvArgs.opAt (arg : GemvArgs F) (i j : ℕ) : ℤ :=
  if arg.trans = 0 then (i + j * arg.lda.toNat : ℕ) else (j + i * arg.lda.toNat : ℕ)

/-- Where element `j` of `x` is. -/
def GemvArgs.xAt (arg : GemvArgs F) (j : ℕ) : ℤ :=
  vecAt arg.depth.toNat arg.incx.toInt j

/-- Where element `i` of `y` is. -/
def GemvArgs.yAt (arg : GemvArgs F) (i : ℕ) : ℤ :=
  vecAt arg.rows.toNat arg.incy.toInt i

/-- A term of the product. -/
def GemvArgs.term (arg : GemvArgs F) (A X : ℤ → F) (i j : ℕ) : F :=
  A (arg.opAt i j) * X (arg.xAt j)

/-- Element `i` of `alpha * op(A) * x + beta * y`. -/
def GemvArgs.value (arg : GemvArgs F) (A X : ℤ → F) (i : ℕ) (y : F) : F :=
  arg.alpha * ∑ j ∈ Finset.range arg.depth.toNat, arg.term A X i j + arg.beta * y

/-- The elements of the matrix and of the vectors have indices below `2 ^ 32`. -/
structure GemvArgs.InRange (arg : GemvArgs F) : Prop where
  a : ∀ i < arg.rows.toNat, ∀ j < arg.depth.toNat, arg.opAt i j < 2 ^ 32
  x : VecRange arg.depth.toNat arg.incx
  y : VecRange arg.rows.toNat arg.incy

/-- A state of a walk of row `i` that has passed these elements. -/
structure Passed (arg : GemvArgs F) (A X : ℤ → F) (i : ℕ) (passed : List ℕ) (s : GemvLoop F) : Prop where
  a : s.a = passed.map (arg.opAt i)
  x : s.x = passed.map arg.xAt
  acc : s.acc = (passed.map (arg.term A X i)).sum

/-- A round at an element that the pointers are at. -/
theorem Passed.step {i j : ℕ} {passed : List ℕ} {s : GemvLoop F} (hs : Passed arg A X i passed s)
    (hap : s.ap = arg.opAt i j) (hxp : s.xp = arg.xAt j) (aStep xStep : ℤ) :
    Passed arg A X i (passed ++ [j]) (GemvLoop.step (exact F) A X aStep xStep s) := by
  constructor
  · show s.a ++ [s.ap] = _
    rw [hs.a, hap, List.map_append, List.map_singleton]
  · show s.x ++ [s.xp] = _
    rw [hs.x, hxp, List.map_append, List.map_singleton]
  · show s.acc + A s.ap * X s.xp = _
    rw [hs.acc, hap, hxp, List.map_append, List.sum_append, List.map_singleton, List.sum_singleton]
    rfl

/-- The pointers of a walk that is at element `j`, unless it is past the end. -/
def At (arg : GemvArgs F) (i j : ℕ) (s : GemvLoop F) : Prop :=
  j < arg.depth.toNat → s.ap = arg.opAt i j ∧ s.xp = arg.xAt j

/-- The value stored, with the read of `y` that it does without when `beta` is zero. -/
theorem store_value (i : ℕ) {acc : F} (hacc : acc = ∑ j ∈ Finset.range arg.depth.toNat, arg.term A X i j) :
    (fun y => if (exact F).isZero arg.beta then (exact F).mul arg.alpha acc
      else (exact F).add ((exact F).mul arg.alpha acc) ((exact F).mul arg.beta y)) = arg.value A X i := by
  funext y
  show (if decide (arg.beta = 0) then arg.alpha * acc else arg.alpha * acc + arg.beta * y) = _
  unfold GemvArgs.value
  rw [hacc]
  by_cases hbeta : arg.beta = 0
  · rw [if_pos (decide_eq_true hbeta), hbeta, zero_mul, add_zero]
  · rw [if_neg (by rwa [decide_eq_true_eq])]

/-- What a thread of `sgemv` does: the elements that it reads for its row, and the row that it stores. -/
structure GemvArgs.Does (arg : GemvArgs F) (A X : ℤ → F) (i : ℕ) (walked : List ℕ) (stored : Bool)
    (tr : Trace F) : Prop where
  a : tr.a = walked.map (arg.opAt i)
  x : tr.x = walked.map arg.xAt
  y : tr.y = if stored ∧ arg.beta ≠ 0 then [arg.yAt i] else []
  stores : tr.stores = if stored then [⟨arg.yAt i, arg.value A X i⟩] else []

theorem does_store (hy : VecRange arg.rows.toNat arg.incy) {i : UInt32} (hi : i.toNat < arg.rows.toNat)
    {walked : List ℕ} {s : GemvLoop F} (hs : Passed arg A X i.toNat walked s) {acc : F}
    (hacc : acc = ∑ j ∈ Finset.range arg.depth.toNat, arg.term A X i.toNat j) :
    arg.Does A X i.toNat walked true
      (arg.store (exact F) s (vecIndex i arg.rows arg.incy).toNat acc) := by
  have hyi : ((vecIndex i arg.rows arg.incy).toNat : ℤ) = arg.yAt i.toNat := vecIndex_toNat hy hi
  refine ⟨hs.a, hs.x, ?_, ?_⟩
  · show (if decide (arg.beta = 0) then [] else [((vecIndex i arg.rows arg.incy).toNat : ℤ)]) = _
    rw [hyi]
    by_cases hbeta : arg.beta = 0
    · rw [if_pos (decide_eq_true hbeta), if_neg fun h => h.2 hbeta]
    · rw [if_neg (by rwa [decide_eq_true_eq]), if_pos ⟨rfl, hbeta⟩]
  · show [(⟨((vecIndex i arg.rows arg.incy).toNat : ℤ), _⟩ : Store F)] = _
    rw [hyi, store_value i.toNat hacc]
    rfl

theorem does_nothing (i : ℕ) : arg.Does A X i [] false {} :=
  ⟨rfl, rfl, rfl, rfl⟩

/-! ## One thread for each row -/

theorem rowLoop_spec (hx : VecRange arg.depth.toNat arg.incx) (hN : arg.trans = 0) (row : UInt32) :
    Passed arg A X row.toNat (List.range arg.depth.toNat)
      (kLoop arg.depth (fun s _ => GemvLoop.step (exact F) A X arg.lda.toNat arg.incx.toInt s)
        { ap := row.toNat, xp := vecStart 0 arg.depth arg.incx, acc := (exact F).zero }) := by
  have hop : ∀ j : ℕ, arg.opAt row.toNat j = row.toNat + j * arg.lda.toNat := by
    intro j
    unfold GemvArgs.opAt
    rw [if_pos hN]
    push_cast
    rfl
  apply And.right (a := At arg row.toNat arg.depth.toNat _)
  apply Sgemm.kLoop_spec (I := fun j s => At arg row.toNat j s ∧ Passed arg A X row.toNat (List.range j) s)
  · refine ⟨fun hpos => ⟨?_, ?_⟩, rfl, rfl, rfl⟩
    · show (row.toNat : ℤ) = _
      rw [hop, Nat.cast_zero, zero_mul, add_zero]
    · exact vecStart_eq hx hpos
  · intro j hj s ⟨hat, hs⟩
    obtain ⟨hap, hxp⟩ := hat hj
    refine ⟨fun _ => ⟨?_, ?_⟩, ?_⟩
    · show s.ap + arg.lda.toNat = _
      rw [hap, hop, hop]
      push_cast
      ring
    · show s.xp + arg.incx.toInt = _
      rw [hxp]
      unfold GemvArgs.xAt
      rw [vecAt_add, Nat.cast_one, mul_one]
    · rw [List.range_succ]
      exact hs.step hap hxp _ _

theorem sgemvN_does (harg : arg.InRange) (hN : arg.trans = 0) :
    arg.Does A X t.idx.toNat (if t.idx.toNat < arg.rows.toNat then List.range arg.depth.toNat else [])
      (decide (t.idx.toNat < arg.rows.toNat)) (sgemvN (exact F) A X arg t) := by
  unfold sgemvN
  dsimp only
  by_cases hrow : t.idx.toNat < arg.rows.toNat
  · have hs := rowLoop_spec (A := A) (X := X) harg.x hN t.idx
    rw [if_pos hrow, if_pos (UInt32.lt_iff_toNat_lt.mpr hrow), decide_eq_true hrow]
    exact does_store harg.y hrow hs hs.acc
  · rw [if_neg hrow, if_neg (mt UInt32.lt_iff_toNat_lt.mp hrow), decide_eq_false hrow]
    exact does_nothing _

/-! ## One warp for each column -/

theorem lanePart_spec {tile : TileSize} (harg : arg.InRange) (hT : arg.trans ≠ 0) {col lane : UInt32}
    (hcol : col.toNat < arg.rows.toNat) :
    Passed arg A X col.toNat (Lanes.stops tile.Size arg.depth.toNat (tileSize_pos tile) lane.toNat)
      (lanePart (exact F) A X arg tile col lane) := by
  have hop : ∀ j : ℕ, arg.opAt col.toNat j = (j + col.toNat * arg.lda.toNat : ℕ) := by
    intro j
    unfold GemvArgs.opAt
    rw [if_neg hT]
  have hwalk : ∃ last, At arg col.toNat last (lanePart (exact F) A X arg tile col lane) ∧
      Passed arg A X col.toNat ([] ++ Lanes.stops tile.Size arg.depth.toNat (tileSize_pos tile) lane.toNat)
        (lanePart (exact F) A X arg tile col lane) := by
    apply Lanes.walk_spec (I := fun j passed s => At arg col.toNat j s ∧ Passed arg A X col.toNat passed s)
    · intro j hj passed s ⟨hat, hs⟩
      obtain ⟨hap, hxp⟩ := hat hj
      refine ⟨fun _ => ⟨?_, ?_⟩, hs.step hap hxp _ _⟩
      · show s.ap + tile.Size = _
        rw [hap, hop, hop]
        push_cast
        ring
      · show s.xp + arg.incx.toInt * tile.Size = _
        rw [hxp]
        exact (vecAt_add _ _ _ _).symm
    · refine ⟨fun hlane => ⟨?_, vecStart_eq harg.x hlane⟩, rfl, rfl, rfl⟩
      -- a lane with an element starts at it
      have hlt := harg.a _ hcol _ hlane
      rw [hop] at hlt ⊢
      show ((col * arg.lda + lane).toNat : ℤ) = _
      rw [UInt32.add_comm, Sgemm.affine_toNat (by omega)]
  obtain ⟨last, -, hpassed⟩ := hwalk
  exact hpassed

/-- The sum over the lanes of a column. -/
theorem lanes_sum {tile : TileSize} (hplace : tile.Place 0) (hfull : tile.Size = tile.warp) (harg : arg.InRange)
    (hT : arg.trans ≠ 0) {col : UInt32} (hcol : col.toNat < arg.rows.toNat) {r : ℕ} (hr : r < tile.warp) :
    tile.reduce (exact F).add
      (fun l => (lanePart (exact F) A X arg tile col (tile.threadRank (UInt32.ofNat l))).acc) r =
        ∑ j ∈ Finset.range arg.depth.toNat, arg.term A X col.toNat j := by
  have hassoc : ∀ a b c, (exact F).add ((exact F).add a b) c = (exact F).add a ((exact F).add b c) := add_assoc
  have hreduce := Warp.reduce_eq hplace hassoc add_comm
    (fun l => (lanePart (exact F) A X arg tile col (tile.threadRank (UInt32.ofNat l))).acc) (hfull ▸ hr)
  rw [Nat.zero_add] at hreduce
  rw [hreduce, ← Lanes.sum_stops (tileSize_pos tile)]
  apply Lanes.run_congr
  intro lane hlane
  have hlt : lane < tile.Size := by
    have hpos := tileSize_pos tile
    omega
  have hrank := Warp.threadRank_toNat hplace hlt
  have hpart : (lanePart (exact F) A X arg tile col (tile.threadRank (UInt32.ofNat (0 + lane)))).acc = _ :=
    (lanePart_spec harg hT hcol).acc
  rw [hrank] at hpart
  exact hpart

theorem sgemvT_does {tile : TileSize} (hplace : tile.Place 0) (hfull : tile.Size = tile.warp)
    (harg : arg.InRange) (hT : arg.trans ≠ 0) (hcol : t.blockIdxX.toNat < arg.rows.toNat)
    (hlane : t.threadIdxX.toNat < tile.warp) :
    arg.Does A X t.blockIdxX.toNat
      (Lanes.stops tile.Size arg.depth.toNat (tileSize_pos tile) t.threadIdxX.toNat)
      (decide (t.threadIdxX.toNat = 0)) (sgemvT (exact F) A X arg tile t) := by
  have hid : laneId tile.warp t = t.threadIdxX.toNat := Nat.mod_eq_of_lt hlane
  have hrank : (tile.threadRank (UInt32.ofNat t.threadIdxX.toNat)).toNat = t.threadIdxX.toNat := by
    have hrank := Warp.threadRank_toNat hplace (hfull ▸ hlane)
    rwa [Nat.zero_add] at hrank
  have hzero : tile.threadRank (UInt32.ofNat t.threadIdxX.toNat) = 0 ↔ t.threadIdxX.toNat = 0 := by
    rw [← UInt32.toNat_inj, hrank]
    rfl
  have hs : Passed arg A X _ _
      (lanePart (exact F) A X arg tile t.blockIdxX (tile.threadRank (UInt32.ofNat t.threadIdxX.toNat))) :=
    lanePart_spec harg hT hcol
  rw [hrank] at hs
  unfold sgemvT
  dsimp only
  rw [if_pos (UInt32.lt_iff_toNat_lt.mpr hcol), hid]
  by_cases hfirst : t.threadIdxX.toNat = 0
  · rw [if_pos (hzero.mpr hfirst), decide_eq_true hfirst]
    exact does_store harg.y hcol hs (lanes_sum hplace hfull harg hT hcol hlane)
  · rw [if_neg (mt hzero.mp hfirst), decide_eq_false hfirst]
    exact ⟨hs.a, hs.x, rfl, rfl⟩

end Exact

end Grxcp.Blas12
