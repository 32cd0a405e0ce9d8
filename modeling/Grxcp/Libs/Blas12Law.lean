import Grxcp.Device.Blas12
import Grxcp.Libs.SgemmGrid

/-!
# Level 1 and 2, from the call to the elements

What the launches of `grxblasSaxpy`, `grxblasSscal` and `grxblasSgemv` do, over exact arithmetic
(`blas12_law`). Every output is stored once, by one thread. The walks of `sgemv` read the elements of the
definition, each once for its output, and `y` is left alone where `beta` is zero.
-/

namespace Grxcp.Blas

open Grxcp.Runtime Words
open Sgemm (Thread Store)
open Blas12 (Trace vecAt VecRange)
open Warp (TileSize)

/-! ## The launches -/

/-- The arguments of `grxblasSaxpy`, as the kernel gets them. -/
def VectorArgs.axpyArgs {F : Type} (a : VectorArgs) (alpha : F) : Blas12.AxpyArgs F where
  n := a.n.toUInt32
  incx := a.incx
  incy := a.incy
  alpha := alpha

/-- The arguments of `grxblasSscal`, as the kernel gets them. -/
def VectorArgs.scalArgs {F : Type} (a : VectorArgs) (alpha : F) : Blas12.ScalArgs F where
  n := a.n.toUInt32
  incx := a.incx
  alpha := alpha

/-- The arguments of `grxblasSgemv`, as the kernel gets them. -/
def GemvArgs.gemvArgs {F : Type} (a : GemvArgs) (alpha beta : F) : Blas12.GemvArgs F where
  lda := a.lda.toUInt32
  trans := if a.trans then Sgemm.GRXBLAS_ABI_OP_T else 0
  rows := if a.trans then a.n.toUInt32 else a.m.toUInt32
  depth := if a.trans then a.m.toUInt32 else a.n.toUInt32
  incx := a.incx
  incy := a.incy
  alpha := alpha
  beta := beta

/-- The threads of a launch. -/
def Launch.threads (l : Launch) : List Thread :=
  l.toGrid.batches.flatMap l.toGrid.threads

/-! ## The law -/

section Law

variable {F : Type}

/-- Each of `n` outputs is stored once, by the thread that owns it and by no other, and in whatever order the
stores are made, they leave every output its value and the rest of the memory as it was. -/
structure StoredOnce (threads : List Thread) (trace : Thread → Trace F) (owner : Thread → Option ℕ) (n : ℕ)
    (place : ℕ → ℤ) (value : ℕ → F → F) : Prop where
  owners : threads.filterMap owner = List.range n
  stores : ∀ t ∈ threads, (trace t).stores = (owner t).toList.map fun i => ⟨place i, value i⟩
  distinct : ∀ i < n, ∀ j < n, place i = place j → i = j
  memory : ∀ order : List (Store F), order.Perm (threads.flatMap fun t => (trace t).stores) → ∀ old : ℤ → F,
    (∀ i < n, order.foldl Store.run old (place i) = value i (old (place i))) ∧
      ∀ p, (∀ i < n, p ≠ place i) → order.foldl Store.run old p = old p

/-- The element of a thread, where there is a thread for each. -/
def elementOf (n : ℕ) (t : Thread) : Option ℕ :=
  if t.idx.toNat < n then some t.idx.toNat else none

/-- The column of a thread, where its first lane stores for a warp. -/
def columnOf (t : Thread) : Option ℕ :=
  if t.threadIdxX.toNat = 0 then some t.blockIdxX.toNat else none

variable [CommSemiring F] [DecidableEq F]

/-- `y = alpha * x + y`, of which a thread reads its elements of `x` and of `y`. -/
structure AxpyLaw (l : Launch) (arg : Blas12.AxpyArgs F) (X : ℤ → F) : Prop where
  stored : StoredOnce l.threads (Blas12.saxpy (Blas12.exact F) X arg) (elementOf arg.n.toNat) arg.n.toNat
    (vecAt arg.n.toNat arg.incy.toInt) fun i y => arg.alpha * X (vecAt arg.n.toNat arg.incx.toInt i) + y
  x : ∀ t ∈ l.threads, (Blas12.saxpy (Blas12.exact F) X arg t).x =
    (elementOf arg.n.toNat t).toList.map (vecAt arg.n.toNat arg.incx.toInt)
  y : ∀ t ∈ l.threads, (Blas12.saxpy (Blas12.exact F) X arg t).y =
    (elementOf arg.n.toNat t).toList.map (vecAt arg.n.toNat arg.incy.toInt)

/-- `x = alpha * x`. -/
structure ScalLaw (l : Launch) (arg : Blas12.ScalArgs F) : Prop where
  stored : StoredOnce l.threads (Blas12.sscal (Blas12.exact F) arg) (elementOf arg.n.toNat) arg.n.toNat
    (vecAt arg.n.toNat arg.incx.toInt) fun _ x => arg.alpha * x
  x : ∀ t ∈ l.threads, (Blas12.sscal (Blas12.exact F) arg t).x =
    (elementOf arg.n.toNat t).toList.map (vecAt arg.n.toNat arg.incx.toInt)

/-- The output that a thread of `sgemv` stores. -/
def gemvOwner (arg : Blas12.GemvArgs F) (t : Thread) : Option ℕ :=
  if arg.trans = 0 then elementOf arg.rows.toNat t else columnOf t

/-- The terms that a thread of `sgemv` sums: all of its row's, or every `W`-th of its column's. -/
def gemvTerms (tile : TileSize) (arg : Blas12.GemvArgs F) (t : Thread) : List (ℕ × ℕ) :=
  if arg.trans = 0 then
    (elementOf arg.rows.toNat t).toList.flatMap fun i => (List.range arg.depth.toNat).map (i, ·)
  else
    (Lanes.stops tile.Size arg.depth.toNat (Blas12.tileSize_pos tile) t.threadIdxX.toNat).map
      (t.blockIdxX.toNat, ·)

/-- `y = alpha * op(A) * x + beta * y`: between them the threads read, for every output, each of its terms
once, and `y` only where `beta` is not zero. -/
structure GemvLaw (l : Launch) (tile : TileSize) (arg : Blas12.GemvArgs F) (A X : ℤ → F) : Prop where
  stored : StoredOnce l.threads (Blas12.sgemv (Blas12.exact F) A X arg tile) (gemvOwner arg) arg.rows.toNat
    arg.yAt (arg.value A X)
  a : ∀ t ∈ l.threads, (Blas12.sgemv (Blas12.exact F) A X arg tile t).a =
    (gemvTerms tile arg t).map fun c => arg.opAt c.1 c.2
  x : ∀ t ∈ l.threads, (Blas12.sgemv (Blas12.exact F) A X arg tile t).x =
    (gemvTerms tile arg t).map fun c => arg.xAt c.2
  terms : (l.threads.flatMap (gemvTerms tile arg)).Perm
    ((List.range arg.rows.toNat).flatMap fun i => (List.range arg.depth.toNat).map (i, ·))
  y : ∀ t ∈ l.threads, (Blas12.sgemv (Blas12.exact F) A X arg tile t).y =
    if arg.beta = 0 then [] else (gemvOwner arg t).toList.map arg.yAt

end Law

/-! ## What the calls launch -/

section Calls

variable {M : Machine} {current : ℕ} {ctx : Context} {o : Outcome} {P : Launch → Prop} {prop : DeviceProp}
  {refused : Option GrxError} {r : LoadReplies}

/-- Every launch of a part of a call has a property. -/
def Launching (P : Launch → Prop) (o : Outcome) : Prop :=
  ∀ l ∈ launches o.issued, P l

theorem Launching.idle (status : Status) : Launching P { ctx, status } :=
  nofun

theorem Launching.launch {l : Launch} (h : P l) (status : Status) :
    Launching P { ctx, issued := [.launch l], status } := by
  intro l' hl'
  rw [List.mem_singleton.mp hl']
  exact h

theorem Launching.andThen {f : Context → Outcome} (ho : Launching P o) (hf : ∀ ctx, Launching P (f ctx)) :
    Launching P (o.andThen f) := by
  unfold Outcome.andThen
  split
  · intro l hl
    unfold launches at hl
    rw [List.filterMap_append, List.mem_append] at hl
    exact hl.elim (ho l) (hf _ l)
  · exact ho

theorem ite_idle {c : Prop} [Decidable c] {status : Status} (h : ¬c → Launching P o) :
    Launching P (if c then { ctx, status } else o) := by
  split
  · exact .idle _
  next hc => exact h hc

theorem launching_readSgemmShape (h : ∀ l : Launch, l.kernel = .sgemmShape → P l) (module : Module) :
    Launching P (readSgemmShape M ctx module r) := by
  unfold readSgemmShape
  split
  · exact .idle _
  split
  · exact .idle _
  split
  · exact .idle _
  split
  · exact .idle _
  dsimp only
  split
  · exact .launch (h (shapeLaunch _ _ _ _) rfl) _
  · exact .launch (h (shapeLaunch _ _ _ _) rfl) _

/-- Loading the module launches no kernel but the one that reports the tiles. -/
theorem launching_ensureModule {kernel : BlasKernel} (hne : kernel ≠ .sgemmShape) :
    Launching (fun l => l.kernel = kernel → P l) (ensureModule M current ctx r) := by
  unfold ensureModule
  split
  · exact .idle _
  split
  · exact .idle _
  exact launching_readSgemmShape (fun l hl hno => absurd (hno.symm.trans hl) hne) _

/-- A launch of a kernel of level 1 or 2: one warp to a block, on one row of blocks. -/
structure Flat (prop : DeviceProp) (grid : UInt32) (l : Launch) : Prop where
  grid : l.grid = (grid, 1)
  block : l.block = prop.warpSize.toUInt32

theorem launching_flat {kernel : BlasKernel} {grid : DeviceProp → UInt32} (hprop : M.props 0 = .ok prop)
    (h : ∀ l, Flat prop (grid prop) l → P l) : Launching P (launchFlat M ctx kernel grid refused) := by
  unfold launchFlat
  rw [hprop]
  dsimp only
  split
  · exact .idle _
  · exact .launch (h _ ⟨rfl, rfl⟩) _

theorem toInt_pos {n : Int32} (hneg : ¬n < 0) (hzero : n ≠ 0) : 0 < n.toInt := by
  rw [Int32.lt_iff_toInt_lt] at hneg
  have hne := mt Int32.toInt_inj.mp hzero
  have hz : (0 : Int32).toInt = 0 := rfl
  omega

theorem saxpy_launching (hprop : M.props 0 = .ok prop) (a : VectorArgs) :
    Launching (fun l => l.kernel = .saxpy →
        Flat prop (flatGrid a.n.toUInt32 prop) l ∧ 0 < a.n.toInt ∧ a.incy.toInt ≠ 0)
      (grxblasSaxpy M current ctx a r refused) := by
  unfold grxblasSaxpy
  refine ite_idle fun _ => ite_idle fun hneg => ite_idle fun hzero => ite_idle fun _ => ite_idle fun hinc => ?_
  apply Launching.andThen
  · exact launching_ensureModule nofun
  intro ctx
  refine ite_idle fun _ => launching_flat hprop fun l hl _ => ⟨hl, toInt_pos hneg hzero, fun h => ?_⟩
  exact hinc (.inr (Int32.toInt_inj.mp h))

theorem sscal_launching (hprop : M.props 0 = .ok prop) (a : VectorArgs) :
    Launching (fun l => l.kernel = .sscal →
        Flat prop (flatGrid a.n.toUInt32 prop) l ∧ 0 < a.n.toInt ∧ a.incx.toInt ≠ 0)
      (grxblasSscal M current ctx a r refused) := by
  unfold grxblasSscal
  refine ite_idle fun _ => ite_idle fun hneg => ite_idle fun hzero => ite_idle fun _ => ite_idle fun hinc => ?_
  apply Launching.andThen
  · exact launching_ensureModule nofun
  intro ctx
  refine ite_idle fun _ => launching_flat hprop fun l hl _ => ⟨hl, toInt_pos hneg hzero, fun h => ?_⟩
  exact hinc (Int32.le_iff_toInt_le.mpr h.le)

theorem sgemv_launching (hprop : M.props 0 = .ok prop) (a : GemvArgs) :
    Launching (fun l => l.kernel = .sgemv →
        Flat prop (if a.trans then a.n.toUInt32 else flatGrid a.m.toUInt32 prop) l ∧ 0 < a.m.toInt ∧
          0 < a.n.toInt ∧ a.incy.toInt ≠ 0)
      (grxblasSgemv M current ctx a r refused) := by
  unfold grxblasSgemv
  refine ite_idle fun _ => ite_idle fun hneg => ite_idle fun hzero => ite_idle fun _ => ite_idle fun hinc =>
    ite_idle fun _ => ?_
  apply Launching.andThen
  · exact launching_ensureModule nofun
  intro ctx
  refine ite_idle fun _ => launching_flat hprop fun l hl _ => ⟨?_, toInt_pos (fun h => hneg (.inl h))
    fun h => hzero (.inl h), toInt_pos (fun h => hneg (.inr h)) fun h => hzero (.inr h), fun h => ?_⟩
  · cases htrans : a.trans with
    | false =>
      rw [htrans] at hl
      exact hl
    | true =>
      rw [htrans] at hl
      exact hl
  · exact hinc (.inr (Int32.toInt_inj.mp h))

end Calls

/-! ## The threads -/

section Threads

variable {prop : DeviceProp} {l : Launch}

theorem Flat.threads_eq {grid : UInt32} (h : Flat prop grid l) : l.threads = l.toGrid.threads 0 := by
  have hbatches : l.toGrid.batches = [0] := by
    unfold Sgemm.Grid.batches Launch.toGrid
    rw [h.grid]
    rfl
  unfold Launch.threads
  rw [hbatches, List.flatMap_singleton]

theorem Flat.block_eq {grid : UInt32} (h : Flat prop grid l) : l.toGrid.block.toNat = prop.block := by
  show l.block.toNat = _
  rw [h.block]
  rfl

theorem Flat.x_eq {grid : UInt32} (h : Flat prop grid l) : l.toGrid.x = grid := by
  show l.grid.1 = _
  rw [h.grid]

/-- A flat grid has a thread for each element, with an index of its own. -/
theorem Flat.covers {n : UInt32} (h : Flat prop (flatGrid n prop) l) (hn : n.toNat < 2 ^ 31)
    (hwarp : 0 < prop.warpSize.toInt) : l.toGrid.Indexed ∧ l.toGrid.Covers n.toNat := by
  have hblock : prop.block = prop.warpSize.toInt.toNat := toUInt32_toNat hwarp.le
  have hlt := prop.warpSize.toInt_lt
  have hsum : (n.toNat + prop.block + (2 ^ 32 - 1)) % 2 ^ 32 = n.toNat + prop.block - 1 := by omega
  have hgrid : (flatGrid n prop).toNat = Tiles.blocks n.toNat prop.block := by
    rw [flatGrid_toNat, hsum]
    rfl
  have hpos : 0 < prop.block := by omega
  have hle := Tiles.le_blocks_mul (m := n.toNat) hpos
  have hbound := Tiles.blocks_mul_lt (m := n.toNat) hpos
  rw [Nat.mul_comm, ← hgrid] at hle hbound
  constructor
  · unfold Sgemm.Grid.Indexed
    rw [h.block_eq, h.x_eq]
    omega
  · unfold Sgemm.Grid.Covers
    rwa [h.block_eq, h.x_eq]

/-- Every element has one thread. -/
theorem filterMap_elementOf {g : Sgemm.Grid} {n : ℕ} (hg : g.Indexed) (hcovers : g.Covers n) :
    (g.threads 0).filterMap (elementOf n) = List.range n := by
  have hthreads : (g.threads 0).filterMap (elementOf n) =
      ((g.threads 0).map fun t => t.idx.toNat).flatMap fun i => if i < n then [i] else [] := by
    rw [List.filterMap_eq_flatMap_toList, List.flatMap_map]
    apply List.flatMap_congr
    intro t _
    unfold elementOf
    split
    · rfl
    · rfl
  have hidle : ∀ i, n ≤ i → i < g.x.toNat * g.block.toNat → (if i < n then [i] else []) = [] :=
    fun i hi _ => if_neg (Nat.not_lt.mpr hi)
  rw [hthreads, Sgemm.Grid.map_idx hg, Tiles.flatMap_range_of_le hcovers hidle]
  have hall : ((List.range n).flatMap fun i => if i < n then [i] else []) = (List.range n).flatMap fun i => [i] :=
    List.flatMap_congr fun i hi => if_pos (List.mem_range.mp hi)
  rw [hall, List.flatMap_singleton']

theorem mem_threads {g : Sgemm.Grid} {t : Thread} (ht : t ∈ g.threads 0) :
    t.blockIdxX.toNat < g.x.toNat ∧ t.threadIdxX.toNat < g.block.toNat := by
  obtain ⟨b, hb, ht⟩ := List.mem_flatMap.mp ht
  obtain ⟨i, hi, rfl⟩ := List.mem_map.mp ht
  rw [List.mem_range] at hb hi
  show (UInt32.ofNat b).toNat < _ ∧ (UInt32.ofNat i).toNat < _
  rw [Sgemm.toNat_ofNat_lt hb, Sgemm.toNat_ofNat_lt hi]
  exact ⟨hb, hi⟩

/-- What a grid does, by block and thread. -/
theorem flatMap_threads {T : Type} (g : Sgemm.Grid) (f : ℕ → ℕ → List T) :
    (g.threads 0).flatMap (fun t => f t.blockIdxX.toNat t.threadIdxX.toNat) =
      (List.range g.x.toNat).flatMap fun b => (List.range g.block.toNat).flatMap (f b) := by
  unfold Sgemm.Grid.threads
  rw [List.flatMap_assoc]
  apply List.flatMap_congr
  intro b hb
  rw [List.flatMap_map]
  apply List.flatMap_congr
  intro i hi
  rw [List.mem_range] at hb hi
  show f (UInt32.ofNat b).toNat (UInt32.ofNat i).toNat = _
  rw [Sgemm.toNat_ofNat_lt hb, Sgemm.toNat_ofNat_lt hi]

/-- Every column has one first lane. -/
theorem filterMap_columnOf {g : Sgemm.Grid} (hblock : 0 < g.block.toNat) :
    (g.threads 0).filterMap columnOf = List.range g.x.toNat := by
  have hflat := flatMap_threads g fun b i => if i = 0 then [b] else []
  have hcolumn : (g.threads 0).filterMap columnOf =
      (g.threads 0).flatMap fun t => if t.threadIdxX.toNat = 0 then [t.blockIdxX.toNat] else [] := by
    rw [List.filterMap_eq_flatMap_toList]
    apply List.flatMap_congr
    intro t _
    unfold columnOf
    split
    · rfl
    · rfl
  have hfirst : ∀ b : ℕ, ((List.range g.block.toNat).flatMap fun i => if i = 0 then [b] else []) = [b] := by
    intro b
    rw [Tiles.flatMap_range_of_le hblock fun i hi _ => if_neg (Nat.ne_of_gt hi)]
    rfl
  have hall : ((List.range g.x.toNat).flatMap fun b => (List.range g.block.toNat).flatMap fun i =>
      if i = 0 then [b] else []) = (List.range g.x.toNat).flatMap fun b => [b] :=
    List.flatMap_congr fun b _ => hfirst b
  rw [hcolumn, hflat, hall, List.flatMap_singleton']

end Threads

/-! ## The outputs -/

section Outputs

variable {F : Type} {threads : List Thread} {trace : Thread → Trace F} {owner : Thread → Option ℕ} {n : ℕ}
  {place : ℕ → ℤ} {value : ℕ → F → F}

/-- Stores to `n` places, one after the other. -/
theorem run_outputs (hdistinct : ∀ i < n, ∀ j < n, place i = place j → i = j) (old : ℤ → F) :
    (∀ i < n, ((List.range n).map fun i => (⟨place i, value i⟩ : Store F)).foldl Store.run old (place i) =
        value i (old (place i))) ∧
      ∀ p, (∀ i < n, p ≠ place i) →
        ((List.range n).map fun i => (⟨place i, value i⟩ : Store F)).foldl Store.run old p = old p := by
  induction n with
  | zero => exact ⟨nofun, fun p _ => rfl⟩
  | succ n ih =>
    obtain ⟨hin, hout⟩ := ih fun i hi j hj => hdistinct i (Nat.lt_succ_of_lt hi) j (Nat.lt_succ_of_lt hj)
    rw [List.range_succ, List.map_append, List.foldl_append]
    constructor
    · intro i hi
      show Store.run _ ⟨place n, value n⟩ (place i) = _
      unfold Store.run
      rcases Nat.lt_succ_iff_lt_or_eq.mp hi with hlt | rfl
      · have hne : place i ≠ place n := fun h =>
          absurd (hdistinct i hi n (Nat.lt_succ_self n) h) (Nat.ne_of_lt hlt)
        rw [if_neg hne]
        exact hin i hlt
      · rw [if_pos rfl]
        refine congrArg _ (hout _ fun j hj h => ?_)
        exact absurd (hdistinct _ hi j (Nat.lt_succ_of_lt hj) h) (Nat.ne_of_gt hj)
    · intro p hp
      show Store.run _ ⟨place n, value n⟩ p = _
      unfold Store.run
      rw [if_neg (hp n (Nat.lt_succ_self n))]
      exact hout p fun i hi => hp i (Nat.lt_succ_of_lt hi)

theorem storedOnce (howners : threads.filterMap owner = List.range n)
    (hstores : ∀ t ∈ threads, (trace t).stores = (owner t).toList.map fun i => ⟨place i, value i⟩)
    (hdistinct : ∀ i < n, ∀ j < n, place i = place j → i = j) :
    StoredOnce threads trace owner n place value := by
  refine ⟨howners, hstores, hdistinct, fun order horder old => ?_⟩
  have hall : (threads.flatMap fun t => (trace t).stores) =
      (List.range n).map fun i => (⟨place i, value i⟩ : Store F) := by
    rw [← howners, List.filterMap_eq_flatMap_toList, List.map_flatMap]
    exact List.flatMap_congr hstores
  rw [hall] at horder
  have hplaces : (((List.range n).map fun i => (⟨place i, value i⟩ : Store F)).map (·.addr)).Nodup := by
    rw [List.map_map]
    apply List.Nodup.map_on
    · intro i hi j hj h
      exact hdistinct i (List.mem_range.mp hi) j (List.mem_range.mp hj) h
    · exact List.nodup_range
  rw [Sgemm.Store.run_perm horder ((horder.map _).nodup_iff.mpr hplaces)]
  exact run_outputs hdistinct old

end Outputs

/-! ## The calls -/

section Laws

variable {F : Type} [CommSemiring F] [DecidableEq F] {prop : DeviceProp} {l : Launch} {A X : ℤ → F}

theorem axpy_law {arg : Blas12.AxpyArgs F} (habi : arg.abiVersion = Blas12.GRXBLAS_BLAS12_ABI_VERSION)
    (hflat : Flat prop (flatGrid arg.n prop) l) (hn : arg.n.toNat < 2 ^ 31) (hwarp : 0 < prop.warpSize.toInt)
    (hx : VecRange arg.n.toNat arg.incx) (hy : VecRange arg.n.toNat arg.incy) (hincy : arg.incy.toInt ≠ 0) :
    AxpyLaw l arg X := by
  obtain ⟨hindexed, hcovers⟩ := hflat.covers hn hwarp
  -- a thread with an element reads and stores at its indices, and another does nothing
  have hthread : ∀ t : Thread, Blas12.saxpy (Blas12.exact F) X arg t =
      { x := (elementOf arg.n.toNat t).toList.map (vecAt arg.n.toNat arg.incx.toInt)
        y := (elementOf arg.n.toNat t).toList.map (vecAt arg.n.toNat arg.incy.toInt)
        stores := (elementOf arg.n.toNat t).toList.map fun i => ⟨vecAt arg.n.toNat arg.incy.toInt i,
          fun y => arg.alpha * X (vecAt arg.n.toNat arg.incx.toInt i) + y⟩ } := by
    intro t
    unfold Blas12.saxpy elementOf
    rw [if_neg (not_not.mpr habi)]
    dsimp only
    by_cases hi : t.idx.toNat < arg.n.toNat
    · rw [if_pos hi, if_pos (UInt32.lt_iff_toNat_lt.mpr hi), Blas12.vecIndex_toNat hx hi,
        Blas12.vecIndex_toNat hy hi]
      rfl
    · rw [if_neg hi, if_neg (mt UInt32.lt_iff_toNat_lt.mp hi)]
      rfl
  refine ⟨storedOnce ?_ (fun t _ => ?_) fun i _ j _ => Blas12.vecAt_inj hincy, fun t _ => ?_, fun t _ => ?_⟩
  · rw [hflat.threads_eq]
    exact filterMap_elementOf hindexed hcovers
  · rw [hthread]
  · rw [hthread]
  · rw [hthread]

theorem scal_law {arg : Blas12.ScalArgs F} (habi : arg.abiVersion = Blas12.GRXBLAS_BLAS12_ABI_VERSION)
    (hflat : Flat prop (flatGrid arg.n prop) l) (hn : arg.n.toNat < 2 ^ 31) (hwarp : 0 < prop.warpSize.toInt)
    (hx : VecRange arg.n.toNat arg.incx) (hincx : arg.incx.toInt ≠ 0) : ScalLaw l arg := by
  obtain ⟨hindexed, hcovers⟩ := hflat.covers hn hwarp
  have hthread : ∀ t : Thread, Blas12.sscal (Blas12.exact F) arg t =
      { x := (elementOf arg.n.toNat t).toList.map (vecAt arg.n.toNat arg.incx.toInt)
        stores := (elementOf arg.n.toNat t).toList.map fun i => ⟨vecAt arg.n.toNat arg.incx.toInt i,
          fun x => arg.alpha * x⟩ } := by
    intro t
    unfold Blas12.sscal elementOf
    rw [if_neg (not_not.mpr habi)]
    dsimp only
    by_cases hi : t.idx.toNat < arg.n.toNat
    · rw [if_pos hi, if_pos (UInt32.lt_iff_toNat_lt.mpr hi), Blas12.vecIndex_toNat hx hi]
      rfl
    · rw [if_neg hi, if_neg (mt UInt32.lt_iff_toNat_lt.mp hi)]
      rfl
  refine ⟨storedOnce ?_ (fun t _ => ?_) fun i _ j _ => Blas12.vecAt_inj hincx, fun t _ => ?_⟩
  · rw [hflat.threads_eq]
    exact filterMap_elementOf hindexed hcovers
  · rw [hthread]
  · rw [hthread]

/-- What a thread of a launch of `sgemv` does: one row's terms, whether it stores the row or not. -/
structure GemvThread (tile : TileSize) (arg : Blas12.GemvArgs F) (A X : ℤ → F) (t : Thread) : Prop where
  a : (Blas12.sgemv (Blas12.exact F) A X arg tile t).a = (gemvTerms tile arg t).map fun c => arg.opAt c.1 c.2
  x : (Blas12.sgemv (Blas12.exact F) A X arg tile t).x = (gemvTerms tile arg t).map fun c => arg.xAt c.2
  y : (Blas12.sgemv (Blas12.exact F) A X arg tile t).y =
    if arg.beta = 0 then [] else (gemvOwner arg t).toList.map arg.yAt
  stores : (Blas12.sgemv (Blas12.exact F) A X arg tile t).stores =
    (gemvOwner arg t).toList.map fun i => ⟨arg.yAt i, arg.value A X i⟩

theorem gemvThread_of_does {tile : TileSize} {arg : Blas12.GemvArgs F} {t : Thread} {i : ℕ} {walked : List ℕ}
    {stored : Bool} (hdoes : arg.Does A X i walked stored (Blas12.sgemv (Blas12.exact F) A X arg tile t))
    (hterms : gemvTerms tile arg t = walked.map (i, ·))
    (howner : gemvOwner arg t = if stored then some i else none) : GemvThread tile arg A X t := by
  refine ⟨?_, ?_, ?_, ?_⟩
  · rw [hdoes.a, hterms, List.map_map]
    rfl
  · rw [hdoes.x, hterms, List.map_map]
    rfl
  · rw [hdoes.y, howner]
    cases stored with
    | false =>
      rw [if_neg fun h => Bool.false_ne_true h.1]
      exact (ite_self _).symm
    | true =>
      by_cases hbeta : arg.beta = 0
      · rw [if_neg fun h => h.2 hbeta, if_pos hbeta]
      · rw [if_pos ⟨rfl, hbeta⟩, if_neg hbeta]
        rfl
  · rw [hdoes.stores, howner]
    cases stored with
    | false => rfl
    | true => rfl

theorem gemv_law {tile : TileSize} {arg : Blas12.GemvArgs F}
    (howners : l.threads.filterMap (gemvOwner arg) = List.range arg.rows.toNat)
    (hterms : (l.threads.flatMap (gemvTerms tile arg)).Perm
      ((List.range arg.rows.toNat).flatMap fun i => (List.range arg.depth.toNat).map (i, ·)))
    (hincy : arg.incy.toInt ≠ 0) (hthread : ∀ t ∈ l.threads, GemvThread tile arg A X t) :
    GemvLaw l tile arg A X where
  stored := storedOnce howners (fun t ht => (hthread t ht).stores) fun _ _ _ _ => Blas12.vecAt_inj hincy
  a := fun t ht => (hthread t ht).a
  x := fun t ht => (hthread t ht).x
  terms := hterms
  y := fun t ht => (hthread t ht).y

/-- One thread for each row. -/
theorem gemvN_law {tile : TileSize} {arg : Blas12.GemvArgs F}
    (habi : arg.abiVersion = Blas12.GRXBLAS_BLAS12_ABI_VERSION) (hN : arg.trans = 0)
    (hflat : Flat prop (flatGrid arg.rows prop) l) (hrows : arg.rows.toNat < 2 ^ 31)
    (hwarp : 0 < prop.warpSize.toInt) (harg : arg.InRange) (hincy : arg.incy.toInt ≠ 0) :
    GemvLaw l tile arg A X := by
  obtain ⟨hindexed, hcovers⟩ := hflat.covers hrows hwarp
  have howner : ∀ t, gemvOwner arg t = elementOf arg.rows.toNat t := fun t => if_pos hN
  have howners : l.threads.filterMap (gemvOwner arg) = List.range arg.rows.toNat := by
    rw [List.filterMap_congr fun t _ => howner t, hflat.threads_eq]
    exact filterMap_elementOf hindexed hcovers
  have hterms : ∀ t, gemvTerms tile arg t =
      (elementOf arg.rows.toNat t).toList.flatMap fun i => (List.range arg.depth.toNat).map (i, ·) :=
    fun t => if_pos hN
  apply gemv_law howners
  · rw [List.flatMap_congr fun t _ => hterms t, ← List.flatMap_assoc, ← List.filterMap_eq_flatMap_toList,
      ← List.filterMap_congr fun t _ => howner t, howners]
  · exact hincy
  · intro t _
    have hdoes := Blas12.sgemvN_does (A := A) (X := X) (t := t) harg hN
    have hsgemv : Blas12.sgemv (Blas12.exact F) A X arg tile t = Blas12.sgemvN (Blas12.exact F) A X arg t := by
      unfold Blas12.sgemv
      rw [if_neg (not_not.mpr habi), if_pos hN]
    rw [← hsgemv] at hdoes
    apply gemvThread_of_does hdoes
    · rw [hterms]
      unfold elementOf
      split
      · exact List.flatMap_singleton ..
      · rfl
    · rw [howner]
      unfold elementOf
      by_cases hrow : t.idx.toNat < arg.rows.toNat
      · rw [if_pos hrow, decide_eq_true hrow, if_pos rfl]
      · rw [if_neg hrow, decide_eq_false hrow, if_neg Bool.false_ne_true]

/-- One warp for each column. -/
theorem gemvT_law {tile : TileSize} {arg : Blas12.GemvArgs F} (hplace : tile.Place 0)
    (hfull : tile.Size = tile.warp) (habi : arg.abiVersion = Blas12.GRXBLAS_BLAS12_ABI_VERSION)
    (hT : arg.trans ≠ 0) (hflat : Flat prop arg.rows l) (hwarp : prop.block = tile.warp) (harg : arg.InRange)
    (hincy : arg.incy.toInt ≠ 0) : GemvLaw l tile arg A X := by
  have hblock : l.toGrid.block.toNat = tile.Size := by rw [hflat.block_eq, hwarp, hfull]
  have howner : ∀ t, gemvOwner arg t = columnOf t := fun t => if_neg hT
  have hterms : ∀ t, gemvTerms tile arg t =
      (Lanes.stops tile.Size arg.depth.toNat (Blas12.tileSize_pos tile) t.threadIdxX.toNat).map
        (t.blockIdxX.toNat, ·) := fun t => if_neg hT
  apply gemv_law
  · rw [List.filterMap_congr fun t _ => howner t, hflat.threads_eq, ← hflat.x_eq]
    exact filterMap_columnOf (hblock ▸ Blas12.tileSize_pos tile)
  · have hgrid := flatMap_threads l.toGrid fun b lane =>
      (Lanes.stops tile.Size arg.depth.toNat (Blas12.tileSize_pos tile) lane).map (b, ·)
    rw [List.flatMap_congr fun t _ => hterms t, hflat.threads_eq, hgrid, hflat.x_eq, hblock]
    apply List.Perm.flatMap_left
    intro i _
    rw [← List.map_flatMap]
    exact Lanes.stops_perm.map _
  · exact hincy
  · intro t ht
    rw [hflat.threads_eq] at ht
    obtain ⟨hcol, hlane⟩ := mem_threads ht
    rw [hflat.x_eq] at hcol
    rw [hblock, hfull] at hlane
    have hdoes := Blas12.sgemvT_does (A := A) (X := X) hplace hfull harg hT hcol hlane
    have hsgemv : Blas12.sgemv (Blas12.exact F) A X arg tile t =
        Blas12.sgemvT (Blas12.exact F) A X arg tile t := by
      unfold Blas12.sgemv
      rw [if_neg (not_not.mpr habi), if_neg hT]
    rw [← hsgemv] at hdoes
    apply gemvThread_of_does hdoes (hterms t)
    rw [howner]
    unfold columnOf
    by_cases hfirst : t.threadIdxX.toNat = 0
    · rw [if_pos hfirst, decide_eq_true hfirst, if_pos rfl]
    · rw [if_neg hfirst, decide_eq_false hfirst, if_neg Bool.false_ne_true]

end Laws

/-- A warp of four, as one tile. -/
def warpOfFour : TileSize where
  Size := 4
  warp := 4
  pow := Warp.four_pow
  fits := le_rfl

/-- A transposed product with a `5 x 3` matrix, backwards over `x`. -/
def fiveByThree : GemvArgs where
  trans := true
  m := 5
  n := 3
  a := 0x1000
  lda := 6
  x := 0x2000
  incx := -2
  y := 0x3000
  incy := 1

/-- Its launch: a warp for each of the three columns, of which one lane sums two of the five terms. -/
def fiveByThreeLaunch : Launch where
  kernel := .sgemv
  device := 0
  grid := (3, 1)
  block := 4
  stream := none
  refused := none

end Grxcp.Blas
