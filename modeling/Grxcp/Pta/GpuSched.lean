import Grxcp.Lib.Recency
import Grxcp.Lib.Tiles
import Mathlib.Data.Int.CardIntervalMod

/-!
# The weight sets of a kernel

`pta_gpu_sched.py`: the stream of weight sets that one cluster's tile sees, in the natural order of the grid,
with the blocks of a column on one cluster, and with the k loop above the grid; and what a walk of it selects
and loads with `W` banks. A block of the grid goes through the sets of its column once (`ctaSets`), so either
order goes through whole columns, and the banks find nothing until they hold one.
-/

namespace Grxcp.GpuSched

open Recency (cached cached_hit cached_miss cached_nil length_flatten_replicate loads loads_concat loads_cycle
  loads_fresh loads_phases)

/-! ## The streams and the walk -/

/-- `NUM_CLUSTERS`. -/
def numClusters : ℕ := 8

/-- A kernel's tiling. -/
structure Kernel where
  M : ℕ
  N : ℕ
  K : ℕ
  BM : ℕ
  BN : ℕ
  BK : ℕ

/-- `tile_sets`. -/
def tileSets (kernel : Kernel) (R C : ℕ) : ℕ × ℕ × ℕ × ℕ :=
  (kernel.K / R, kernel.N / C, kernel.BK / R, kernel.BN / C)

/-- What a CTA of the n block `nb` yields. -/
def ctaSets (kernel : Kernel) (R C nb : ℕ) : List ℕ :=
  let kt := kernel.K / kernel.BK
  let (_, ncs, kr_per, nc_per) := tileSets kernel R C
  (List.range kt).flatMap fun k => (List.range kr_per).flatMap fun i =>
    let kr := k * kr_per + i
    let base := kr * ncs + nb * nc_per
    (List.range nc_per).map fun j => base + j

/-- A CTA of `stream_k_inner`: `cta`, and what has been yielded. -/
def kInnerStep (kernel : Kernel) (R C cluster : ℕ) (s : ℕ × List ℕ) (nb : ℕ) : ℕ × List ℕ :=
  let mine := s.1 % numClusters = cluster
  (s.1 + 1, s.2 ++ if mine then ctaSets kernel R C nb else [])

/-- `stream_k_inner`. -/
def streamKInner (kernel : Kernel) (R C cluster : ℕ) : List ℕ :=
  let mt := kernel.M / kernel.BM
  let nt := kernel.N / kernel.BN
  ((List.range mt).foldl (fun s _ => (List.range nt).foldl (kInnerStep kernel R C cluster) s) (0, [])).2

/-- `stream_affinity`. -/
def streamAffinity (kernel : Kernel) (R C cluster : ℕ) : List ℕ :=
  let mt := kernel.M / kernel.BM
  let nt := kernel.N / kernel.BN
  (List.range nt).flatMap fun nb =>
    if nb % numClusters ≠ cluster then [] else (List.range mt).flatMap fun _ => ctaSets kernel R C nb

/-- A set of `stream_declared`: `i`, and what has been yielded. -/
def declaredStep (ncs cluster kr : ℕ) (s : ℕ × List ℕ) (nc : ℕ) : ℕ × List ℕ :=
  (s.1 + 1, s.2 ++ if s.1 % numClusters = cluster then [kr * ncs + nc] else [])

/-- `stream_declared`. -/
def streamDeclared (kernel : Kernel) (R C cluster : ℕ) : List ℕ :=
  let (krs, ncs, _, _) := tileSets kernel R C
  ((List.range krs).foldl (fun s kr => (List.range ncs).foldl (declaredStep ncs cluster kr) s) (0, [])).2

/-- The state of `walk`: the keys of `banks` in their order, and the counts. -/
structure Walk where
  banks : List ℕ := []
  cur : Option ℕ := none
  refs : ℕ := 0
  selects : ℕ := 0
  loads : ℕ := 0

/-- A reference of `walk`. -/
def walkStep (W : ℕ) (s : Walk) (wid : ℕ) : Walk :=
  let s := { s with refs := s.refs + 1 }
  if s.cur = some wid then s
  else if wid ∈ s.banks then
    { s with banks := s.banks.erase wid ++ [wid], selects := s.selects + 1, cur := some wid }
  else
    let banks := s.banks ++ [wid]
    { s with
      loads := s.loads + 1
      banks := if W < banks.length then banks.tail else banks
      cur := some wid }

/-- `walk`: the references, the selects and the loads. -/
def walk (stream : List ℕ) (W : ℕ) : ℕ × ℕ × ℕ :=
  let s := stream.foldl (walkStep W) {}
  (s.refs, s.selects, s.loads)

/-! ## What a walk loads -/

section Walks

variable {W : ℕ}

/-- What `walk` keeps: its banks are the sets used last, and the set that drives the tile is the last of them. -/
structure Walk.After (W : ℕ) (stream : List ℕ) (s : Walk) : Prop where
  banks : s.banks = cached W stream
  cur : s.cur = stream.getLast?
  refs : s.refs = stream.length
  loads : s.loads = Recency.loads W [] stream
  moved : s.selects + s.loads ≤ s.refs

theorem walkStep_after (hW : 1 ≤ W) {stream : List ℕ} {s : Walk} (hs : s.After W stream) (wid : ℕ) :
    (walkStep W s wid).After W (stream ++ [wid]) := by
  have hlen : s.refs + 1 = (stream ++ [wid]).length := by
    rw [hs.refs, List.length_append, List.length_singleton]
  have hlast : some wid = (stream ++ [wid]).getLast? := List.getLast?_concat.symm
  have hmoved := hs.moved
  have hbanks := hs.banks
  have hloads : Recency.loads W [] (stream ++ [wid]) = s.loads + if wid ∈ s.banks then 0 else 1 := by
    rw [loads_concat, List.nil_append, hs.loads, hbanks]
  unfold walkStep
  dsimp only
  by_cases hcur : s.cur = some wid
  · -- the set is the last one used, and moving it to the end moves nothing
    rw [hs.cur] at hcur
    obtain ⟨before, rfl⟩ := List.getLast?_eq_some_iff.mp hcur
    have hdrives : wid ∈ cached W (before ++ [wid]) := by
      apply (Recency.mem_cached_iff before List.not_mem_nil).mpr
      rw [List.toFinset_nil, Finset.card_empty]
      exact hW
    have hsame : cached W (before ++ [wid] ++ [wid]) = cached W (before ++ [wid]) := by
      unfold cached
      rw [Recency.recency_concat (before ++ [wid]), Recency.recency_concat before,
        List.erase_append_right _ (Recency.nodup_recency before).not_mem_erase, List.erase_cons_head,
        List.append_nil]
    rw [if_pos (hs.cur.trans hcur)]
    rw [hbanks, if_pos hdrives, Nat.add_zero] at hloads
    exact ⟨hbanks.trans hsame.symm, (hs.cur.trans hcur).trans hlast, hlen, hloads.symm, Nat.le_succ_of_le hmoved⟩
  rw [if_neg hcur]
  by_cases hmem : wid ∈ s.banks
  · rw [if_pos hmem] at hloads ⊢
    rw [hbanks] at hmem ⊢
    exact ⟨(cached_hit hmem).symm, hlast, hlen, hloads.symm, by dsimp only; omega⟩
  · rw [if_neg hmem] at hloads ⊢
    rw [hbanks] at hmem ⊢
    exact ⟨(cached_miss hmem).symm, hlast, hlen, hloads.symm, by dsimp only; omega⟩

/-- A walk loads what is not among the `W` sets used last, and selects no more than the rest. -/
theorem walk_spec (hW : 1 ≤ W) (stream : List ℕ) :
    ∃ selects, walk stream W = (stream.length, selects, loads W [] stream) ∧
      selects + loads W [] stream ≤ stream.length := by
  have hrun : (stream.foldl (walkStep W) {}).After W stream := by
    induction stream using List.reverseRecOn with
    | nil => exact ⟨(cached_nil W).symm, rfl, rfl, rfl, le_rfl⟩
    | append_singleton stream wid ih =>
      rw [List.foldl_append]
      exact walkStep_after hW ih wid
  refine ⟨(stream.foldl (walkStep W) {}).selects, ?_, ?_⟩
  · unfold walk
    rw [← hrun.loads, ← hrun.refs]
  · rw [← hrun.loads, ← hrun.refs]
    exact hrun.moved

/-- A stream in which nothing is found is loaded at every reference. -/
theorem walk_of_loads (hW : 1 ≤ W) {stream : List ℕ} (hall : loads W [] stream = stream.length) :
    walk stream W = (stream.length, 0, stream.length) := by
  obtain ⟨selects, hwalk, hle⟩ := walk_spec hW stream
  have hnone : selects = 0 := by omega
  rw [hwalk, hnone, hall]

end Walks

/-! ## Loops with a counter -/

/-- A loop that counts by `d` and appends. -/
theorem foldl_counted {step : ℕ × List ℕ → ℕ → ℕ × List ℕ} {d : ℕ} {g : ℕ → ℕ → List ℕ}
    (hstep : ∀ s x, step s x = (s.1 + d, s.2 ++ g s.1 x)) (n : ℕ) (s : ℕ × List ℕ) :
    (List.range n).foldl step s = (s.1 + n * d, s.2 ++ (List.range n).flatMap fun x => g (s.1 + x * d) x) := by
  induction n with
  | zero =>
    rw [Nat.zero_mul]
    exact Prod.ext rfl (List.append_nil _).symm
  | succ n ih =>
    rw [List.range_succ, List.foldl_append, ih, List.foldl_cons, List.foldl_nil, hstep, List.flatMap_append,
      List.flatMap_singleton, List.append_assoc, Nat.succ_mul, Nat.add_assoc]

/-- Two loops, the one in the other, that count together. -/
theorem foldl_nested {f : ℕ → ℕ × List ℕ → ℕ → ℕ × List ℕ} {g : ℕ → ℕ → ℕ → List ℕ}
    (hstep : ∀ x s y, f x s y = (s.1 + 1, s.2 ++ g x s.1 y)) (m n : ℕ) :
    ((List.range m).foldl (fun s x => (List.range n).foldl (f x) s) (0, [])).2 =
      (List.range m).flatMap fun x => (List.range n).flatMap fun y => g x (x * n + y) y := by
  have houter : ∀ s x, (List.range n).foldl (f x) s =
      (s.1 + n, s.2 ++ (List.range n).flatMap fun y => g x (s.1 + y) y) := by
    intro s x
    rw [foldl_counted (hstep x)]
    simp only [Nat.mul_one]
  rw [foldl_counted (g := fun c x => (List.range n).flatMap fun y => g x (c + y) y) houter, List.nil_append]
  simp only [Nat.zero_add]

theorem flatMap_range_mul (m n : ℕ) (f : ℕ → List ℕ) :
    ((List.range m).flatMap fun x => (List.range n).flatMap fun y => f (x * n + y)) =
      (List.range (m * n)).flatMap f := by
  rw [← Tiles.flatMap_blocks, List.flatMap_assoc]
  simp only [List.flatMap_map]

theorem flatMap_range_const (n : ℕ) (l : List ℕ) :
    ((List.range n).flatMap fun _ => l) = (List.replicate n l).flatten := by
  rw [List.flatMap_def, List.map_const', List.length_range]

/-- Of a whole number of turns, every cluster takes as many. -/
theorem length_turns (a cluster : ℕ) :
    ((List.range (a * numClusters)).filter (· % numClusters = cluster)).length =
      if cluster < numClusters then a else 0 := by
  rw [← List.countP_eq_length_filter]
  split_ifs with hcluster
  · have hmod : ∀ x, x % numClusters = cluster ↔ x ≡ cluster [MOD numClusters] := by
      intro x
      rw [Nat.ModEq, Nat.mod_eq_of_lt hcluster]
    have hcount := Nat.count_modEq_card (a * numClusters) (by decide : 0 < numClusters) cluster
    rw [Nat.mul_div_cancel _ (by decide), Nat.mul_mod_left, if_neg (Nat.not_lt_zero _), Nat.add_zero] at hcount
    refine Eq.trans ?_ hcount
    apply List.countP_congr
    intro x _
    rw [decide_eq_true_iff, decide_eq_true_iff, hmod]
  · rw [List.countP_eq_zero]
    intro x _ hx
    exact hcluster (of_decide_eq_true hx ▸ Nat.mod_lt x (by decide))

/-! ## The columns of the grid -/

/-- The tile divides the blocks, the blocks divide the kernel, and the n blocks are dealt out evenly. -/
structure Kernel.Tiled (kernel : Kernel) (R C : ℕ) : Prop where
  M_pos : 0 < kernel.M
  BM_dvd : kernel.BM ∣ kernel.M
  BN_pos : 0 < kernel.BN
  BN_dvd : kernel.BN ∣ kernel.N
  BK_pos : 0 < kernel.BK
  BK_dvd : kernel.BK ∣ kernel.K
  R_dvd : R ∣ kernel.BK
  C_dvd : C ∣ kernel.BN
  turns : numClusters ∣ kernel.N / kernel.BN

section Columns

variable {kernel : Kernel} {R C : ℕ}

/-- The k blocks are of whole rows of sets. -/
theorem Kernel.Tiled.depth (h : kernel.Tiled R C) : kernel.K / kernel.BK * (kernel.BK / R) = kernel.K / R := by
  rw [Nat.div_mul_div_comm h.BK_dvd h.R_dvd, Nat.mul_comm, Nat.mul_div_mul_left _ _ h.BK_pos]

/-- The n blocks are of whole columns of sets. -/
theorem Kernel.Tiled.width (h : kernel.Tiled R C) : kernel.N / C = kernel.N / kernel.BN * (kernel.BN / C) := by
  rw [Nat.div_mul_div_comm h.BN_dvd h.C_dvd, Nat.mul_comm, Nat.mul_div_mul_left _ _ h.BN_pos]

/-- There is a row of blocks. -/
theorem Kernel.Tiled.exists_rows (h : kernel.Tiled R C) : ∃ n, kernel.M / kernel.BM = n + 1 :=
  Nat.exists_eq_add_one.mpr
    (Nat.div_pos (Nat.le_of_dvd h.M_pos h.BM_dvd) (Nat.pos_of_dvd_of_pos h.BM_dvd h.M_pos))

theorem ctaSets_eq (h : kernel.Tiled R C) (nb : ℕ) : ctaSets kernel R C nb =
    (List.range (kernel.K / R)).flatMap fun kr =>
      (List.range (kernel.BN / C)).map fun j => kr * (kernel.N / C) + nb * (kernel.BN / C) + j := by
  rw [← h.depth]
  exact flatMap_range_mul _ _ fun kr =>
    (List.range (kernel.BN / C)).map fun j => kr * (kernel.N / C) + nb * (kernel.BN / C) + j

theorem length_ctaSets (h : kernel.Tiled R C) (nb : ℕ) :
    (ctaSets kernel R C nb).length = kernel.K / R * (kernel.BN / C) := by
  rw [ctaSets_eq h, List.length_flatMap]
  simp only [List.length_map, List.length_range, List.map_const', List.sum_replicate_nat]

/-- The row and the column block of a set. -/
theorem row_column {k nt nb w j : ℕ} (hnb : nb < nt) (hj : j < w) :
    (k * (nt * w) + nb * w + j) / (nt * w) = k ∧ (k * (nt * w) + nb * w + j) % (nt * w) / w = nb := by
  have hin : nb * w + j < nt * w := by
    have hle := Nat.mul_le_mul_right w (Nat.succ_le_of_lt hnb)
    rw [Nat.succ_mul] at hle
    omega
  have hw : 0 < w := Nat.zero_lt_of_lt hj
  rw [Nat.add_assoc, Nat.mul_comm k, Nat.mul_add_div (Nat.zero_lt_of_lt hin), Nat.div_eq_of_lt hin, Nat.mul_add_mod,
    Nat.mod_eq_of_lt hin, Nat.mul_comm nb, Nat.mul_add_div hw, Nat.div_eq_of_lt hj]
  exact ⟨rfl, rfl⟩

/-- A set is in the column that its number gives. -/
theorem column_of_mem (h : kernel.Tiled R C) {nb id : ℕ} (hnb : nb < kernel.N / kernel.BN)
    (hid : id ∈ ctaSets kernel R C nb) : id % (kernel.N / C) / (kernel.BN / C) = nb := by
  rw [ctaSets_eq h] at hid
  obtain ⟨kr, -, hid⟩ := List.mem_flatMap.mp hid
  obtain ⟨j, hj, rfl⟩ := List.mem_map.mp hid
  rw [h.width]
  exact (row_column hnb (List.mem_range.mp hj)).2

theorem nodup_ctaSets (h : kernel.Tiled R C) {nb : ℕ} (hnb : nb < kernel.N / kernel.BN) :
    (ctaSets kernel R C nb).Nodup := by
  rw [ctaSets_eq h, List.nodup_flatMap]
  constructor
  · intro kr _
    exact List.nodup_range.map (add_right_injective _)
  · apply List.nodup_range.imp
    intro kr kr' hne id hid hid'
    obtain ⟨j, hj, rfl⟩ := List.mem_map.mp hid
    obtain ⟨j', hj', heq⟩ := List.mem_map.mp hid'
    rw [h.width] at heq
    apply hne
    rw [← (row_column (k := kr) hnb (List.mem_range.mp hj)).1, ← heq]
    exact (row_column hnb (List.mem_range.mp hj')).1

/-- The n blocks that are dealt to a cluster. -/
def dealt (kernel : Kernel) (cluster : ℕ) : List ℕ :=
  (List.range (kernel.N / kernel.BN)).filter (· % numClusters = cluster)

/-- What each of them goes through. -/
def columns (kernel : Kernel) (R C cluster : ℕ) : List (List ℕ) :=
  (dealt kernel cluster).map (ctaSets kernel R C)

/-- In a column there are as many sets as the period, and each once. -/
theorem column_sets (h : kernel.Tiled R C) {cluster : ℕ} {ids : List ℕ} (hids : ids ∈ columns kernel R C cluster) :
    ids.Nodup ∧ ids.length = kernel.K / R * (kernel.BN / C) := by
  obtain ⟨nb, hnb, rfl⟩ := List.mem_map.mp hids
  exact ⟨nodup_ctaSets h (List.mem_range.mp (List.mem_filter.mp hnb).1), length_ctaSets h nb⟩

theorem pairwise_columns (h : kernel.Tiled R C) (cluster : ℕ) :
    (columns kernel R C cluster).Pairwise List.Disjoint := by
  unfold columns dealt
  rw [List.pairwise_map]
  apply ((List.nodup_range.filter _).imp_of_mem _)
  intro nb nb' hnb hnb' hne id hid hid'
  have hlt := List.mem_range.mp (List.mem_filter.mp hnb).1
  have hlt' := List.mem_range.mp (List.mem_filter.mp hnb').1
  exact hne ((column_of_mem h hlt hid).symm.trans (column_of_mem h hlt' hid'))

theorem streamAffinity_eq (kernel : Kernel) (R C cluster : ℕ) : streamAffinity kernel R C cluster =
    (columns kernel R C cluster).flatMap fun ids => (List.replicate (kernel.M / kernel.BM) ids).flatten := by
  unfold streamAffinity columns dealt
  simp only [ite_not, flatMap_range_const, List.flatMap_map]
  exact Tiles.flatMap_ite (· % numClusters = cluster) _ _

theorem streamKInner_eq (h : kernel.Tiled R C) (cluster : ℕ) : streamKInner kernel R C cluster =
    (List.replicate (kernel.M / kernel.BM) (columns kernel R C cluster).flatten).flatten := by
  have hturn : ∀ mb nb, (mb * (kernel.N / kernel.BN) + nb) % numClusters = nb % numClusters := by
    intro mb nb
    obtain ⟨q, hq⟩ := h.turns
    rw [hq, Nat.mul_left_comm, Nat.mul_add_mod]
  have hflat : (columns kernel R C cluster).flatten = (List.range (kernel.N / kernel.BN)).flatMap fun nb =>
      if nb % numClusters = cluster then ctaSets kernel R C nb else [] := by
    rw [Tiles.flatMap_ite (· % numClusters = cluster), List.flatMap_def]
    rfl
  unfold streamKInner
  dsimp only
  rw [foldl_nested (f := fun _ => kInnerStep kernel R C cluster)
    (g := fun _ c nb => if c % numClusters = cluster then ctaSets kernel R C nb else []) fun _ _ _ => rfl]
  simp only [hturn]
  rw [flatMap_range_const, hflat]

theorem streamDeclared_eq (kernel : Kernel) (R C cluster : ℕ) : streamDeclared kernel R C cluster =
    (List.range (kernel.K / R * (kernel.N / C))).filter (· % numClusters = cluster) := by
  unfold streamDeclared tileSets
  dsimp only
  rw [foldl_nested (f := fun kr => declaredStep (kernel.N / C) cluster kr)
    (g := fun kr i nc => if i % numClusters = cluster then [kr * (kernel.N / C) + nc] else []) fun _ _ _ => rfl,
    flatMap_range_mul _ _ fun x => if x % numClusters = cluster then [x] else [],
    Tiles.flatMap_ite (· % numClusters = cluster), List.flatMap_singleton']

/-- A cluster has as many columns as it has turns. -/
theorem length_columns (h : kernel.Tiled R C) (cluster : ℕ) : (columns kernel R C cluster).length =
    if cluster < numClusters then kernel.N / kernel.BN / numClusters else 0 := by
  have hturns := Nat.div_mul_cancel h.turns
  unfold columns dealt
  rw [List.length_map]
  nth_rewrite 1 [← hturns]
  exact length_turns ..

/-- The natural order's loads, in fewer banks than a column has sets. -/
theorem loads_kInner (h : kernel.Tiled R C) (cluster : ℕ) {W : ℕ} (hW : W < kernel.K / R * (kernel.BN / C)) :
    loads W [] (streamKInner kernel R C cluster) = (streamKInner kernel R C cluster).length := by
  obtain ⟨n, hn⟩ := h.exists_rows
  have hnodup : (columns kernel R C cluster).flatten.Nodup := by
    rw [List.nodup_flatten]
    exact ⟨fun ids hids => (column_sets h hids).1, pairwise_columns h cluster⟩
  rw [streamKInner_eq h, hn, loads_cycle W hnodup (List.disjoint_nil_left _)]
  split_ifs with hfits
  · -- that is so of no columns only
    cases hcols : columns kernel R C cluster with
    | nil => rw [length_flatten_replicate, List.flatten_nil, List.length_nil, Nat.mul_zero]
    | cons ids rest =>
      have hids : ids ∈ columns kernel R C cluster := by
        rw [hcols]
        exact List.mem_cons_self
      rw [hcols, List.flatten_cons, List.length_append, (column_sets h hids).2] at hfits
      omega
  · rfl

/-- What the columns, one after the other, load. -/
theorem loads_affinity (h : kernel.Tiled R C) (cluster W : ℕ) :
    loads W [] (streamAffinity kernel R C cluster) = (columns kernel R C cluster).length *
      if kernel.K / R * (kernel.BN / C) ≤ W then kernel.K / R * (kernel.BN / C)
      else kernel.M / kernel.BM * (kernel.K / R * (kernel.BN / C)) := by
  obtain ⟨n, hn⟩ := h.exists_rows
  rw [streamAffinity_eq, hn]
  apply loads_phases
  · exact fun ids hids => (column_sets h hids).1
  · exact fun ids hids => (column_sets h hids).2
  · exact pairwise_columns h cluster
  · exact fun ids _ => List.disjoint_nil_left ids

/-- Either order refers to every column once for each row block. -/
theorem length_streams (h : kernel.Tiled R C) (cluster : ℕ) :
    (streamAffinity kernel R C cluster).length = (columns kernel R C cluster).length *
        (kernel.M / kernel.BM * (kernel.K / R * (kernel.BN / C))) ∧
      (streamKInner kernel R C cluster).length = (streamAffinity kernel R C cluster).length := by
  have hlen : ∀ ids ∈ columns kernel R C cluster, ids.length = kernel.K / R * (kernel.BN / C) :=
    fun ids hids => (column_sets h hids).2
  rw [streamKInner_eq h, streamAffinity_eq, length_flatten_replicate, List.length_flatten, List.length_flatMap]
  simp only [length_flatten_replicate]
  rw [List.sum_eq_card_nsmul ((columns kernel R C cluster).map fun ids => _) _ (by
      intro x hx
      obtain ⟨ids, hids, rfl⟩ := List.mem_map.mp hx
      rw [hlen ids hids]),
    List.sum_eq_card_nsmul ((columns kernel R C cluster).map List.length) _ (by
      intro x hx
      obtain ⟨ids, hids, rfl⟩ := List.mem_map.mp hx
      exact hlen ids hids),
    List.length_map, List.length_map, smul_eq_mul, smul_eq_mul]
  exact ⟨rfl, Nat.mul_left_comm ..⟩

/-- The slot that is declared loads every set of the cluster's columns once. -/
theorem loads_declared (h : kernel.Tiled R C) (cluster : ℕ) :
    (walk (streamDeclared kernel R C cluster) 1).2.2 =
      (columns kernel R C cluster).length * (kernel.K / R * (kernel.BN / C)) := by
  obtain ⟨selects, hwalk, -⟩ := walk_spec le_rfl (streamDeclared kernel R C cluster)
  have hturns := Nat.div_mul_cancel h.turns
  have hall : kernel.K / R * (kernel.N / C) =
      kernel.K / R * (kernel.N / kernel.BN / numClusters * (kernel.BN / C)) * numClusters := by
    rw [h.width]
    nth_rewrite 1 [← hturns]
    ring
  rw [hwalk, streamDeclared_eq, hall]
  dsimp only
  rw [loads_fresh (List.nodup_range.filter _) (List.disjoint_nil_left _), length_turns, length_columns h]
  split_ifs
  · ring
  · rw [Nat.zero_mul]

/-- Below the period the order of the blocks makes no difference: every reference is a load. From the period on
a cluster that keeps to its columns loads each set once, as it does with one bank where the slot is declared. -/
theorem affinity_period (h : kernel.Tiled R C) (cluster : ℕ) :
    (∀ W, 1 ≤ W → W < kernel.K / R * (kernel.BN / C) →
      walk (streamAffinity kernel R C cluster) W = walk (streamKInner kernel R C cluster) W ∧
        ∃ refs, walk (streamAffinity kernel R C cluster) W = (refs, 0, refs)) ∧
      ∀ W, kernel.K / R * (kernel.BN / C) ≤ W →
        (walk (streamAffinity kernel R C cluster) W).2.2 * (kernel.M / kernel.BM) =
            (walk (streamAffinity kernel R C cluster) W).1 ∧
          (walk (streamAffinity kernel R C cluster) W).2.2 = (walk (streamDeclared kernel R C cluster) 1).2.2 := by
  obtain ⟨hlen, hsame⟩ := length_streams h cluster
  constructor
  · intro W hW hbelow
    have hall : loads W [] (streamAffinity kernel R C cluster) = (streamAffinity kernel R C cluster).length := by
      rw [loads_affinity h, if_neg (not_le.mpr hbelow), hlen]
    have haffinity := walk_of_loads hW hall
    rw [haffinity, walk_of_loads hW (loads_kInner h cluster hbelow), hsame]
    exact ⟨rfl, _, rfl⟩
  · intro W hperiod
    rw [loads_declared h]
    rcases Nat.eq_zero_or_pos W with rfl | hW
    · -- a period of nothing: there is no reference
      rw [Nat.le_zero.mp hperiod, Nat.mul_zero, Nat.mul_zero] at hlen
      rw [List.eq_nil_of_length_eq_zero hlen, Nat.le_zero.mp hperiod, Nat.mul_zero]
      exact ⟨Nat.zero_mul _, rfl⟩
    · obtain ⟨selects, hwalk, -⟩ := walk_spec hW (streamAffinity kernel R C cluster)
      rw [hwalk, loads_affinity h, if_pos hperiod, hlen]
      exact ⟨by ring, rfl⟩

/-- Eight columns of two sets, and two row blocks. -/
theorem affinity_period_two : Kernel.Tiled ⟨2, 8, 2, 1, 1, 1⟩ 1 1 ∧
    walk (streamAffinity ⟨2, 8, 2, 1, 1, 1⟩ 1 1 3) 1 = walk (streamKInner ⟨2, 8, 2, 1, 1, 1⟩ 1 1 3) 1 ∧
    (walk (streamAffinity ⟨2, 8, 2, 1, 1, 1⟩ 1 1 3) 2).2.2 =
      (walk (streamDeclared ⟨2, 8, 2, 1, 1, 1⟩ 1 1 3) 1).2.2 := by
  have htiled : Kernel.Tiled ⟨2, 8, 2, 1, 1, 1⟩ 1 1 := by
    constructor <;> decide
  obtain ⟨hbelow, hperiod⟩ := affinity_period htiled 3
  exact ⟨htiled, (hbelow 1 (by decide) (by decide)).1, (hperiod 2 (by decide)).2⟩

example : walk (streamAffinity ⟨2, 8, 2, 1, 1, 1⟩ 1 1 3) 2 = (4, 2, 2) := by
  decide

end Columns

end Grxcp.GpuSched
