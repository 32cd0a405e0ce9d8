import Mathlib.Algebra.Order.Floor.Div
import Grxcp.Lib.Paging

/-!
# The policies for the weight banks

`pta_bank_policy.py`: which weight sets the banks hold over a stream of references, under least recently used,
first in first out, farthest in the future, and a pinned layer with one victim. Each policy is the loop over
the references, and counts its misses.
-/

namespace Grxcp.BankPolicy

variable {α : Type*} [DecidableEq α]

/-! ## The policies -/

/-- The state of `misses_lru`: `banks`, least recently used first, and `m`. -/
structure Lru (α : Type*) where
  banks : List α := []
  m : ℕ := 0

/-- A reference of `misses_lru`. -/
def lruStep (W : ℕ) (s : Lru α) (r : α) : Lru α :=
  if r ∈ s.banks then { s with banks := s.banks.erase r ++ [r] }
  else
    let banks := s.banks ++ [r]
    { banks := if W < banks.length then banks.tail else banks, m := s.m + 1 }

/-- `misses_lru`. -/
def missesLru (refs : List α) (W : ℕ) : ℕ :=
  (refs.foldl (lruStep W) {}).m

/-- The state of `misses_fifo`. -/
structure Fifo (α : Type*) where
  banks : List α := []
  held : Finset α := ∅
  m : ℕ := 0

/-- A reference of `misses_fifo`. -/
def fifoStep (W : ℕ) (s : Fifo α) (r : α) : Fifo α :=
  if r ∈ s.held then s
  else
    let banks := s.banks ++ [r]
    let held := insert r s.held
    match banks with
    | oldest :: rest =>
      if W < banks.length then { banks := rest, held := held.erase oldest, m := s.m + 1 }
      else { banks, held, m := s.m + 1 }
    | [] => { banks, held, m := s.m + 1 }

/-- `misses_fifo`. -/
def missesFifo (refs : List α) (W : ℕ) : ℕ :=
  (refs.foldl (fifoStep W) {}).m

/-- The order in which a set is gone through, at each step. It is any. -/
structure SetOrder (α : Type*) where
  iter : ℕ → Finset α → List α
  mem_iter : ∀ i s x, x ∈ iter i s ↔ x ∈ s

/-- `nxt`: the positions of each reference. -/
def positions (refs : List α) : α → List ℕ :=
  refs.zipIdx.foldl (fun nxt r => Function.update nxt r.1 (nxt r.1 ++ [r.2])) fun _ => []

/-- The state of `misses_min`. -/
structure Min (α : Type*) where
  pos : α → ℕ := fun _ => 0
  held : Finset α := ∅
  m : ℕ := 0

/-- `next_use`, with `float('inf')` where there is none. -/
def Min.nextUse (s : Min α) (nxt : α → List ℕ) (x : α) : WithTop ℕ :=
  match (nxt x)[s.pos x]? with
  | some p => p
  | none => ⊤

/-- A reference of `misses_min`. The largest of no elements is an error. -/
def minStep (o : SetOrder α) (nxt : α → List ℕ) (W : ℕ) (s : Min α) (ri : α × ℕ) : Option (Min α) :=
  let r := ri.1
  let i := ri.2
  let s := { s with pos := Function.update s.pos r (s.pos r + 1) }
  if r ∈ s.held then some s
  else if s.held.card < W then some { s with held := insert r s.held, m := s.m + 1 }
  else
    match (o.iter i s.held).argmax (s.nextUse nxt) with
    | none => none
    | some victim =>
      if (i : WithTop ℕ) < s.nextUse nxt victim then
        some { s with held := insert r (s.held.erase victim), m := s.m + 1 }
      else some { s with m := s.m + 1 }

/-- `misses_min`. -/
def missesMin (o : SetOrder α) (refs : List α) (W : ℕ) : Option ℕ :=
  (refs.zipIdx.foldlM (minStep o (positions refs) W) {}).map (·.m)

/-! ## They are demand schedules -/

section Demand

open Paging (Demand Serves misses nextUse Farthest FarthestSchedule exists_serves farthest_misses_le)

variable {W : ℕ} {refs : List α}

/-- A queue of banks takes a set that it does not have, and lets go of its oldest where that is one too many. -/
theorem enqueue {banks : List α} {r : α} (hW : 1 ≤ W) (hnodup : banks.Nodup) (hlen : banks.length ≤ W)
    (hmem : r ∉ banks) {next : List α}
    (hnext : next = if W < (banks ++ [r]).length then (banks ++ [r]).tail else banks ++ [r]) :
    (next.Nodup ∧ next.length ≤ W) ∧ Demand W banks.toFinset r next.toFinset := by
  have hall : (banks ++ [r]).Nodup := by
    rw [List.nodup_append_comm]
    exact List.nodup_cons.mpr ⟨hmem, hnodup⟩
  have hsub : (banks ++ [r]).toFinset ⊆ insert r banks.toFinset := by
    intro x hx
    rw [List.mem_toFinset, List.mem_append, List.mem_singleton] at hx
    rw [Finset.mem_insert, List.mem_toFinset]
    exact hx.symm
  subst hnext
  split_ifs with hlong
  · have hlast : r ∈ (banks ++ [r]).tail := by
      cases banks with
      | nil =>
        rw [List.nil_append, List.length_singleton] at hlong
        omega
      | cons b banks => exact List.mem_append_right _ (List.mem_singleton.mpr rfl)
    have hlen' : (banks ++ [r]).tail.length ≤ W := by
      rw [List.length_tail, List.length_append, List.length_singleton]
      omega
    refine ⟨⟨hall.tail, hlen'⟩, List.mem_toFinset.mpr hlast, ?_, (List.toFinset_card_le _).trans hlen'⟩
    intro x hx
    exact hsub (List.mem_toFinset.mpr (List.mem_of_mem_tail (List.mem_toFinset.mp hx)))
  · have hlen' := not_lt.mp hlong
    refine ⟨⟨hall, hlen'⟩, ?_, hsub, (List.toFinset_card_le _).trans hlen'⟩
    exact List.mem_toFinset.mpr (List.mem_append_right _ (List.mem_singleton.mpr rfl))

/-- `misses_lru` serves its references from at most `W` banks. -/
theorem lru_serves (hW : 1 ≤ W) (refs : List α) :
    ∃ schedule, Serves W refs ∅ schedule ∧ missesLru refs W = misses refs ∅ schedule := by
  have hstep : ∀ (s : Lru α) r (refs : List α), (s.banks.Nodup ∧ s.banks.length ≤ W) →
      ((lruStep W s r).banks.Nodup ∧ (lruStep W s r).banks.length ≤ W) ∧
        Demand W s.banks.toFinset r (lruStep W s r).banks.toFinset ∧
        (lruStep W s r).m = s.m + if r ∈ s.banks.toFinset then 0 else 1 := by
    rintro s r - ⟨hnodup, hlen⟩
    unfold lruStep
    by_cases hmem : r ∈ s.banks
    · have hperm : (s.banks.erase r ++ [r]).Perm s.banks :=
        (List.perm_append_singleton r _).trans (List.perm_cons_erase hmem).symm
      have hset : (s.banks.erase r ++ [r]).toFinset = s.banks.toFinset := List.toFinset_eq_of_perm _ _ hperm
      rw [if_pos hmem, if_pos (List.mem_toFinset.mpr hmem)]
      refine ⟨⟨hperm.nodup_iff.mpr hnodup, hperm.length_eq ▸ hlen⟩, ?_, rfl⟩
      rw [hset]
      exact ⟨List.mem_toFinset.mpr hmem, Finset.subset_insert .., (List.toFinset_card_le _).trans hlen⟩
    · rw [if_neg hmem, if_neg (mt List.mem_toFinset.mp hmem)]
      obtain ⟨hnext, hdemand⟩ := enqueue hW hnodup hlen hmem rfl
      exact ⟨hnext, hdemand, rfl⟩
  obtain ⟨schedule, hserves, hmisses⟩ := exists_serves (fun s => s.banks.toFinset) Lru.m
    (fun _ s => s.banks.Nodup ∧ s.banks.length ≤ W) hstep refs {} ⟨List.nodup_nil, Nat.zero_le _⟩
  refine ⟨schedule, hserves, ?_⟩
  unfold missesLru
  rw [hmisses, Nat.zero_add]
  rfl

/-- What `misses_fifo` keeps: the set is that of the queue. -/
structure Fifo.Sound (W : ℕ) (s : Fifo α) : Prop where
  nodup : s.banks.Nodup
  len : s.banks.length ≤ W
  held : s.held = s.banks.toFinset

/-- A miss of it. -/
theorem fifoStep_miss {s : Fifo α} {r : α} (hs : s.Sound W) (hmem : r ∉ s.banks) :
    fifoStep W s r =
      { banks := if W < (s.banks ++ [r]).length then (s.banks ++ [r]).tail else s.banks ++ [r]
        held := (if W < (s.banks ++ [r]).length then (s.banks ++ [r]).tail else s.banks ++ [r]).toFinset
        m := s.m + 1 } := by
  have hheld : r ∉ s.held := by
    rw [hs.held]
    exact mt List.mem_toFinset.mp hmem
  have hall : (s.banks ++ [r]).Nodup := by
    rw [List.nodup_append_comm]
    exact List.nodup_cons.mpr ⟨hmem, hs.nodup⟩
  have hset : insert r s.held = (s.banks ++ [r]).toFinset := by
    ext x
    rw [hs.held, Finset.mem_insert, List.mem_toFinset, List.mem_toFinset, List.mem_append, List.mem_singleton,
      or_comm]
  unfold fifoStep
  rw [if_neg hheld]
  dsimp only
  rw [hset]
  generalize s.banks ++ [r] = banks at hall ⊢
  cases banks with
  | nil =>
    have hshort : ¬W < ([] : List α).length := Nat.not_lt_zero W
    simp only [if_neg hshort]
  | cons oldest rest =>
    have hrest : (oldest :: rest).toFinset.erase oldest = rest.toFinset := by
      have hfresh : oldest ∉ rest.toFinset := mt List.mem_toFinset.mp (List.nodup_cons.mp hall).1
      rw [List.toFinset_cons, Finset.erase_insert hfresh]
    dsimp only
    split_ifs
    · rw [hrest]
      rfl
    · rfl

/-- `misses_fifo` does too. -/
theorem fifo_serves (hW : 1 ≤ W) (refs : List α) :
    ∃ schedule, Serves W refs ∅ schedule ∧ missesFifo refs W = misses refs ∅ schedule := by
  have hstep : ∀ (s : Fifo α) r (refs : List α), s.Sound W → (fifoStep W s r).Sound W ∧
      Demand W s.held r (fifoStep W s r).held ∧ (fifoStep W s r).m = s.m + if r ∈ s.held then 0 else 1 := by
    intro s r _ hs
    by_cases hmem : r ∈ s.banks
    · have hheld : r ∈ s.held := by
        rw [hs.held]
        exact List.mem_toFinset.mpr hmem
      have hcard : s.held.card ≤ W := by
        rw [hs.held]
        exact (List.toFinset_card_le _).trans hs.len
      unfold fifoStep
      rw [if_pos hheld, if_pos hheld]
      exact ⟨hs, ⟨hheld, Finset.subset_insert .., hcard⟩, rfl⟩
    · have hheld : r ∉ s.held := by
        rw [hs.held]
        exact mt List.mem_toFinset.mp hmem
      obtain ⟨⟨hnodup, hlen⟩, hdemand⟩ := enqueue hW hs.nodup hs.len hmem rfl
      rw [fifoStep_miss hs hmem, if_neg hheld]
      refine ⟨⟨hnodup, hlen, rfl⟩, ?_, rfl⟩
      rw [hs.held]
      exact hdemand
  obtain ⟨schedule, hserves, hmisses⟩ := exists_serves Fifo.held Fifo.m (fun _ s => s.Sound W) hstep refs {}
    ⟨List.nodup_nil, Nat.zero_le _, rfl⟩
  refine ⟨schedule, hserves, ?_⟩
  unfold missesFifo
  rw [hmisses, Nat.zero_add]

/-! ## Farthest in the future -/

/-- Where the references to `x` are, the first reference being at `n`. -/
def uses (x : α) : ℕ → List α → List ℕ
  | _, [] => []
  | n, r :: rest => if x = r then n :: uses x (n + 1) rest else uses x (n + 1) rest

theorem positions_eq (refs : List α) (x : α) : positions refs x = uses x 0 refs := by
  have hfold : ∀ n (nxt : α → List ℕ),
      (refs.zipIdx n).foldl (fun nxt (r : α × ℕ) => Function.update nxt r.1 (nxt r.1 ++ [r.2])) nxt x =
        nxt x ++ uses x n refs := by
    induction refs with
    | nil =>
      intro n nxt
      exact (List.append_nil _).symm
    | cons r refs ih =>
      intro n nxt
      rw [List.zipIdx_cons, List.foldl_cons, ih, uses]
      by_cases hr : x = r
      · rw [if_pos hr, ← hr, Function.update_self]
        exact (List.append_cons ..).symm
      · rw [if_neg hr, Function.update_of_ne hr]
  exact hfold 0 _

theorem uses_append (x : α) (n : ℕ) (before rest : List α) :
    uses x n (before ++ rest) = uses x n before ++ uses x (n + before.length) rest := by
  induction before generalizing n with
  | nil => rfl
  | cons r before ih =>
    have hlen : n + (r :: before).length = n + 1 + before.length := by
      rw [List.length_cons]
      omega
    rw [List.cons_append, uses, uses, ih, hlen]
    split_ifs
    · rfl
    · rfl

theorem length_uses (x : α) (n : ℕ) (refs : List α) : (uses x n refs).length = refs.count x := by
  induction refs generalizing n with
  | nil => rfl
  | cons r refs ih =>
    rw [uses, List.count_cons]
    by_cases hr : x = r
    · rw [if_pos hr, List.length_cons, ih, if_pos (beq_iff_eq.mpr hr.symm)]
    · rw [if_neg hr, ih, if_neg (mt beq_iff_eq.mp (Ne.symm hr)), Nat.add_zero]

/-- The first of them is where the next use is. -/
theorem head_uses (x : α) (n : ℕ) (rest : List α) :
    (match (uses x n rest).head? with
      | some p => (p : WithTop ℕ)
      | none => ⊤) = n + nextUse x rest := by
  induction rest generalizing n with
  | nil => exact (WithTop.add_top _).symm
  | cons r rest ih =>
    rw [uses, nextUse]
    by_cases hr : x = r
    · rw [if_pos hr, if_pos hr, add_zero]
      rfl
    · rw [if_neg hr, if_neg hr, ih, Nat.cast_add, Nat.cast_one, add_assoc, add_comm 1]

/-- What `misses_min` keeps, after the references `before`. -/
structure Min.Sound (W : ℕ) (before : List α) (s : Min α) : Prop where
  pos : ∀ x, s.pos x = before.count x
  card : s.held.card ≤ W

/-- What `next_use` finds, where `pos` has counted the references up to here. -/
theorem nextUse_eq {s : Min α} {before rest : List α} {x : α} (hpos : s.pos x = before.count x) :
    s.nextUse (positions (before ++ rest)) x = before.length + nextUse x rest := by
  have hpassed := length_uses x 0 before
  unfold Min.nextUse
  rw [positions_eq, uses_append, hpos, ← hpassed, List.getElem?_append_right le_rfl, Nat.sub_self,
    ← List.head?_eq_getElem?, Nat.zero_add]
  exact head_uses x before.length rest

/-- A reference of it is served by a farthest eviction. The test on the victim never fails: a set in a bank was
not referenced now, so its next use is yet to come. -/
theorem minStep_farthest (o : SetOrder α) (hW : 1 ≤ W) {before : List α} {s : Min α} (hs : s.Sound W before)
    (r : α) (rest : List α) :
    ∃ s', minStep o (positions (before ++ r :: rest)) W s (r, before.length) = some s' ∧
      s'.Sound W (before ++ [r]) ∧ Farthest W rest s.held r s'.held ∧
      s'.m = s.m + if r ∈ s.held then 0 else 1 := by
  have hpos : ∀ x, Function.update s.pos r (s.pos r + 1) x = (before ++ [r]).count x := by
    intro x
    rw [List.count_append, List.count_singleton]
    by_cases hx : x = r
    · rw [hx, Function.update_self, hs.pos, if_pos (beq_self_eq_true r)]
    · rw [Function.update_of_ne hx, hs.pos, if_neg (mt beq_iff_eq.mp (Ne.symm hx)), Nat.add_zero]
  unfold minStep
  dsimp only
  generalize Function.update s.pos r (s.pos r + 1) = pos at hpos
  by_cases hmem : r ∈ s.held
  · rw [if_pos hmem, if_pos hmem]
    exact ⟨_, rfl, ⟨hpos, hs.card⟩, ⟨fun _ => rfl, fun h => absurd hmem h, fun h => absurd hmem h⟩, rfl⟩
  rw [if_neg hmem, if_neg hmem]
  by_cases hroom : s.held.card < W
  · rw [if_pos hroom]
    have hcard := Finset.card_insert_of_notMem hmem
    refine ⟨_, rfl, ⟨hpos, ?_⟩, ⟨fun h => absurd h hmem, fun _ _ => rfl, fun _ h => absurd hroom (not_lt.mpr h)⟩, rfl⟩
    rw [hcard]
    exact hroom
  rw [if_neg hroom]
  have hnext : ∀ x, Min.nextUse { s with pos } (positions (before ++ r :: rest)) x =
      (before ++ [r]).length + nextUse x rest := by
    intro x
    rw [List.append_cons]
    exact nextUse_eq (hpos x)
  cases hvictim : (o.iter before.length s.held).argmax
      (Min.nextUse { s with pos } (positions (before ++ r :: rest))) with
  | none =>
    -- there is a bank, so there is a victim
    have hempty : s.held = ∅ := by
      apply Finset.eq_empty_of_forall_notMem
      intro x hx
      have hiter := (o.mem_iter before.length s.held x).mpr hx
      rw [List.argmax_eq_none.mp hvictim] at hiter
      exact List.not_mem_nil hiter
    rw [hempty, Finset.card_empty] at hroom
    exact absurd hW hroom
  | some victim =>
    have hheld : victim ∈ s.held := (o.mem_iter ..).mp (List.argmax_mem hvictim)
    have hfar : ∀ x ∈ s.held, nextUse x rest ≤ nextUse victim rest := by
      intro x hx
      have hle := List.le_of_mem_argmax ((o.mem_iter before.length s.held x).mpr hx) hvictim
      rw [hnext, hnext] at hle
      exact (WithTop.add_le_add_iff_left (WithTop.natCast_ne_top _)).mp hle
    have hlater : (before.length : WithTop ℕ) < (before ++ [r]).length + nextUse victim rest := by
      apply lt_of_lt_of_le _ le_self_add
      rw [List.length_append, List.length_singleton]
      exact_mod_cast Nat.lt_succ_self before.length
    dsimp only
    rw [if_pos (by rwa [hnext])]
    refine ⟨_, rfl, ⟨hpos, ?_⟩, ⟨fun h => absurd h hmem, fun _ h => absurd h hroom, fun _ _ => ?_⟩, rfl⟩
    · have hcard := Finset.card_erase_add_one hheld
      have hfresh : r ∉ s.held.erase victim := fun h => hmem (Finset.mem_of_mem_erase h)
      rw [Finset.card_insert_of_notMem hfresh, hcard]
      exact hs.card
    · exact ⟨victim, hheld, hfar, rfl⟩

/-- `misses_min` is a schedule of farthest evictions. -/
theorem min_farthest (o : SetOrder α) (hW : 1 ≤ W) (refs : List α) :
    ∃ schedule, FarthestSchedule W refs ∅ schedule ∧ missesMin o refs W = some (misses refs ∅ schedule) := by
  have hrun : ∀ (rest before : List α) (s : Min α), s.Sound W before → ∃ schedule s',
      FarthestSchedule W rest s.held schedule ∧
        (rest.zipIdx before.length).foldlM (minStep o (positions (before ++ rest)) W) s = some s' ∧
        s'.m = s.m + misses rest s.held schedule := by
    intro rest
    induction rest with
    | nil =>
      intro before s _
      exact ⟨[], s, rfl, rfl, rfl⟩
    | cons r rest ih =>
      intro before s hs
      obtain ⟨s', hstep, hnext, hfarthest, hcount⟩ := minStep_farthest o hW hs r rest
      obtain ⟨schedule, s'', hschedule, hfold, hmisses⟩ := ih (before ++ [r]) s' hnext
      refine ⟨s'.held :: schedule, s'', ⟨hfarthest, hschedule⟩, ?_, ?_⟩
      · rw [List.length_append, List.length_singleton, ← List.append_cons] at hfold
        rw [List.zipIdx_cons, List.foldlM_cons, hstep]
        exact hfold
      · rw [hmisses, hcount, Nat.add_assoc]
        rfl
  obtain ⟨schedule, s, hschedule, hfold, hmisses⟩ := hrun refs [] {} ⟨fun _ => rfl, Nat.zero_le _⟩
  refine ⟨schedule, hschedule, ?_⟩
  unfold missesMin
  rw [List.length_nil, List.nil_append] at hfold
  rw [hfold, Option.map_some, hmisses, Nat.zero_add]

/-- It misses no more than any schedule does. -/
theorem min_le (o : SetOrder α) (hW : 1 ≤ W) (refs : List α) :
    ∃ m, missesMin o refs W = some m ∧ ∀ schedule, Serves W refs ∅ schedule → m ≤ misses refs ∅ schedule := by
  obtain ⟨schedule, hfarthest, hmin⟩ := min_farthest o hW refs
  exact ⟨_, hmin, fun other => farthest_misses_le hfarthest⟩

/-- It misses no more than any schedule does that holds at most `W` sets, and so no more than the policies
without foresight. -/
theorem min_optimal (o : SetOrder α) (refs : List α) (W : ℕ) (hW : 1 ≤ W) :
    ∃ m, missesMin o refs W = some m ∧
      (∀ schedule, Serves W refs ∅ schedule → m ≤ misses refs ∅ schedule) ∧
      m ≤ missesLru refs W ∧ m ≤ missesFifo refs W := by
  obtain ⟨m, hmin, hle⟩ := min_le o hW refs
  obtain ⟨lru, hlru, hlruMisses⟩ := lru_serves hW refs
  obtain ⟨fifo, hfifo, hfifoMisses⟩ := fifo_serves hW refs
  refine ⟨m, hmin, hle, ?_, ?_⟩
  · rw [hlruMisses]
    exact hle lru hlru
  · rw [hfifoMisses]
    exact hle fifo hfifo

/-- The elements in order. -/
def SetOrder.ascending : SetOrder ℕ where
  iter _ s := s.sort (· ≤ ·)
  mem_iter _ _ _ := Finset.mem_sort _

theorem min_optimal_two : 1 ≤ 2 ∧ ∃ m, missesMin .ascending [0, 1, 2, 0, 1, 2] 2 = some m ∧
    (∀ schedule, Serves 2 [0, 1, 2, 0, 1, 2] ∅ schedule → m ≤ misses [0, 1, 2, 0, 1, 2] ∅ schedule) ∧
    m ≤ missesLru [0, 1, 2, 0, 1, 2] 2 ∧ m ≤ missesFifo [0, 1, 2, 0, 1, 2] 2 :=
  ⟨by decide, min_optimal .ascending [0, 1, 2, 0, 1, 2] 2 (by decide)⟩

end Demand

/-! ## Pinning the smallest layer -/

/-- `LAYERS`: the rows and the columns of each layer's weights. -/
def layers : List (ℕ × ℕ) :=
  [(784, 100), (100, 10)]

/-- `layer_sets`, with its `ceil_div`. -/
def layerSets (kin nout : ℕ) (R C : ℕ+) : ℕ :=
  (kin ⌈/⌉ (R : ℕ)) * (nout ⌈/⌉ (C : ℕ))

/-- `bases`, and the `base` after the last. -/
def bases (R C : ℕ+) : List ℕ × ℕ :=
  layers.foldl (fun (bases, base) (kin, nout) => (bases ++ [base], base + layerSets kin nout R C)) ([], 0)

/-- The order of pairs that `sizes.sort()` sorts by. -/
def pairLe (a b : ℕ × ℕ) : Prop :=
  a.1 < b.1 ∨ a.1 = b.1 ∧ a.2 ≤ b.2

instance : DecidableRel pairLe :=
  fun a b => inferInstanceAs (Decidable (a.1 < b.1 ∨ a.1 = b.1 ∧ a.2 ≤ b.2))

/-- `sizes`, sorted: a pair of the number of sets and the layer. -/
def sizes (R C : ℕ+) : List (ℕ × ℕ) :=
  (layers.zipIdx.map fun ((kin, nout), i) => (layerSets kin nout R C, i)).insertionSort pairLe

/-- `set(range(bases[li], bases[li] + n))`. -/
def layerIds (R C : ℕ+) (n li : ℕ) : Finset ℕ :=
  Finset.Ico ((bases R C).1.getD li 0) ((bases R C).1.getD li 0 + n)

/-- What is `pinned`, and the `budget` that is left. -/
structure Pinning where
  pinned : Finset ℕ := ∅
  budget : ℕ

/-- The layer `li`, of `n` sets, is pinned where there is budget for it. -/
def Pinning.add (R C : ℕ+) (p : Pinning) (n li : ℕ) : Pinning :=
  if n ≤ p.budget then { pinned := p.pinned ∪ layerIds R C n li, budget := p.budget - n } else p

/-- `pinned`. -/
def pinned (W : ℕ) (R C : ℕ+) : Finset ℕ :=
  ((sizes R C).foldl (fun (p : Pinning) size => p.add R C size.1 size.2) { budget := W }).pinned

/-- The state of `misses_pin_smallest`. -/
structure Pin where
  seen_pinned : Finset ℕ := ∅
  victim : Option ℕ := none
  m : ℕ := 0

/-- A reference of it. -/
def pinStep (pinned : Finset ℕ) (s : Pin) (r : ℕ) : Pin :=
  if r ∈ pinned then
    if r ∈ s.seen_pinned then s else { s with m := s.m + 1, seen_pinned := insert r s.seen_pinned }
  else if s.victim = some r then s
  else { s with m := s.m + 1, victim := some r }

/-- `misses_pin_smallest`, after the loop. -/
def pinRun (refs : List ℕ) (W : ℕ) (R C : ℕ+) : Pin :=
  refs.foldl (pinStep (pinned W R C)) {}

/-- What it returns. -/
def missesPinSmallest (refs : List ℕ) (W : ℕ) (R C : ℕ+) : ℕ :=
  (pinRun refs W R C).m

/-- The sets that it treats as resident. -/
def Pin.resident (s : Pin) : Finset ℕ :=
  s.seen_pinned ∪ s.victim.toFinset

section Pinned

open Paging (Demand Serves misses exists_serves)

variable {R C : ℕ+} {W : ℕ} {refs : List ℕ}

/-- The sets of the layer that is first of the sorted ones. -/
def smallest (R C : ℕ+) : Finset ℕ :=
  match sizes R C with
  | (n, li) :: _ => layerIds R C n li
  | [] => ∅

theorem card_layerIds (n li : ℕ) : (layerIds R C n li).card = n := by
  unfold layerIds
  rw [Nat.card_Ico, Nat.add_sub_cancel_left]

/-- There are two layers, and the ids of the two are all that there are. -/
theorem sizes_two (R C : ℕ+) : ∃ a i b j, sizes R C = [(a, i), (b, j)] ∧ a ≤ b ∧
    ∀ id < (bases R C).2, id ∈ layerIds R C a i ∪ layerIds R C b j := by
  have hids : ∀ id < (bases R C).2,
      id ∈ layerIds R C (layerSets 784 100 R C) 0 ∪ layerIds R C (layerSets 100 10 R C) 1 := by
    intro id hid
    rw [Finset.mem_union, layerIds, layerIds, Finset.mem_Ico, Finset.mem_Ico]
    change id < 0 + layerSets 784 100 R C + layerSets 100 10 R C at hid
    change 0 ≤ id ∧ id < 0 + layerSets 784 100 R C ∨ 0 + layerSets 784 100 R C ≤ id ∧
      id < 0 + layerSets 784 100 R C + layerSets 100 10 R C
    omega
  by_cases hle : layerSets 784 100 R C ≤ layerSets 100 10 R C
  · refine ⟨_, 0, _, 1, ?_, hle, hids⟩
    apply List.orderedInsert_cons_of_le pairLe []
    rcases hle.lt_or_eq with hlt | heq
    · exact Or.inl hlt
    · exact Or.inr ⟨heq, Nat.zero_le 1⟩
  · refine ⟨_, 1, _, 0, ?_, (not_le.mp hle).le, fun id hid => ?_⟩
    apply List.orderedInsert_of_not_le pairLe []
    rintro (hlt | ⟨heq, -⟩)
    · exact hle hlt.le
    · exact hle heq.le
    rw [Finset.union_comm]
    exact hids id hid

/-- What the budget pins: nothing, the smallest layer, or all that there is. -/
theorem pinned_cases (W : ℕ) (R C : ℕ+) :
    (W < (smallest R C).card ∧ pinned W R C = ∅) ∨
      ((smallest R C).card ≤ W ∧ pinned W R C = smallest R C) ∨
        ((pinned W R C).card ≤ W ∧ ∀ id < (bases R C).2, id ∈ pinned W R C) := by
  obtain ⟨a, i, b, j, hsizes, hle, hall⟩ := sizes_two R C
  have hsmallest : smallest R C = layerIds R C a i := by
    unfold smallest
    rw [hsizes]
  have hcard := card_layerIds (R := R) (C := C) a i
  have hpinned : pinned W R C = ((Pinning.add R C { budget := W } a i).add R C b j).pinned := by
    unfold pinned
    rw [hsizes]
    rfl
  rw [hsmallest, hcard, hpinned]
  by_cases hsmall : a ≤ W
  · have hfirst : Pinning.add R C { budget := W } a i = { pinned := layerIds R C a i, budget := W - a } := by
      unfold Pinning.add
      rw [if_pos hsmall, Finset.empty_union]
    right
    rw [hfirst, Pinning.add]
    split_ifs with hlarge
    · right
      refine ⟨(Finset.card_union_le ..).trans ?_, hall⟩
      rw [card_layerIds, card_layerIds]
      exact (Nat.add_le_add_left hlarge a).trans (Nat.add_sub_cancel' hsmall).le
    · left
      exact ⟨hsmall, rfl⟩
  · left
    have hlarge : ¬b ≤ W := fun h => hsmall (hle.trans h)
    refine ⟨not_le.mp hsmall, ?_⟩
    rw [Pinning.add, Pinning.add, if_neg hsmall, if_neg hlarge]

/-- What is resident after some references: the pinned ones of them, and the last of the others. -/
structure Pin.After (pinned : Finset ℕ) (before : List ℕ) (s : Pin) : Prop where
  seen : s.seen_pinned = pinned.filter (· ∈ before)
  loose : ∀ v ∈ s.victim, v ∉ pinned
  victim : s.victim = none ↔ ∀ r ∈ before, r ∈ pinned

variable {pinned : Finset ℕ} {before : List ℕ} {s : Pin}

/-- Of the references, the pinned are resident once seen, and another only as the victim. -/
theorem Pin.After.mem_resident (hs : s.After pinned before) (r : ℕ) :
    r ∈ s.resident ↔ if r ∈ pinned then r ∈ s.seen_pinned else s.victim = some r := by
  unfold Pin.resident
  rw [Finset.mem_union, Option.mem_toFinset, Option.mem_def]
  split_ifs with hpin
  · exact or_iff_left fun hv => hs.loose r hv hpin
  · apply or_iff_right
    rw [hs.seen]
    exact fun h => hpin (Finset.mem_filter.mp h).1

/-- A reference, as it finds and leaves the banks. -/
theorem pinStep_after (hs : s.After pinned before) (r : ℕ) :
    (pinStep pinned s r).After pinned (before ++ [r]) ∧ r ∈ (pinStep pinned s r).resident ∧
      (pinStep pinned s r).resident ⊆ insert r s.resident ∧
      (pinStep pinned s r).m = s.m + if r ∈ s.resident then 0 else 1 := by
  have hres := hs.mem_resident r
  have hbefore : ∀ x, x ∈ before ++ [r] ↔ x ∈ before ∨ x = r := by
    intro x
    rw [List.mem_append, List.mem_singleton]
  unfold pinStep
  by_cases hpin : r ∈ pinned
  · rw [if_pos hpin] at hres
    have hvictim : s.victim = none ↔ ∀ x ∈ before ++ [r], x ∈ pinned := by
      rw [hs.victim]
      constructor
      · intro h x hx
        rcases (hbefore x).mp hx with hx | rfl
        · exact h x hx
        · exact hpin
      · exact fun h x hx => h x ((hbefore x).mpr (Or.inl hx))
    have hseen : insert r s.seen_pinned = pinned.filter (· ∈ before ++ [r]) := by
      ext x
      rw [hs.seen, Finset.mem_insert, Finset.mem_filter, Finset.mem_filter, hbefore]
      by_cases hx : x = r
      · exact iff_of_true (Or.inl hx) ⟨hx ▸ hpin, Or.inr hx⟩
      · rw [or_iff_right hx, or_iff_left hx]
    rw [if_pos hpin]
    by_cases hmem : r ∈ s.seen_pinned
    · rw [if_pos hmem, if_pos (hres.mpr hmem)]
      rw [Finset.insert_eq_of_mem hmem] at hseen
      exact ⟨⟨hseen, hs.loose, hvictim⟩, hres.mpr hmem, Finset.subset_insert .., rfl⟩
    · rw [if_neg hmem, if_neg (mt hres.mp hmem)]
      refine ⟨⟨hseen, hs.loose, hvictim⟩, ?_, ?_, rfl⟩
      · exact Finset.mem_union_left _ (Finset.mem_insert_self ..)
      · unfold Pin.resident
        rw [Finset.insert_union]
  · rw [if_neg hpin] at hres
    have hseen : s.seen_pinned = pinned.filter (· ∈ before ++ [r]) := by
      rw [hs.seen]
      apply Finset.filter_congr
      intro x hx
      rw [hbefore]
      exact (or_iff_left fun h : x = r => hpin (h ▸ hx)).symm
    have hloose : ¬∀ x ∈ before ++ [r], x ∈ pinned := fun h => hpin (h r ((hbefore r).mpr (Or.inr rfl)))
    rw [if_neg hpin]
    by_cases hmem : s.victim = some r
    · rw [if_pos hmem, if_pos (hres.mpr hmem)]
      have hvictim : s.victim ≠ none := by
        rw [hmem]
        exact Option.some_ne_none r
      exact ⟨⟨hseen, hs.loose, iff_of_false hvictim hloose⟩, hres.mpr hmem, Finset.subset_insert .., rfl⟩
    · rw [if_neg hmem, if_neg (mt hres.mp hmem)]
      refine ⟨⟨hseen, ?_, iff_of_false (Option.some_ne_none r) hloose⟩, ?_, ?_, rfl⟩
      · intro v hv
        have hlast : r = v := Option.some.inj hv
        exact hlast ▸ hpin
      · exact Finset.mem_union_right _ (Finset.mem_singleton_self r)
      · intro x hx
        rcases Finset.mem_union.mp hx with hx | hx
        · exact Finset.mem_insert_of_mem (Finset.mem_union_left _ hx)
        · exact Finset.mem_insert.mpr (Or.inl (Finset.mem_singleton.mp hx))

/-- Before the first. -/
theorem after_nil (pinned : Finset ℕ) : Pin.After pinned [] {} where
  seen := (Finset.filter_false_of_mem fun _ _ => List.not_mem_nil).symm
  loose _ hv := by cases hv
  victim := iff_of_true rfl fun _ hr => absurd hr List.not_mem_nil

/-- After a list. -/
theorem foldl_after (pinned : Finset ℕ) (refs : List ℕ) : (refs.foldl (pinStep pinned) {}).After pinned refs := by
  induction refs using List.reverseRecOn with
  | nil => exact after_nil pinned
  | append_singleton refs r ih =>
    rw [List.foldl_append]
    exact (pinStep_after ih r).1

/-- How many are resident then. -/
theorem Pin.After.card_resident (hs : s.After pinned before) :
    s.resident.card = (pinned.filter (· ∈ before)).card + if ∀ r ∈ before, r ∈ pinned then 0 else 1 := by
  unfold Pin.resident
  rw [← hs.seen]
  cases hvictim : s.victim with
  | none =>
    rw [if_pos (hs.victim.mp hvictim), Option.toFinset_none, Finset.union_empty, Nat.add_zero]
  | some v =>
    have hloose : ¬∀ r ∈ before, r ∈ pinned := by
      rw [← hs.victim, hvictim]
      exact Option.some_ne_none v
    have hfresh : v ∉ s.seen_pinned := by
      rw [hs.seen]
      exact fun h => hs.loose v hvictim (Finset.mem_filter.mp h).1
    rw [if_neg hloose, Option.toFinset_some, Finset.union_comm, Finset.singleton_union,
      Finset.card_insert_of_notMem hfresh]

/-- As long as no more than `W` are, it is a demand schedule. -/
theorem pin_serves {refs : List ℕ} (hcard : ∀ n, (pinRun (refs.take n) W R C).resident.card ≤ W) :
    ∃ schedule, Serves W refs ∅ schedule ∧ missesPinSmallest refs W R C = misses refs ∅ schedule := by
  have hstep : ∀ (s : Pin) r (rest : List ℕ),
      (∃ before, before ++ r :: rest = refs ∧ s = pinRun before W R C) →
        (∃ before, before ++ rest = refs ∧ pinStep (BankPolicy.pinned W R C) s r = pinRun before W R C) ∧
          Demand W s.resident r (pinStep (BankPolicy.pinned W R C) s r).resident ∧
          (pinStep (BankPolicy.pinned W R C) s r).m = s.m + if r ∈ s.resident then 0 else 1 := by
    rintro s r rest ⟨before, hrefs, rfl⟩
    have hnext : pinStep (BankPolicy.pinned W R C) (pinRun before W R C) r = pinRun (before ++ [r]) W R C := by
      unfold pinRun
      rw [List.foldl_append]
      rfl
    obtain ⟨-, hmem, hsub, hcount⟩ := pinStep_after (foldl_after (BankPolicy.pinned W R C) before) r
    have hfits := hcard (before.length + 1)
    rw [← hrefs, List.append_cons, List.take_left' (by rw [List.length_append, List.length_singleton]),
      ← hnext] at hfits
    refine ⟨⟨before ++ [r], ?_, hnext⟩, ⟨hmem, hsub, hfits⟩, hcount⟩
    rw [← hrefs]
    exact (List.append_cons ..).symm
  obtain ⟨schedule, hserves, hmisses⟩ := exists_serves Pin.resident Pin.m
    (fun rest s => ∃ before, before ++ rest = refs ∧ s = pinRun before W R C) hstep refs {} ⟨[], rfl, rfl⟩
  refine ⟨schedule, hserves, ?_⟩
  unfold missesPinSmallest pinRun
  rw [hmisses, Nat.zero_add]
  rfl

/-- The sets resident stay within the banks, and it misses no less than the bound, unless the smallest layer
takes all the banks and the stream asks for all of it and for something else. -/
theorem pin_within_iff (o : SetOrder ℕ) (refs : List ℕ) (W : ℕ) (R C : ℕ+) (hW : 1 ≤ W)
    (hrefs : ∀ r ∈ refs, r < (bases R C).2) :
    ((∀ n, (pinRun (refs.take n) W R C).resident.card ≤ W) ∧
      ∃ m, missesMin o refs W = some m ∧ m ≤ missesPinSmallest refs W R C) ↔
        ¬(W = (smallest R C).card ∧ (∀ id ∈ smallest R C, id ∈ refs) ∧ ∃ r ∈ refs, r ∉ smallest R C) := by
  have hcard : ∀ refs, (pinRun refs W R C).resident.card =
      ((BankPolicy.pinned W R C).filter (· ∈ refs)).card +
        if ∀ r ∈ refs, r ∈ BankPolicy.pinned W R C then 0 else 1 :=
    fun refs => (foldl_after _ refs).card_resident
  have hcases := pinned_cases W R C
  constructor
  · rintro ⟨hfits, -⟩ ⟨hfull, hall, r, hr, hother⟩
    have hlen := hfits refs.length
    rw [List.take_length, hcard] at hlen
    rcases hcases with ⟨hlt, -⟩ | ⟨-, hpinned⟩ | ⟨hle, hevery⟩
    · exact absurd hfull (Nat.ne_of_lt hlt)
    · rw [hpinned, Finset.filter_true_of_mem hall, if_neg fun h => hother (h r hr), ← hfull] at hlen
      exact absurd hlen (Nat.not_succ_le_self W)
    · -- all that there is would be more than the smallest layer
      have hmore : insert r (smallest R C) ⊆ BankPolicy.pinned W R C := by
        intro x hx
        rcases Finset.mem_insert.mp hx with rfl | hx
        · exact hevery x (hrefs x hr)
        · exact hevery x (hrefs x (hall x hx))
      have hlen := Finset.card_le_card hmore
      rw [Finset.card_insert_of_notMem hother, ← hfull] at hlen
      omega
  · intro hspare
    have hfits : ∀ n, (pinRun (refs.take n) W R C).resident.card ≤ W := by
      intro n
      have hsub : ∀ r ∈ refs.take n, r ∈ refs := fun r => List.mem_of_mem_take
      have hfilter := Finset.card_filter_le (BankPolicy.pinned W R C) (· ∈ refs.take n)
      rw [hcard]
      rcases hcases with ⟨-, hpinned⟩ | ⟨hle, hpinned⟩ | ⟨hle, hevery⟩
      · rw [hpinned, Finset.filter_empty, Finset.card_empty]
        split_ifs
        · exact Nat.zero_le W
        · exact hW
      · rw [hpinned] at hfilter ⊢
        split_ifs with hpin
        · exact hfilter.trans hle
        · push Not at hpin
          obtain ⟨r, hr, hother⟩ := hpin
          by_cases hfull : W = (smallest R C).card
          · -- some set of the smallest layer is never asked for
            have hmissing : ∃ id ∈ smallest R C, id ∉ refs := by
              by_contra h
              push Not at h
              exact hspare ⟨hfull, h, r, hsub r hr, hother⟩
            obtain ⟨id, hid, hnever⟩ := hmissing
            have hstrict : (smallest R C).filter (· ∈ refs.take n) ⊂ smallest R C :=
              Finset.filter_ssubset.mpr ⟨id, hid, fun h => hnever (hsub id h)⟩
            rw [hfull]
            exact Finset.card_lt_card hstrict
          · omega
      · rw [if_pos fun r hr => hevery r (hrefs r (hsub r hr))]
        exact hfilter.trans hle
    obtain ⟨schedule, hserves, hmisses⟩ := pin_serves hfits
    obtain ⟨m, hmin, hbound⟩ := min_le o hW refs
    refine ⟨hfits, m, hmin, ?_⟩
    rw [hmisses]
    exact hbound schedule hserves

/-- The smallest layer is one set, and takes the one bank. -/
theorem pin_within_spare : (∀ r ∈ [0, 1, 0], r < (bases 784 100).2) ∧
    ((∀ n, (pinRun ([0, 1, 0].take n) 2 784 100).resident.card ≤ 2) ∧
      ∃ m, missesMin .ascending [0, 1, 0] 2 = some m ∧ m ≤ missesPinSmallest [0, 1, 0] 2 784 100) :=
  ⟨by decide, (pin_within_iff .ascending [0, 1, 0] 2 784 100 (by decide) (by decide)).mpr (by decide)⟩

/-- In one bank it holds two sets, and misses half of what the bound says. -/
theorem pin_within_not : ¬((∀ n, (pinRun ([0, 1, 0, 1].take n) 1 784 100).resident.card ≤ 1) ∧
    ∃ m, missesMin .ascending [0, 1, 0, 1] 1 = some m ∧ m ≤ missesPinSmallest [0, 1, 0, 1] 1 784 100) := by
  rintro ⟨hfits, -⟩
  have htwo := hfits 2
  revert htwo
  decide

example : missesPinSmallest [0, 1, 0, 1] 1 784 100 = 2 := by
  decide

end Pinned

end Grxcp.BankPolicy
