import Grxcp.Runtime.DeviceCalls

/-!
# What each device sees of the shared heap

The containers of `memory.cpp` hold the memory of every device. Seen from one device they are a
`DeviceHeap` (`Heap.view`): the slabs of that device in their order, each with its own fiber of the
free list, and that device's allocations without their slab indices. A call by a device does to its
own view what the call does to the heap of a device alone, with the same result, and nothing to the
view of any other device, as long as indices and slabs agree (`Heap.Linked`).
-/

namespace Grxcp.Runtime

/-! ## The free list, slab by slab -/

theorem add64_of_lt {a b : ℕ} (h : a + b < 2 ^ 64) : add64 a b = a + b :=
  Nat.mod_eq_of_lt h

theorem sub64_of_le {a b : ℕ} (h : b ≤ a) (ha : a < 2 ^ 64) : sub64 a b = a - b := by
  unfold sub64
  omega

section FreeList

variable {free : FreeList} {base size slab : ℕ}

theorem coalesceNext_fiber (hs : base + size < 2 ^ 64)
    (hb : ∀ b n, (free.fiber slab).Has b n → b + n < 2 ^ 64) :
    (coalesceNext free base size slab).1.fiber slab =
        (Extents.joinNext (free.fiber slab) base size).1 ∧
      (coalesceNext free base size slab).2 = (Extents.joinNext (free.fiber slab) base size).2 ∧
      base + (coalesceNext free base size slab).2 < 2 ^ 64 := by
  unfold coalesceNext Extents.joinNext
  rw [OrdMap.fiber_lowerBound, add64_of_lt hs]
  rcases hl : free.lowerBound (toLex (slab, base)) with _ | ⟨next, n⟩
  · exact ⟨rfl, rfl, hs⟩
  by_cases hslab : (ofLex next).1 = slab
  · have hnext : next = toLex (slab, (ofLex next).2) := by rw [← hslab]; rfl
    have hn := hb (ofLex next).2 n
      (OrdMap.has_fiber.mpr (hnext ▸ (OrdMap.lowerBound_eq_some_iff.mp hl).1))
    simp only [hslab, true_and, if_true]
    by_cases heq : base + size = (ofLex next).2
    · simp only [heq, if_true]
      rw [add64_of_lt (by omega)]
      refine ⟨?_, rfl, by omega⟩
      rw [hnext]
      exact OrdMap.fiber_erase_self _ _ _
    · simp only [heq, if_false]
      exact ⟨trivial, trivial, hs⟩
  · simp only [hslab, false_and, if_false]
    exact ⟨trivial, trivial, hs⟩

theorem coalesceNext_fiber_of_ne {i : ℕ} (hi : i ≠ slab) :
    (coalesceNext free base size slab).1.fiber i = free.fiber i := by
  unfold coalesceNext
  split
  · split
    · rename_i next n _ h
      have hnext : next = toLex (slab, (ofLex next).2) := by rw [← h.1]; rfl
      rw [hnext]
      exact OrdMap.fiber_erase_of_ne _ hi _
    · rfl
  · rfl

theorem coalescePrev_fiber (hs : base + size < 2 ^ 64)
    (hb : ∀ b n, (free.fiber slab).Has b n → b + n < 2 ^ 64) :
    (coalescePrev free base size slab).1.fiber slab =
        (Extents.joinPrev (free.fiber slab) base size).1 ∧
      (coalescePrev free base size slab).2 = (Extents.joinPrev (free.fiber slab) base size).2 := by
  unfold coalescePrev Extents.joinPrev
  rw [OrdMap.fiber_below]
  rcases hl : free.below (toLex (slab, base)) with _ | ⟨prev, n⟩
  · exact ⟨rfl, rfl⟩
  by_cases hslab : (ofLex prev).1 = slab
  · have hprev : prev = toLex (slab, (ofLex prev).2) := by rw [← hslab]; rfl
    have hn := hb (ofLex prev).2 n
      (OrdMap.has_fiber.mpr (hprev ▸ (OrdMap.below_eq_some_iff.mp hl).1))
    simp only [hslab, true_and, if_true]
    rw [add64_of_lt hn]
    by_cases heq : (ofLex prev).2 + n = base
    · simp only [heq, if_true]
      rw [add64_of_lt (by omega)]
      refine ⟨?_, rfl⟩
      rw [hprev]
      exact OrdMap.fiber_erase_self _ _ _
    · simp [heq]
  · simp [hslab]

theorem coalescePrev_fiber_of_ne {i : ℕ} (hi : i ≠ slab) :
    (coalescePrev free base size slab).1.fiber i = free.fiber i := by
  unfold coalescePrev
  split
  · split
    · rename_i prev n _ h
      have hprev : prev = toLex (slab, (ofLex prev).2) := by rw [← h.1]; rfl
      rw [hprev]
      exact OrdMap.fiber_erase_of_ne _ hi _
    · rfl
  · rfl

/-- `insert_free` returns a range to the extents of its slab. -/
theorem insertFree_fiber (hs : base + size < 2 ^ 64)
    (hb : ∀ b n, (free.fiber slab).Has b n → b + n < 2 ^ 64) :
    (insertFree free base size slab).fiber slab = Extents.give (free.fiber slab) base size := by
  obtain ⟨hfree, hsize, hlt⟩ := coalesceNext_fiber hs hb
  unfold insertFree Extents.give
  rcases hc : coalesceNext free base size slab with ⟨free₁, size₁⟩
  rcases hj : Extents.joinNext (free.fiber slab) base size with ⟨m₁, n₁⟩
  rw [hc, hj] at hfree hsize
  rw [hc] at hlt
  simp only at hfree hsize hlt ⊢
  subst hsize
  have hb₁ : ∀ b n, (free₁.fiber slab).Has b n → b + n < 2 ^ 64 := by
    intro b n h
    refine hb b n ?_
    rw [hfree] at h
    have hsub : ∀ k v, (Extents.joinNext (free.fiber slab) base size).1.Has k v →
        (free.fiber slab).Has k v := by
      intro k v hk
      rcases Extents.joinNext_cases (free.fiber slab) base size with ⟨he, -⟩ | ⟨w, -, he⟩
      · rwa [he] at hk
      · rw [he] at hk
        exact (OrdMap.has_erase.mp hk).1
    exact hsub b n (by rw [hj]; exact h)
  obtain ⟨hfree₂, hrest⟩ := coalescePrev_fiber hlt hb₁
  rcases hc₂ : coalescePrev free₁ base size₁ slab with ⟨free₂, base₂, size₂⟩
  rcases hj₂ : Extents.joinPrev m₁ base size₁ with ⟨m₂, b₂, n₂⟩
  rw [hc₂, hfree, hj₂] at hfree₂
  rw [hc₂, hfree, hj₂] at hrest
  simp only at hfree₂ hrest ⊢
  obtain ⟨rfl, rfl⟩ := Prod.mk.inj hrest
  rw [OrdMap.fiber_insert_self, hfree₂]

theorem insertFree_fiber_of_ne {i : ℕ} (hi : i ≠ slab) :
    (insertFree free base size slab).fiber i = free.fiber i := by
  unfold insertFree
  rcases hc : coalesceNext free base size slab with ⟨free₁, size₁⟩
  have h₁ : (coalesceNext free base size slab).1.fiber i = free.fiber i :=
    coalesceNext_fiber_of_ne hi
  rw [hc] at h₁
  simp only at h₁ ⊢
  rcases hc₂ : coalescePrev free₁ base size₁ slab with ⟨free₂, base₂, size₂⟩
  have h₂ : (coalescePrev free₁ base size₁ slab).1.fiber i = free₁.fiber i :=
    coalescePrev_fiber_of_ne hi
  rw [hc₂] at h₂
  simp only at h₂ ⊢
  rw [OrdMap.fiber_insert_of_ne _ hi, h₂, h₁]

end FreeList

/-! ## The view -/

/-- A slab with its free extents. -/
def Slab.region (w : Slab) (free : Extents) : Region :=
  { buffer := w.buffer, base := w.base, size := w.size, npu := w.npu, free }

/-- The slabs of a device, with the free extents of each. -/
def regionsOf (slabs : List Slab) (free : FreeList) (e : ℕ) : List Region :=
  slabs.zipIdx.filterMap fun w =>
    if w.1.device = e then some (w.1.region (free.fiber w.2)) else none

/-- The heap as one device sees it. -/
def Heap.view (s : Heap) (e : ℕ) : DeviceHeap where
  regions := regionsOf s.slabs s.free e
  live := (s.live.fiber e).map fun _ a => a.toBlock
  held := (s.quarantine.filter fun a => a.device = e).map (·.toBlock)

/-- Slabs and the indices that name them agree. -/
structure Heap.Linked (s : Heap) : Prop where
  free_slab : ∀ i b n, s.free.Has (toLex (i, b)) n → i < s.slabs.length
  live_key : ∀ e b a, s.live.Has (toLex (e, b)) a → a.device = e ∧ a.base = b
  live_slab : ∀ k a, s.live.Has k a → a.direct = false →
    ∃ w, s.slabs[a.slab]? = some w ∧ w.device = a.device ∧ w.base ≤ a.base ∧
      a.base < w.base + w.size
  held_slab : ∀ a ∈ s.quarantine, a.direct = false →
    ∃ w, s.slabs[a.slab]? = some w ∧ w.device = a.device ∧ w.base ≤ a.base ∧
      a.base < w.base + w.size
  buffer : ∀ w ∈ s.slabs, w.npu = false → w.buffer.isSome = true

section View

variable {slabs : List Slab} {free free' : FreeList} {e : ℕ}

theorem mem_regionsOf {r : Region} : r ∈ regionsOf slabs free e ↔
    ∃ i, ∃ w : Slab, slabs[i]? = some w ∧ w.device = e ∧ r = w.region (free.fiber i) := by
  unfold regionsOf
  rw [List.mem_filterMap]
  constructor
  · rintro ⟨⟨w, i⟩, hw, h⟩
    have hw := List.mem_zipIdx_iff_getElem?.mp hw
    split at h
    · rename_i he
      exact ⟨i, w, hw, he, (Option.some.inj h).symm⟩
    · cases h
  · rintro ⟨i, w, hw, he, rfl⟩
    exact ⟨(w, i), List.mem_zipIdx_iff_getElem?.mpr hw, by simp [he]⟩

theorem regionsOf_congr (h : ∀ i w, slabs[i]? = some w → w.device = e →
    free'.fiber i = free.fiber i) : regionsOf slabs free' e = regionsOf slabs free e := by
  unfold regionsOf
  refine List.filterMap_congr fun ⟨w, i⟩ hw => ?_
  have hw := List.mem_zipIdx_iff_getElem?.mp hw
  by_cases he : w.device = e
  · simp [he, h i w hw he]
  · simp [he]

theorem regionsOf_append (slabs : List Slab) (w : Slab) (free : FreeList) (e : ℕ) :
    regionsOf (slabs ++ [w]) free e = regionsOf slabs free e ++
      if w.device = e then [w.region (free.fiber slabs.length)] else [] := by
  unfold regionsOf
  rw [List.zipIdx_append, List.filterMap_append]
  by_cases he : w.device = e
  · simp [he]
  · simp [he]

/-- Slabs of one device whose regions lie apart are the same if they share a point. -/
theorem slab_unique (hap : (regionsOf slabs free e).Pairwise
      fun r r' => ∀ x, r.Contains x → ¬r'.Contains x)
    {i j : ℕ} {w w' : Slab} (hi : slabs[i]? = some w) (hj : slabs[j]? = some w')
    (he : w.device = e) (he' : w'.device = e) {x : ℕ} (hx : w.base ≤ x ∧ x < w.base + w.size)
    (hx' : w'.base ≤ x ∧ x < w'.base + w'.size) : i = j := by
  unfold regionsOf at hap
  rw [List.pairwise_filterMap, List.pairwise_iff_getElem] at hap
  have hlt : ∀ (i j : ℕ) (w w' : Slab), slabs[i]? = some w → slabs[j]? = some w' →
      w.device = e → w'.device = e → w.base ≤ x ∧ x < w.base + w.size →
      w'.base ≤ x ∧ x < w'.base + w'.size → ¬i < j := by
    intro i j w w' hi hj he he' hx hx' hlt
    obtain ⟨hil, rfl⟩ := List.getElem?_eq_some_iff.mp hi
    obtain ⟨hjl, rfl⟩ := List.getElem?_eq_some_iff.mp hj
    exact hap i j (by simpa using hil) (by simpa using hjl) hlt
      (slabs[i].region (free.fiber i)) (by simp [he]) (slabs[j].region (free.fiber j))
      (by simp [he']) x hx hx'
  rcases lt_trichotomy i j with h | h | h
  · exact absurd h (hlt i j w w' hi hj he he' hx hx')
  · exact h
  · exact absurd h (hlt j i w' w hj hi he' he hx' hx)

/-- A change of one slab's free extents is an edit of its device's regions. -/
theorem regionsOf_edit (hap : (regionsOf slabs free e).Pairwise
      fun r r' => ∀ x, r.Contains x → ¬r'.Contains x)
    {i : ℕ} {w : Slab} (hi : slabs[i]? = some w) (he : w.device = e) {x : ℕ}
    (hx : w.base ≤ x ∧ x < w.base + w.size) {f : Extents → Extents}
    (hf : free'.fiber i = f (free.fiber i)) (hne : ∀ j, j ≠ i → free'.fiber j = free.fiber j) :
    regionsOf slabs free' e = (regionsOf slabs free e).map (·.edit x f) := by
  unfold regionsOf at hap ⊢
  rw [List.map_filterMap]
  refine List.filterMap_congr fun ⟨w', j⟩ hj => ?_
  have hj := List.mem_zipIdx_iff_getElem?.mp hj
  by_cases he' : w'.device = e
  · simp only [he', if_true, Option.map_some, Option.some.injEq]
    by_cases hji : j = i
    · subst hji
      obtain rfl := Option.some.inj (hi.symm.trans hj)
      have hc : (w.region (free.fiber j)).Contains x := hx
      simp only [Region.edit, hc, if_true, hf]
      rfl
    · rw [Region.edit_of_not_contains, hne j hji]
      exact fun hx' => hji (slab_unique hap hj hi he' he hx' hx)
  · simp [he']

end View

section Linked

variable {s : Heap} {e : ℕ}

@[simp] theorem view_regions : (s.view e).regions = regionsOf s.slabs s.free e := rfl

theorem view_live_has {b : ℕ} {a : Block} : (s.view e).live.Has b a ↔
    ∃ al : Allocation, s.live.Has (toLex (e, b)) al ∧ al.toBlock = a := by
  simp [Heap.view]

theorem mem_view_held {a : Block} : a ∈ (s.view e).held ↔
    ∃ al : Allocation, al ∈ s.quarantine ∧ al.device = e ∧ al.toBlock = a := by
  simp [Heap.view, and_assoc]

/-- No extents are in the fiber of a slab that is not there yet. -/
theorem Heap.Linked.fiber_length (hl : s.Linked) : s.free.fiber s.slabs.length = .empty := by
  refine OrdMap.ext fun b n => ?_
  simp only [OrdMap.has_fiber, OrdMap.not_has_empty, iff_false]
  exact fun h => lt_irrefl _ (hl.free_slab _ _ _ h)

/-! ## Growing -/

theorem Heap.Linked.push (hl : s.Linked) {w : Slab} (hw : w.npu = false → w.buffer.isSome = true) :
    (s.push w).Linked where
  free_slab := by
    intro i b n h
    rw [Heap.push] at h ⊢
    simp only [List.length_append, List.length_singleton]
    by_cases hi : i = s.slabs.length
    · omega
    · rw [← OrdMap.has_fiber, insertFree_fiber_of_ne hi, OrdMap.has_fiber] at h
      have := hl.free_slab i b n h
      omega
  live_key := hl.live_key
  live_slab := by
    intro k a ha hd
    obtain ⟨w', hw', hrest⟩ := hl.live_slab k a ha hd
    exact ⟨w', by simp [Heap.push, List.getElem?_append_left (List.getElem?_eq_some_iff.mp hw').1,
      hw'], hrest⟩
  held_slab := by
    intro a ha hd
    obtain ⟨w', hw', hrest⟩ := hl.held_slab a ha hd
    exact ⟨w', by simp [Heap.push, List.getElem?_append_left (List.getElem?_eq_some_iff.mp hw').1,
      hw'], hrest⟩
  buffer := by
    intro w' hw' hn
    rcases List.mem_append.mp hw' with h | h
    · exact hl.buffer w' h hn
    · exact List.mem_singleton.mp h ▸ hw (List.mem_singleton.mp h ▸ hn)

/-- A new slab is a new region to its device, and nothing to the others. -/
theorem Heap.Linked.view_push (hl : s.Linked) {w : Slab} (hstop : w.base + w.size < 2 ^ 64) :
    (s.push w).view e =
      if w.device = e then (s.view e).grow (.whole w.buffer w.base w.size w.npu) else s.view e := by
  have hold : regionsOf s.slabs (insertFree s.free w.base w.size s.slabs.length) e =
      regionsOf s.slabs s.free e := by
    refine regionsOf_congr fun i w' hi _ => insertFree_fiber_of_ne ?_
    have := (List.getElem?_eq_some_iff.mp hi).1
    omega
  have hnew : (insertFree s.free w.base w.size s.slabs.length).fiber s.slabs.length =
      Extents.single w.base w.size := by
    rw [insertFree_fiber hstop (by simp [hl.fiber_length]), hl.fiber_length, Extents.give_empty]
  have hregions : regionsOf (s.push w).slabs (s.push w).free e =
      regionsOf s.slabs s.free e ++
        if w.device = e then [Region.whole w.buffer w.base w.size w.npu] else [] := by
    simp only [Heap.push]
    rw [regionsOf_append, hold, hnew]
    rfl
  unfold Heap.view DeviceHeap.grow
  rw [hregions]
  split
  · rfl
  · simp only [List.append_nil]
    rfl

/-! ## Taking -/

/-- The best extent among all that are on the device's slabs is the best of the device's regions. -/
theorem best_view (slabs : List Slab) (free : FreeList) (e : ℕ) (fits : ℕ → ℕ → Bool) :
    (free.firstLeast (fun k n => slabs[(ofLex k).1]?.any (·.device = e) && fits (ofLex k).2 n)
        (2 ^ 64 - 1)).map (fun x => ((ofLex x.1).2, x.2)) =
      DeviceHeap.bestFit fits (regionsOf slabs free e) := by
  induction slabs using List.reverseRecOn with
  | nil =>
    rw [Option.map_eq_none_iff.mpr]
    · rfl
    · refine OrdMap.firstLeast_eq_none_iff.mpr fun k n _ h => ?_
      simp at h
  | append_singleton slabs w ih =>
    rw [regionsOf_append]
    by_cases he : w.device = e
    · have htest : (fun (k : ℕ ×ₗ ℕ) n =>
            (slabs ++ [w])[(ofLex k).1]?.any (·.device = e) && fits (ofLex k).2 n) =
          fun k n => (slabs[(ofLex k).1]?.any (·.device = e) && fits (ofLex k).2 n) ||
            (decide ((ofLex k).1 = slabs.length) && fits (ofLex k).2 n) := by
        funext k n
        rcases lt_trichotomy (ofLex k).1 slabs.length with h | h | h
        · simp [List.getElem?_append_left h, ne_of_lt h]
        · simp [h, he]
        · have hw : (slabs ++ [w])[(ofLex k).1]? = none := by
            simp only [List.getElem?_eq_none_iff, List.length_append, List.length_singleton]
            omega
          rw [hw, List.getElem?_eq_none_iff.mpr h.le]
          simp [ne_of_gt h]
      rw [htest, OrdMap.firstLeast_or, ← OrdMap.better_map fun k : ℕ ×ₗ ℕ => (ofLex k).2, ih, if_pos he,
        DeviceHeap.bestFit_append, Slab.region, OrdMap.fiber_firstLeast]
      intro k n k' n' h h'
      rw [Bool.and_eq_true, decide_eq_true_eq] at h'
      have hlt : (ofLex k).1 < slabs.length := by
        by_contra hge
        rw [List.getElem?_eq_none_iff.mpr (not_lt.mp hge)] at h
        simp at h
      exact Prod.Lex.lt_iff.mpr (.inl (h'.1 ▸ hlt))
    · have htest : (fun (k : ℕ ×ₗ ℕ) n =>
            (slabs ++ [w])[(ofLex k).1]?.any (·.device = e) && fits (ofLex k).2 n) =
          fun k n => slabs[(ofLex k).1]?.any (·.device = e) && fits (ofLex k).2 n := by
        funext k n
        rcases lt_trichotomy (ofLex k).1 slabs.length with h | h | h
        · rw [List.getElem?_append_left h]
        · simp [h, he]
        · have hw : (slabs ++ [w])[(ofLex k).1]? = none := by
            simp only [List.getElem?_eq_none_iff, List.length_append, List.length_singleton]
            omega
          rw [hw, List.getElem?_eq_none_iff.mpr h.le]
      rw [htest, ih, if_neg he, List.append_nil]

/-- Indices and slabs agree, and every device's memory is in order. -/
structure Heap.Good (P : Platform) (ok : ℕ → Prop) (s : Heap) : Prop where
  linked : s.Linked
  sound : ∀ e, (s.view e).Sound P e ok

variable {P : Platform} {ok : ℕ → Prop} {bytes align : ℕ}

theorem take_view_none (ht : takeBestFit s e bytes align = none) :
    (s.view e).take bytes align = none := by
  unfold takeBestFit at ht
  unfold DeviceHeap.take
  rw [view_regions, ← best_view]
  unfold Heap.ownedBy at ht
  split at ht
  · rename_i hnone
    rw [hnone]
    rfl
  · cases ht

/-- What `take_best_fit` changes. -/
structure TookBestFit (s : Heap) (e bytes align base slab : ℕ) (s' : Heap) : Prop where
  view : (s.view e).take bytes align = some (base, s'.view e)
  others : ∀ e', e' ≠ e → s'.view e' = s.view e'
  linked : s'.Linked
  slab : ∃ w, s'.slabs[slab]? = some w ∧ w.device = e ∧ w.base ≤ base ∧ base < w.base + w.size

theorem Heap.Good.take (hg : s.Good P ok) {s' : Heap} {base slab : ℕ}
    (ht : takeBestFit s e bytes align = some (base, slab, s')) :
    TookBestFit s e bytes align base slab s' := by
  have hbest := best_view s.slabs s.free e fun base size => base % align = 0 && bytes ≤ size
  unfold takeBestFit at ht
  unfold Heap.ownedBy at ht
  split at ht
  · cases ht
  rename_i best size hf
  rw [hf] at hbest
  simp only [Option.some.injEq, Prod.mk.injEq] at ht
  obtain ⟨rfl, rfl, rfl⟩ := ht
  obtain ⟨hhas, htest, -⟩ := OrdMap.firstLeast_eq_some_iff.mp hf
  rw [Bool.and_eq_true, Bool.and_eq_true, decide_eq_true_eq, decide_eq_true_eq] at htest
  have hkey : best = toLex ((ofLex best).1, (ofLex best).2) := rfl
  generalize (ofLex best).1 = slab at *
  generalize (ofLex best).2 = base at *
  subst hkey
  obtain ⟨w, hw, he⟩ : ∃ w, s.slabs[slab]? = some w ∧ w.device = e := by
    have hown := htest.1
    rcases hw : s.slabs[slab]? with _ | w
    · rw [hw] at hown
      cases hown
    · rw [hw] at hown
      exact ⟨w, rfl, by simpa using hown⟩
  have hs := hg.sound e
  have hmem : w.region (s.free.fiber slab) ∈ (s.view e).regions :=
    mem_regionsOf.mpr ⟨slab, w, hw, he, rfl⟩
  have hfiber : (w.region (s.free.fiber slab)).free.Has base size := OrdMap.has_fiber.mpr hhas
  obtain ⟨hcontains, hend⟩ := hs.free_in _ hmem base size hfiber
  have hstop := (hs.proper _ hmem).stop
  simp only [Slab.region] at hcontains hend hstop
  have hle := htest.2.2
  have hself : (if bytes < size then
      insertFree (s.free.erase (toLex (slab, base))) (add64 base bytes) (size - bytes) slab
      else s.free.erase (toLex (slab, base))).fiber slab =
        Extents.carve (s.free.fiber slab) base size bytes := by
    unfold Extents.carve
    split
    · rw [add64_of_lt (by omega), insertFree_fiber (by omega), OrdMap.fiber_erase_self]
      intro b n hb
      rw [OrdMap.fiber_erase_self] at hb
      have := (hs.free_in _ hmem b n (OrdMap.has_erase.mp hb).1).2
      simp only [Slab.region] at this
      omega
    · exact OrdMap.fiber_erase_self _ _ _
  have hother : ∀ j, j ≠ slab → (if bytes < size then
      insertFree (s.free.erase (toLex (slab, base))) (add64 base bytes) (size - bytes) slab
      else s.free.erase (toLex (slab, base))).fiber j = s.free.fiber j := by
    intro j hj
    split
    · rw [insertFree_fiber_of_ne hj, OrdMap.fiber_erase_of_ne _ hj]
    · exact OrdMap.fiber_erase_of_ne _ hj _
  refine ⟨?_, ?_, ?_, w, hw, he, hcontains.1, hcontains.2⟩
  · unfold DeviceHeap.take
    rw [view_regions, ← hbest]
    refine congrArg some (Prod.ext rfl ?_)
    unfold Heap.view DeviceHeap.edit
    rw [regionsOf_edit hs.apart hw he hcontains (f := fun m => m.carve base size bytes) hself hother]
    rfl
  · intro e' he'
    unfold Heap.view
    rw [regionsOf_congr]
    intro i w' hi hw'
    refine hother i fun h => he' ?_
    subst h
    rw [hw] at hi
    cases hi
    exact hw'.symm.trans he
  · refine ⟨?_, hg.linked.live_key, hg.linked.live_slab, hg.linked.held_slab, hg.linked.buffer⟩
    intro i b n h
    by_cases hi : i = slab
    · rw [hi]
      exact (List.getElem?_eq_some_iff.mp hw).1
    · rw [← OrdMap.has_fiber, hother i hi, OrdMap.has_fiber] at h
      exact hg.linked.free_slab i b n h

/-! ## Placing -/

/-- An allocation of a device is a block to that device, and nothing to the others. -/
theorem view_place (s : Heap) (a : Allocation) (e : ℕ) :
    (s.place a).view e = if a.device = e then (s.view e).place a.toBlock else s.view e := by
  unfold Heap.view Heap.place DeviceHeap.place
  by_cases he : a.device = e
  · rw [if_pos he, he, OrdMap.fiber_insert_self, OrdMap.map_insert]
  · rw [if_neg he, OrdMap.fiber_insert_of_ne _ (fun h => he h.symm)]

theorem Heap.Linked.place (hl : s.Linked) {a : Allocation}
    (ha : a.direct = false → ∃ w, s.slabs[a.slab]? = some w ∧ w.device = a.device ∧
      w.base ≤ a.base ∧ a.base < w.base + w.size) : (s.place a).Linked where
  free_slab := hl.free_slab
  live_key := by
    intro e b c hc
    rcases OrdMap.has_insert.mp hc with ⟨hk, rfl⟩ | ⟨-, hc⟩
    · obtain ⟨rfl, rfl⟩ := Prod.mk.inj (toLex.injective hk)
      exact ⟨rfl, rfl⟩
    · exact hl.live_key e b c hc
  live_slab := by
    intro k c hc hd
    rcases OrdMap.has_insert.mp hc with ⟨-, rfl⟩ | ⟨-, hc⟩
    · exact ha hd
    · exact hl.live_slab k c hc hd
  held_slab := hl.held_slab
  buffer := hl.buffer

/-- The record of a carved allocation is the block cut from the region. -/
theorem carved_toBlock {base need slab : ℕ} {managed : Bool} (hl : (s.view e).Laid P e)
    {w : Slab} (hw : s.slabs[slab]? = some w) (he : w.device = e)
    (hb : w.base ≤ base ∧ base < w.base + w.size) :
    (s.carved e base need slab managed).toBlock = (s.view e).cut e base need managed := by
  have hmem : w.region (s.free.fiber slab) ∈ (s.view e).regions :=
    mem_regionsOf.mpr ⟨slab, w, hw, he, rfl⟩
  have hstop := (hl.proper _ hmem).stop
  rw [DeviceHeap.cut_eq hl hmem hb]
  simp only [Slab.region] at hstop
  simp only [Heap.carved, List.getD_eq_getElem?_getD, hw, Option.getD_some, Slab.region]
  rw [sub64_of_le hb.1 (by omega)]

end Linked

end Grxcp.Runtime
