import Grxcp.Runtime.HeapView

/-!
# The shared heap refines one heap for each device

A call of `memory.cpp` by a device is that call on the device's own view, and leaves the views of the
other devices alone (`Refines`). For `grxDeviceReset` this needs the slabs of the device to be the
last ones, and no NPU window anywhere: the indices that name the other slabs are then the same after
the erasure.
-/

namespace Grxcp.Runtime

variable {P : Platform} {ok : ℕ → Prop} {s : Heap} {e : ℕ}

/-- A point that is a device's by a buffer of the driver's or by the window of an NPU. -/
def Heap.Taken (s : Heap) (e x : ℕ) : Prop :=
  (∃ w ∈ s.slabs, w.device = e ∧ w.base ≤ x ∧ x < w.base + w.size) ∨
    (∃ k a, s.live.Has k a ∧ a.device = e ∧ a.direct = true ∧ a.Occupies x) ∨
    ∃ a ∈ s.quarantine, a.device = e ∧ a.direct = true ∧ a.Occupies x

/-- A reset of the device erases the last slabs, if any: no slab of another device came after one of
its own, and there is no NPU window. -/
def Heap.ResetsLast (s : Heap) (e : ℕ) : Prop :=
  (∀ w ∈ s.slabs, w.npu = false) ∧
    s.slabs.Pairwise fun w w' => w.device = e → w'.device = e

/-- What is asked of a call: that the driver gives out memory that is not taken, that the rounded
size is one that `ok` allows, and that a reset erases the last slabs. -/
structure Call.Meets (P : Platform) (ok : ℕ → Prop) (s : Heap) (c : Call) : Prop where
  driver : ∀ r, c.op.request = some r → r.driver.Ok (s.Taken c.device)
  size : ∀ n, c.op.asks (P.device c.device) = some n → ok (need P c.device n)
  reset : ∀ sync, c.op = .reset sync → s.ResetsLast c.device

/-- A call on the heap is a call on one device's view of it. -/
structure Refines (s : Heap) (e : ℕ) (res : Heap × Except GrxError ℕ)
    (spec : DeviceHeap × Except GrxError ℕ) : Prop where
  view : res.1.view e = spec.1
  result : res.2 = spec.2
  others : ∀ e', e' ≠ e → res.1.view e' = s.view e'
  linked : res.1.Linked

theorem Heap.Linked.taken_view (hl : s.Linked) {x : ℕ} : (s.view e).Taken x ↔ s.Taken e x := by
  constructor
  · rintro (⟨r, hr, hx⟩ | ⟨a, ha, hd, hx⟩)
    · obtain ⟨i, w, hw, he, rfl⟩ := mem_regionsOf.mp hr
      exact .inl ⟨w, List.mem_of_getElem? hw, he, hx⟩
    · rcases ha with ha | ha
      · obtain ⟨al, hal, rfl⟩ := view_live_has.mp ha
        exact .inr (.inl ⟨_, al, hal, (hl.live_key _ _ _ hal).1, hd, hx⟩)
      · obtain ⟨al, hal, he, rfl⟩ := mem_view_held.mp ha
        exact .inr (.inr ⟨al, hal, he, hd, hx⟩)
  · rintro (⟨w, hw, he, hx⟩ | ⟨k, a, ha, he, hd, hx⟩ | ⟨a, ha, he, hd, hx⟩)
    · obtain ⟨i, hi⟩ := List.mem_iff_getElem?.mp hw
      exact .inl ⟨_, mem_regionsOf.mpr ⟨i, w, hi, he, rfl⟩, hx⟩
    · have hk : k = toLex ((ofLex k).1, (ofLex k).2) := rfl
      rw [hk] at ha
      obtain ⟨h₁, h₂⟩ := hl.live_key _ _ _ ha
      rw [← h₁, ← h₂, he] at ha
      exact .inr ⟨a.toBlock, .inl (view_live_has.mpr ⟨a, ha, rfl⟩), hd, hx⟩
    · exact .inr ⟨a.toBlock, .inr (mem_view_held.mpr ⟨a, ha, he, rfl⟩), hd, hx⟩

theorem Heap.Good.same (hg : s.Good P ok) (res : Except GrxError ℕ) :
    Refines s e (s, res) (s.view e, res) :=
  ⟨rfl, rfl, fun _ _ => rfl, hg.linked⟩

/-! ## Allocating -/

/-- A slab of a device's own makes good of good. -/
theorem Heap.Good.push (hg : s.Good P ok) {w : Slab} (hw : w.npu = false → w.buffer.isSome = true)
    (hedit : DeviceHeap.Edit P w.device ok (s.view w.device)
      ((s.view w.device).grow (.whole w.buffer w.base w.size w.npu)))
    (hstop : w.base + w.size < 2 ^ 64) : (s.push w).Good P ok where
  linked := hg.linked.push hw
  sound := by
    intro e
    rw [hg.linked.view_push hstop]
    split
    · rename_i he
      subst he
      exact hedit.sound (hg.sound _)
    · exact hg.sound e

/-- An allocation from the extent that `take_best_fit` found. -/
theorem Heap.Good.place_taken (hg : s.Good P ok) {s' : Heap} {base slab need : ℕ} {managed : Bool}
    (hok : ok need) (ht : TookBestFit s e need (alignmentFor (P.device e)) base slab s')
    {a : Allocation} (ha : a.toBlock = (s'.carved e base need slab managed).toBlock)
    (hslab : a.slab = slab) {s₀ : Heap} (hs₀ : ∀ e', e' ≠ e → s.view e' = s₀.view e') :
    Refines s₀ e (s'.place a, .ok base)
      ((s'.view e).place ((s'.view e).cut e base need managed), .ok base) := by
  obtain ⟨w, hw, he, hb⟩ := ht.slab
  have hedit := ((hg.sound e).take managed false hok ht.view).1
  have hl : (s'.view e).Laid P e := (hedit.sound (hg.sound e)).toLaid.congr rfl
  have hcut : (s'.carved e base need slab managed).toBlock = (s'.view e).cut e base need managed :=
    carved_toBlock hl hw he hb
  have hdev : a.device = e := by rw [ha]; rfl
  have hbase : a.base = base := by rw [ha]; rfl
  refine ⟨?_, rfl, ?_, ht.linked.place fun _ => ⟨w, ?_⟩⟩
  · simp only
    rw [view_place, if_pos hdev, ha, hcut]
  · intro e' he'
    simp only
    rw [view_place, if_neg (fun h => he' (h.symm.trans hdev)), ht.others e' he', hs₀ e' he']
  · rw [hslab, hdev, hbase]
    exact ⟨hw, he, hb.1, hb.2⟩

theorem any_npu_view : (s.view e).regions.any (·.npu) = s.slabs.any fun w => w.npu && w.device = e := by
  rw [Bool.eq_iff_iff, List.any_eq_true, List.any_eq_true]
  constructor
  · rintro ⟨r, hr, hn⟩
    obtain ⟨i, w, hw, he, rfl⟩ := mem_regionsOf.mp hr
    exact ⟨w, List.mem_of_getElem? hw, by simpa [he, Slab.region] using hn⟩
  · rintro ⟨w, hw, hn⟩
    rw [Bool.and_eq_true, decide_eq_true_eq] at hn
    obtain ⟨i, hi⟩ := List.mem_iff_getElem?.mp hw
    exact ⟨_, mem_regionsOf.mpr ⟨i, w, hi, hn.2, rfl⟩, hn.1⟩

/-- `ensure_npu_window` on the heap and on the device's view of it. -/
theorem Heap.Good.window (hg : s.Good P ok) (hnpu : (P.device e).type = .npu) :
    (∃ x, ensureNpuWindow P s e = .error x ∧ (s.view e).window P e = .error x) ∨
      ∃ s', ensureNpuWindow P s e = .ok s' ∧ (s.view e).window P e = .ok (s'.view e) ∧
        s'.Good P ok ∧ ∀ e', e' ≠ e → s'.view e' = s.view e' := by
  have hlt := (P.device e).totalGlobalMem.toNat_lt
  have hmin : kMinAlign = 256 := rfl
  unfold ensureNpuWindow DeviceHeap.window
  simp only [any_npu_view]
  by_cases hany : (s.slabs.any fun w => w.npu && w.device = e) = true
  · rw [if_pos hany, if_pos hany]
    exact .inr ⟨s, rfl, rfl, hg, fun _ _ => rfl⟩
  rw [if_neg hany, if_neg hany]
  by_cases htotal : (P.device e).totalGlobalMem.toNat ≤ kMinAlign
  · rw [if_pos htotal, if_pos htotal]
    exact .inl ⟨_, rfl, rfl⟩
  rw [if_neg htotal, if_neg htotal]
  have hstop : kMinAlign + ((P.device e).totalGlobalMem.toNat - kMinAlign) < 2 ^ 64 := by omega
  have hview := fun e' => hg.linked.view_push (e := e')
    (w := { buffer := none, base := kMinAlign,
            size := (P.device e).totalGlobalMem.toNat - kMinAlign, device := e, npu := true }) hstop
  refine .inr ⟨_, rfl, ?_, ?_, ?_⟩
  · rw [hview, if_pos rfl]
  · refine hg.push (by simp) ?_ hstop
    have hwin : (s.view e).window P e = .ok ((s.view e).grow
        (.whole none kMinAlign ((P.device e).totalGlobalMem.toNat - kMinAlign) true)) := by
      unfold DeviceHeap.window
      simp only [any_npu_view]
      rw [if_neg hany, if_neg htotal]
    rcases (hg.sound e).window hnpu hwin with heq | ⟨-, hedit, -⟩
    · exact absurd (congrArg (List.length ∘ DeviceHeap.regions) heq) (by simp [DeviceHeap.grow])
    · exact hedit
  · intro e' he'
    rw [hview, if_neg fun h => he' h.symm]

theorem Heap.Good.allocateNpu (hg : s.Good P ok) (hnpu : (P.device e).type = .npu) {need : ℕ}
    (hok : ok need) (managed : Bool) :
    Refines s e (Runtime.allocateNpu P s e (alignmentFor (P.device e)) need managed)
      ((s.view e).allocateNpu P e need managed) := by
  unfold Runtime.allocateNpu DeviceHeap.allocateNpu
  rcases hg.window hnpu with ⟨x, hw, hw'⟩ | ⟨s₁, hw, hw', hg₁, hothers⟩
  · rw [hw, hw']
    exact ⟨rfl, rfl, fun _ _ => rfl, hg.linked⟩
  rw [hw, hw']
  simp only
  rcases ht : takeBestFit s₁ e need (alignmentFor (P.device e)) with _ | ⟨base, slab, s₂⟩
  · rw [take_view_none ht]
    exact ⟨rfl, rfl, hothers, hg₁.linked⟩
  have hT := hg₁.take ht
  rw [hT.view]
  refine hg₁.place_taken hok hT ?_ rfl hothers
  -- the window has no buffer, so the record has the slab's
  obtain ⟨w, hwslab, he, hb⟩ := hT.slab
  have hedit := ((hg₁.sound e).take managed false hok hT.view).1
  have hl : (s₂.view e).Laid P e := (hedit.sound (hg₁.sound e)).toLaid.congr rfl
  have hbuf := ((hl.proper _ (mem_regionsOf.mpr ⟨slab, w, hwslab, he, rfl⟩)).npu hnpu).2
  simp only [Slab.region] at hbuf
  simp only [Heap.carved, List.getD_eq_getElem?_getD, hwslab, Option.getD_some, hbuf]

theorem Heap.Good.allocateDirect (hg : s.Good P ok) (need : ℕ) (managed physical : Bool)
    (drv : Driver) :
    Refines s e (Runtime.allocateDirect s e need managed physical drv)
      ((s.view e).allocateDirect e need managed physical drv) := by
  unfold Runtime.allocateDirect DeviceHeap.allocateDirect
  rcases drv.create need with x | ⟨buffer, base⟩
  · exact ⟨rfl, rfl, fun _ _ => rfl, hg.linked⟩
  · refine ⟨?_, rfl, ?_, hg.linked.place fun h => by cases h⟩
    · simp only
      rw [view_place, if_pos rfl]
    · intro e' he'
      simp only
      rw [view_place, if_neg fun h => he' h.symm]

theorem Heap.Good.allocateSlab (hg : s.Good P ok) (hgpu : (P.device e).type = .gpu) {need : ℕ}
    (hok : ok need) (managed : Bool) {drv : Driver} (hdrv : drv.Ok (s.Taken e)) :
    Refines s e (Runtime.allocateSlab P s e need managed drv)
      ((s.view e).allocateSlab P e need managed drv) := by
  unfold Runtime.allocateSlab DeviceHeap.allocateSlab
  dsimp only
  rcases ht : takeBestFit s e need (alignmentFor (P.device e)) with _ | ⟨base, slab, s₁⟩
  · rw [take_view_none ht]
    simp only
    generalize (if slabSize P < need then alignUp need (alignmentFor (P.device e))
      else slabSize P) = bytes
    unfold addSlab
    rcases hc : drv.create bytes with x | ⟨buffer, base⟩
    · exact ⟨rfl, rfl, fun _ _ => rfl, hg.linked⟩
    have hdrv' : drv.Ok (s.view e).Taken := fun n b base h => by
      obtain ⟨h₁, h₂, h₃, h₄⟩ := hdrv n b base h
      exact ⟨h₁, h₂, h₃, fun x hx hx' => fun ht => h₄ x hx hx' (hg.linked.taken_view.mp ht)⟩
    have hstop := (hdrv bytes buffer base (DeviceHeap.Driver.create_ok hc)).2.2.1
    have hedit : DeviceHeap.Edit P e ok (s.view e)
        ((s.view e).grow (.whole (some buffer) base bytes false)) :=
      DeviceHeap.grow_edit hdrv' hgpu hc
    have hg₁ := hg.push (w := { buffer := some buffer, base, size := bytes, device := e })
      (fun _ => rfl) hedit hstop
    have hview := hg.linked.view_push (e := e)
      (w := { buffer := some buffer, base, size := bytes, device := e }) hstop
    rw [if_pos rfl] at hview
    have hothers : ∀ e', e' ≠ e →
        (s.push { buffer := some buffer, base, size := bytes, device := e }).view e' = s.view e' := by
      intro e' he'
      rw [hg.linked.view_push hstop, if_neg fun h => he' h.symm]
    simp only
    rw [← hview]
    rcases ht₁ : takeBestFit (s.push { buffer := some buffer, base, size := bytes, device := e }) e
        need (alignmentFor (P.device e)) with _ | ⟨base', slab, s₂⟩
    · rw [take_view_none ht₁]
      exact ⟨rfl, rfl, hothers, hg₁.linked⟩
    · have hT := hg₁.take ht₁
      rw [hT.view]
      exact hg₁.place_taken hok hT rfl rfl hothers
  · have hT := hg.take ht
    rw [hT.view]
    exact hg.place_taken hok hT rfl rfl fun _ _ => rfl

theorem Heap.Good.allocateDevice (hg : s.Good P ok) {bytes : ℕ}
    (hok : (P.device e).type ≠ .pta → ok (need P e bytes)) (managed : Bool) {drv : Driver}
    (hdrv : drv.Ok (s.Taken e)) :
    Refines s e (Runtime.allocateDevice P s e bytes managed none drv)
      ((s.view e).allocate P e (need P e bytes) managed false drv) := by
  unfold Runtime.allocateDevice DeviceHeap.allocate
  simp only [Bool.false_eq_true, false_or]
  cases htype : (P.device e).type with
  | pta => exact hg.same _
  | npu => exact hg.allocateNpu htype (hok (by rw [htype]; decide)) managed
  | gpu =>
    simp only
    split
    · exact hg.allocateDirect _ managed false drv
    · exact hg.allocateSlab htype (hok (by rw [htype]; decide)) managed hdrv

theorem Heap.Good.allocateDevicePhysical (hg : s.Good P ok) {bytes : ℕ}
    (hok : (P.device e).type ≠ .pta → ok (need P e bytes)) (drv : Driver) :
    Refines s e (Runtime.allocateDevicePhysical P s e bytes none drv)
      ((s.view e).allocate P e (need P e bytes) false true drv) := by
  unfold Runtime.allocateDevicePhysical DeviceHeap.allocate
  simp only [true_or, if_true]
  cases htype : (P.device e).type with
  | pta => exact hg.same _
  | npu => exact hg.allocateNpu htype (hok (by rw [htype]; decide)) false
  | gpu => exact hg.allocateDirect _ false true drv

/-! ## Freeing -/

theorem Heap.Linked.drop (hl : s.Linked) (k : ℕ ×ₗ ℕ) :
    ({ s with live := s.live.erase k } : Heap).Linked where
  free_slab := hl.free_slab
  live_key := fun e b a ha => hl.live_key e b a (OrdMap.has_erase.mp ha).1
  live_slab := fun k a ha => hl.live_slab k a (OrdMap.has_erase.mp ha).1
  held_slab := hl.held_slab
  buffer := hl.buffer

/-- An allocation dropped from `g_live` is a block dropped by its device. -/
theorem view_drop (s : Heap) (e b e' : ℕ) :
    ({ s with live := s.live.erase (toLex (e, b)) } : Heap).view e' =
      if e' = e then { s.view e with live := (s.view e).live.erase b } else s.view e' := by
  unfold Heap.view
  by_cases he : e' = e
  · subst he
    rw [if_pos rfl, OrdMap.fiber_erase_self, OrdMap.map_erase]
  · rw [if_neg he, OrdMap.fiber_erase_of_ne _ he]

theorem Heap.Good.free (hg : s.Good P ok) (address : ℕ) :
    Refines s e ((grxFree P s e address).1, (grxFree P s e address).2.map fun _ => 0)
      ((s.view e).free P address) := by
  unfold grxFree DeviceHeap.free
  split
  · exact ⟨rfl, rfl, fun _ _ => rfl, hg.linked⟩
  have hfind : (s.view e).live.find? address =
      (s.live.find? (toLex (e, address))).map fun a => a.toBlock := by
    simp only [Heap.view]
    rw [OrdMap.find?_map, OrdMap.fiber_find?]
  rw [hfind]
  rcases hf : s.live.find? (toLex (e, address)) with _ | a
  · exact ⟨rfl, rfl, fun _ _ => rfl, hg.linked⟩
  have ha := OrdMap.find?_eq_some_iff.mp hf
  obtain ⟨hdev, rfl⟩ := hg.linked.live_key _ _ _ ha
  have hview := view_drop s e a.base
  have hother : ∀ e', e' ≠ e →
      ({ s with live := s.live.erase (toLex (e, a.base)) } : Heap).view e' = s.view e' := by
    intro e' he'
    rw [hview, if_neg he']
  have hself := hview e
  rw [if_pos rfl] at hself
  have hl := hg.linked.drop (toLex (e, a.base))
  simp only [Option.map_some]
  split
  · refine ⟨?_, rfl, ?_, ?_⟩
    · unfold Heap.view at hself ⊢
      unfold DeviceHeap.drop
      simp only [DeviceHeap.mk.injEq] at hself
      simp [hdev, hself.2.1]
    · intro e' he'
      rw [← hother e' he']
      unfold Heap.view
      have hne : a.device ≠ e' := fun h => he' (h.symm.trans hdev)
      simp [hne]
    · refine ⟨hl.free_slab, hl.live_key, hl.live_slab, ?_, hl.buffer⟩
      intro c hc hd
      rcases List.mem_cons.mp hc with rfl | hc
      · exact hg.linked.live_slab _ _ ha hd
      · exact hl.held_slab c hc hd
  split
  · refine ⟨?_, rfl, hother, hl⟩
    simp only
    rw [hself, DeviceHeap.drop]
  · rename_i hd
    have hd : a.direct = false := by simpa using hd
    obtain ⟨w, hw, he, hb⟩ := hg.linked.live_slab _ _ ha hd
    have hs := hg.sound e
    have hmem : w.region (s.free.fiber a.slab) ∈ (s.view e).regions :=
      mem_regionsOf.mpr ⟨a.slab, w, hw, he.trans hdev, rfl⟩
    have hlive : (s.view e).live.Has a.base a.toBlock := view_live_has.mpr ⟨a, ha, rfl⟩
    obtain ⟨r, hr, hin⟩ := hs.owned_in _ (hs.owned_of_live hlive) hd
    obtain rfl := hs.toLaid.unique hmem hr hb hin.start
    have hstop := (hs.proper _ hmem).stop
    have hend := hin.stop
    simp only [Slab.region] at hstop hend
    have hfiber : (insertFree s.free a.base a.size a.slab).fiber a.slab =
        Extents.give (s.free.fiber a.slab) a.base a.size := by
      refine insertFree_fiber (by omega) fun b n h => ?_
      have := (hs.free_in _ hmem b n h).2
      simp only [Slab.region] at this
      omega
    refine ⟨?_, rfl, ?_, ?_⟩
    · unfold Heap.view DeviceHeap.edit DeviceHeap.drop
      unfold Heap.view at hself
      simp only [DeviceHeap.mk.injEq] at hself
      simp only [hself.2.1]
      rw [regionsOf_edit hs.apart hw (he.trans hdev) hb (f := fun m => m.give a.base a.size) hfiber
        fun j hj => insertFree_fiber_of_ne hj]
    · intro e' he'
      rw [← hother e' he']
      unfold Heap.view
      simp only
      rw [regionsOf_congr]
      intro i w' hi hw'
      refine insertFree_fiber_of_ne fun h => he' ?_
      rw [h, hw] at hi
      cases hi
      exact hw'.symm.trans (he.trans hdev)
    · refine ⟨?_, hl.live_key, hl.live_slab, hl.held_slab, hl.buffer⟩
      intro i b n h
      by_cases hi : i = a.slab
      · rw [hi]
        exact (List.getElem?_eq_some_iff.mp hw).1
      · rw [← OrdMap.has_fiber, insertFree_fiber_of_ne hi, OrdMap.has_fiber] at h
        exact hg.linked.free_slab i b n h

/-! ## Resetting -/

private theorem erase_null {l : List Slab} (e : ℕ) (hl : ∀ w ∈ l, w.buffer.isSome = true) :
    (l.map fun w => if w.device = e then { w with buffer := none } else w).filter (·.buffer.isSome) =
      l.filter fun w => w.device ≠ e := by
  induction l with
  | nil => rfl
  | cons w l ih =>
    have hw := hl w List.mem_cons_self
    have ih := ih fun w hw => hl w (List.mem_cons_of_mem _ hw)
    by_cases he : w.device = e
    · simpa [he] using ih
    · simpa [he, hw] using ih

private theorem split_last {l : List Slab} {e : ℕ}
    (hl : l.Pairwise fun w w' => w.device = e → w'.device = e) :
    l = l.filter (fun w => w.device ≠ e) ++ l.filter fun w => w.device = e := by
  induction l with
  | nil => rfl
  | cons w l ih =>
    obtain ⟨hw, hl⟩ := List.pairwise_cons.mp hl
    by_cases he : w.device = e
    · have hnone : l.filter (fun w => w.device ≠ e) = [] := by
        rw [List.filter_eq_nil_iff]
        intro w' hw'
        simp [hw w' hw' he]
      have hall : l.filter (fun w => w.device = e) = l := by
        rw [List.filter_eq_self]
        intro w' hw'
        simp [hw w' hw' he]
      simp only [ne_eq, decide_not] at hnone ⊢
      simp [he, hnone, hall]
    · have ih := ih hl
      simp only [ne_eq, decide_not] at ih ⊢
      simp only [he, decide_false, Bool.not_false, List.filter_cons_of_pos, List.cons_append,
        Bool.false_eq_true, not_false_eq_true, List.filter_cons_of_neg]
      rw [← ih]

/-- The heap after a reset that erases the last slabs. -/
theorem Heap.Linked.releaseAll (hl : s.Linked) (hr : s.ResetsLast e) :
    releaseAllAllocations s e =
      { slabs := s.slabs.filter fun w => w.device ≠ e
        free := s.free.filter fun k _ => !s.ownedBy e (ofLex k).1
        live := s.live.filter fun k _ => (ofLex k).1 ≠ e
        quarantine := s.quarantine.filter fun a => a.direct || a.device ≠ e } := by
  have hwindows : (s.slabs.zipIdx.filter fun w => w.1.npu && w.1.device = e) = [] := by
    rw [List.filter_eq_nil_iff]
    rintro ⟨w, i⟩ hw
    have hn := hr.1 w (List.mem_of_getElem? (List.mem_zipIdx_iff_getElem?.mp hw))
    simp [hn]
  unfold releaseAllAllocations
  dsimp only
  rw [hwindows, erase_null e fun w hw => hl.buffer w hw (hr.1 w hw)]
  rfl

/-- A slab that stays keeps its index. -/
theorem Heap.ResetsLast.kept (hr : s.ResetsLast e) {i : ℕ} {w : Slab} :
    (s.slabs.filter fun w => w.device ≠ e)[i]? = some w ↔ s.slabs[i]? = some w ∧ w.device ≠ e := by
  have hsplit := split_last hr.2
  constructor
  · intro h
    have hne : w.device ≠ e := by simpa using (List.mem_filter.mp (List.mem_of_getElem? h)).2
    refine ⟨?_, hne⟩
    rw [hsplit, List.getElem?_append_left (List.getElem?_eq_some_iff.mp h).1, h]
  · rintro ⟨h, hne⟩
    rw [hsplit] at h
    rcases lt_or_ge i (s.slabs.filter fun w => w.device ≠ e).length with hlt | hge
    · rwa [List.getElem?_append_left hlt] at h
    · rw [List.getElem?_append_right hge] at h
      have := (List.mem_filter.mp (List.mem_of_getElem? h)).2
      exact absurd (by simpa using this) hne

theorem Heap.Good.reset (hg : s.Good P ok) (hr : s.ResetsLast e) (sync : Option GrxError) :
    Refines s e ((grxDeviceReset s e sync).1, (grxDeviceReset s e sync).2.map fun _ => 0)
      ((s.view e).reset, sync.elim (.ok 0) .error) := by
  have hl := hg.linked
  have howned : ∀ i, s.ownedBy e i = true ↔ ∃ w, s.slabs[i]? = some w ∧ w.device = e := by
    intro i
    unfold Heap.ownedBy
    rcases s.slabs[i]? with _ | w
    · simp
    · simp
  have hlive : ∀ (e' b : ℕ) (a : Allocation),
      (s.live.filter fun k _ => (ofLex k).1 ≠ e).Has (toLex (e', b)) a ↔
        s.live.Has (toLex (e', b)) a ∧ e' ≠ e := by
    intro e' b a
    rw [OrdMap.has_filter, decide_eq_true_eq]
    rfl
  refine ⟨?_, by unfold grxDeviceReset; cases sync <;> rfl, ?_, ?_⟩
  · simp only [grxDeviceReset]
    rw [hl.releaseAll hr]
    unfold Heap.view DeviceHeap.reset
    have h₁ : regionsOf (s.slabs.filter fun w => w.device ≠ e)
        (s.free.filter fun k _ => !s.ownedBy e (ofLex k).1) e = [] := by
      refine List.eq_nil_iff_forall_not_mem.mpr fun r hr' => ?_
      obtain ⟨i, w, hw, he, -⟩ := mem_regionsOf.mp hr'
      exact (hr.kept.mp hw).2 he
    have h₂ : ((regionsOf s.slabs s.free e).filter (·.npu)) = [] := by
      refine List.filter_eq_nil_iff.mpr fun r hr' => ?_
      obtain ⟨i, w, hw, -, rfl⟩ := mem_regionsOf.mp hr'
      simp [Slab.region, hr.1 w (List.mem_of_getElem? hw)]
    have h₃ : ((s.live.filter fun k _ => (ofLex k).1 ≠ e).fiber e).map
        (fun _ a => a.toBlock) = .empty := by
      refine OrdMap.ext fun b a => ?_
      simp
    rw [h₁, h₂, h₃]
    simp only [List.map_nil, DeviceHeap.mk.injEq, true_and]
    rw [List.filter_map, List.filter_filter, List.filter_filter]
    refine congrArg _ (List.filter_congr fun a _ => ?_)
    by_cases he : a.device = e <;> simp [he]
  · intro e' he'
    simp only [grxDeviceReset]
    rw [hl.releaseAll hr]
    unfold Heap.view
    have h₁ : regionsOf (s.slabs.filter fun w => w.device ≠ e)
        (s.free.filter fun k _ => !s.ownedBy e (ofLex k).1) e' = regionsOf s.slabs s.free e' := by
      refine Eq.trans (regionsOf_congr ?_ : _ = regionsOf _ s.free e') ?_
      rotate_left
      · conv_rhs => rw [split_last hr.2]
        unfold regionsOf
        rw [List.zipIdx_append, List.filterMap_append]
        refine (List.append_nil _).symm.trans (congrArg _ (Eq.symm ?_))
        refine List.filterMap_eq_nil_iff.mpr fun p hp => ?_
        have hmem := List.fst_mem_of_mem_zipIdx hp
        have hdev : p.1.device = e := by simpa using (List.mem_filter.mp hmem).2
        simp [hdev, he'.symm]
      · intro i w hi hw
        refine OrdMap.ext fun b n => ?_
        rw [OrdMap.has_fiber, OrdMap.has_fiber, OrdMap.has_filter]
        refine and_iff_left ?_
        have hnot : s.ownedBy e i ≠ true := by
          rw [Ne, howned]
          rintro ⟨w', hw', he⟩
          rw [(hr.kept.mp hi).1] at hw'
          cases hw'
          exact he' (hw.symm.trans he)
        simpa using hnot
    have h₂ : ((s.live.filter fun k _ => (ofLex k).1 ≠ e).fiber e') = s.live.fiber e' := by
      refine OrdMap.ext fun b a => ?_
      rw [OrdMap.has_fiber, OrdMap.has_fiber, hlive]
      exact and_iff_left he'
    rw [h₁, h₂, List.filter_filter]
    refine congrArg _ (congrArg _ (List.filter_congr fun a _ => ?_))
    by_cases ha : a.device = e'
    · simp [ha, he']
    · simp [ha]
  · simp only [grxDeviceReset]
    rw [hl.releaseAll hr]
    refine ⟨?_, ?_, ?_, ?_, ?_⟩
    · intro i b n h
      obtain ⟨h, hnot⟩ := OrdMap.has_filter.mp h
      have hi := hl.free_slab i b n h
      have hkept := hr.kept (i := i) (w := s.slabs[i])
      refine (List.getElem?_eq_some_iff.mp (hkept.mpr ⟨List.getElem?_eq_getElem hi, fun he => ?_⟩)).1
      have := (howned i).mpr ⟨_, List.getElem?_eq_getElem hi, he⟩
      simp [this] at hnot
    · exact fun e' b a ha => hl.live_key e' b a ((hlive e' b a).mp ha).1
    · intro k a ha hd
      obtain ⟨ha, hk⟩ := OrdMap.has_filter.mp ha
      obtain ⟨w, hw, he, hb⟩ := hl.live_slab k a ha hd
      have hk' : k = toLex ((ofLex k).1, (ofLex k).2) := rfl
      rw [hk'] at ha
      have hdev := (hl.live_key _ _ _ ha).1
      refine ⟨w, hr.kept.mpr ⟨hw, ?_⟩, he, hb⟩
      rw [he, hdev]
      simpa using hk
    · intro a ha hd
      obtain ⟨ha, hk⟩ := List.mem_filter.mp ha
      obtain ⟨w, hw, he, hb⟩ := hl.held_slab a ha hd
      refine ⟨w, hr.kept.mpr ⟨hw, ?_⟩, he, hb⟩
      rw [he]
      simpa [hd] using hk
    · exact fun w hw hn => hl.buffer w (List.mem_filter.mp hw).1 hn

/-! ## Every call -/

theorem Heap.Good.call_refines (hg : s.Good P ok) {c : Call} (hm : c.Meets P ok s) :
    Refines s c.device (s.call P c) ((s.view c.device).call P c.device c.op) := by
  obtain ⟨e, op⟩ := c
  cases op with
  | malloc r =>
    simp only [Heap.call, grxMalloc, DeviceHeap.call]
    split
    · exact hg.same _
    split
    · exact hg.same _
    rename_i hout hsize
    cases hacq : r.acquire with
    | some x => exact hg.same _
    | none =>
      refine hg.allocateDevice (fun hpta => hm.size _ ?_) false (hm.driver r rfl)
      simp [Op.asks, Request.reaches, hsize, hacq, hpta, hout]
  | mallocPhysical r =>
    simp only [Heap.call, grxMallocPhysical, DeviceHeap.call]
    split
    · exact hg.same _
    split
    · exact hg.same _
    rename_i hout hsize
    cases hacq : r.acquire with
    | some x => exact hg.same _
    | none =>
      refine hg.allocateDevicePhysical (fun hpta => hm.size _ ?_) r.driver
      simp [Op.asks, Request.reaches, hsize, hacq, hpta, hout]
  | mallocManaged r =>
    simp only [Heap.call, grxMallocManaged, DeviceHeap.call]
    split
    · exact hg.same _
    rename_i hout
    cases hacq : r.acquire with
    | some x => exact hg.same _
    | none =>
      simp only
      split
      · exact hg.same _
      · rename_i hmanaged
        refine hg.allocateDevice (fun hpta => hm.size _ ?_) true (hm.driver r rfl)
        simp [Op.asks, Request.reaches, hacq, hpta, hout, hmanaged]
  | free address => exact hg.free address
  | reset sync =>
    have hr := hg.reset (hm.reset sync rfl) sync
    cases sync <;> exact hr

theorem Call.Meets.view (hl : s.Linked) {c : Call} (hm : c.Meets P ok s) :
    DeviceHeap.Meets P c.device ok (s.view c.device) c.op where
  driver := by
    intro r hr n b base h
    obtain ⟨h₁, h₂, h₃, h₄⟩ := hm.driver r hr n b base h
    exact ⟨h₁, h₂, h₃, fun x hx hx' ht => h₄ x hx hx' (hl.taken_view.mp ht)⟩
  size := hm.size
  reset := by
    intro sync hsync r hr
    obtain ⟨i, w, hw, -, rfl⟩ := mem_regionsOf.mp hr
    exact (hm.reset sync hsync).1 w (List.mem_of_getElem? hw)

/-- Every call that meets what is asked of it keeps the heap good. -/
theorem Heap.Good.step (hg : s.Good P ok) {c : Call} (hm : c.Meets P ok s) :
    (s.step P c).Good P ok := by
  have hr := hg.call_refines hm
  refine ⟨hr.linked, fun e => ?_⟩
  by_cases he : e = c.device
  · subst he
    rw [Heap.step, hr.view]
    exact (hg.sound _).call (hm.view hg.linked)
  · rw [Heap.step, hr.others e he]
    exact hg.sound e

theorem Heap.Good.empty : ({} : Heap).Good P ok := by
  refine ⟨⟨?_, ?_, ?_, by simp, by simp⟩, fun e => ?_⟩
  · exact fun i b n h => absurd h (OrdMap.not_has_empty _ _)
  · exact fun e b a h => absurd h (OrdMap.not_has_empty _ _)
  · exact fun k a h => absurd h (OrdMap.not_has_empty _ _)
  · have : ({} : Heap).view e = {} := rfl
    rw [this]
    exact DeviceHeap.Sound.empty

/-- Every heap that a run reaches is good, if its calls all meet what is asked. -/
theorem Heap.Good.run {cs : List Call}
    (hr : Runs.Along (Heap.step P) (fun s c => c.Meets P ok s) s cs) (hg : s.Good P ok) :
    (Runs.after (Heap.step P) s cs).Good P ok :=
  Runs.invariant (fun _ _ hg hm => hg.step hm) hr hg

/-- What every edit of a device's heap keeps holds of every device's view in such a run. -/
theorem Heap.Good.run_edits {I : ℕ → DeviceHeap → Prop}
    (hI : ∀ e h h', h.Sound P e ok → I e h → DeviceHeap.Edit P e ok h h' → I e h') {cs : List Call}
    (hr : Runs.Along (Heap.step P) (fun s c => c.Meets P ok s) s cs) (hg : s.Good P ok)
    (h₀ : ∀ e, I e (s.view e)) (e : ℕ) : I e ((Runs.after (Heap.step P) s cs).view e) := by
  refine (Runs.invariant (I := fun s => s.Good P ok ∧ ∀ e, I e (s.view e)) ?_ hr ⟨hg, h₀⟩).2 e
  rintro s c ⟨hg, h₀⟩ hm
  refine ⟨hg.step hm, fun e => ?_⟩
  have href := hg.call_refines hm
  by_cases he : e = c.device
  · subst he
    rw [Heap.step, href.view]
    refine (Runs.reflTransGen_invariant (I := fun h => h.Sound P c.device ok ∧ I c.device h) ?_
      ((hg.sound _).call_edits (hm.view hg.linked)) ⟨hg.sound _, h₀ _⟩).2
    exact fun h h' hh hedit => ⟨hedit.sound hh.1, hI _ h h' hh.1 hh.2 hedit⟩
  · rw [Heap.step, href.others e he]
    exact h₀ e

/-! ## A driver that gives out memory in order -/

/-- The driver whose next buffer is at an address, for any size that fits. -/
def Driver.bump (buffer : Buffer) (next : ℕ) : Driver := fun n =>
  if 0 < n ∧ next + n < 2 ^ 64 then .made buffer next else .refused .outOfDeviceMemory

/-- The memory of a device ends at an address or below it. -/
def Heap.EndsBy (s : Heap) (e next : ℕ) : Prop :=
  (∀ w ∈ s.slabs, w.device = e → w.base + w.size ≤ next) ∧
    (∀ x ∈ s.live.entries, x.2.device = e → x.2.direct = true → x.2.base + x.2.size ≤ next) ∧
    ∀ a ∈ s.quarantine, a.device = e → a.direct = true → a.base + a.size ≤ next

instance (s : Heap) (e next : ℕ) : Decidable (s.EndsBy e next) :=
  inferInstanceAs (Decidable (_ ∧ _ ∧ _))

theorem Heap.EndsBy.bump_ok {next : ℕ} (h : s.EndsBy e next) (hn : 0 < next) (buffer : Buffer) :
    (Driver.bump buffer next).Ok (s.Taken e) := by
  intro n b base hmade
  unfold Driver.bump at hmade
  split at hmade
  · rename_i hn'
    cases hmade
    refine ⟨hn'.1, hn, hn'.2, ?_⟩
    rintro x hx - (⟨w, hw, he, hwx⟩ | ⟨k, a, ha, he, hd, hax⟩ | ⟨a, ha, he, hd, hax⟩)
    · have := h.1 w hw he
      omega
    · have h₁ := h.2.1 (k, a) ha he hd
      have h₂ := hax.2
      simp only at h₁
      omega
    · have h₁ := h.2.2 a ha he hd
      have h₂ := hax.2
      omega
  · cases hmade

end Grxcp.Runtime
