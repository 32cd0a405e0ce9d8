import Grxcp.Runtime.HeapCalls

/-!
# Who owns device memory

In every run in which each `grxDeviceReset` erases the last slabs, every extent and every allocation
refers to a slab that is there and is its device's, the extents of a slab partition it, and what one
device sees does not depend on the calls of the others (`allocator_ownership`). A reset that erases a
slab before others renumbers them under the indices that name them
(`allocator_ownership_after_reset`).
-/

namespace Grxcp.Runtime

/-! ## Statements -/

/-- A part of a slab: a free extent or a live allocation by its base, or an entry of the
quarantine. -/
inductive Piece
  | free (base : ℕ)
  | live (base : ℕ)
  | held (k : ℕ)

/-- The piece is of slab `i` and has the point. -/
def Heap.Holds (s : Heap) (i x : ℕ) : Piece → Prop
  | .free b => ∃ n, s.free.Has (toLex (i, b)) n ∧ b ≤ x ∧ x < b + n
  | .live b => ∃ e a, s.live.Has (toLex (e, b)) a ∧ a.direct = false ∧ a.slab = i ∧ a.Occupies x
  | .held k => ∃ a, s.quarantine[k]? = some a ∧ a.direct = false ∧ a.slab = i ∧ a.Occupies x

/-- Extents and allocations lie in slabs of their own device, and every point of a slab is of one
piece. Only the sanitizer has a quarantine. -/
structure Heap.Intact (P : Platform) (s : Heap) : Prop where
  free_slab : ∀ i b n, s.free.Has (toLex (i, b)) n →
    ∃ w, s.slabs[i]? = some w ∧ w.base ≤ b ∧ b + n ≤ w.base + w.size
  live_slab : ∀ e b a, s.live.Has (toLex (e, b)) a → a.direct = false →
    ∃ w, s.slabs[a.slab]? = some w ∧ w.device = e ∧ w.buffer = a.buffer ∧ w.base ≤ b ∧
      b + a.size ≤ w.base + w.size
  partition : ∀ i w, s.slabs[i]? = some w → ∀ x, w.base ≤ x → x < w.base + w.size →
    ∃! p, s.Holds i x p
  recycled : P.sanitize = false → s.quarantine = []

/-- The results of the calls of one device in a run. -/
def Heap.results (P : Platform) (e : ℕ) : Heap → List Call → List (Except GrxError ℕ)
  | _, [] => []
  | s, c :: cs =>
      if c.device = e then (s.call P c).2 :: (s.step P c).results P e cs
      else (s.step P c).results P e cs

/-- What the calls of one device ask. -/
def opsOf (e : ℕ) (cs : List Call) : List Op :=
  (cs.filter fun c => c.device = e).map (·.op)

/-- A run of the heap of one device. -/
def DeviceHeap.run (P : Platform) (e : ℕ) (h : DeviceHeap) (ops : List Op) : DeviceHeap :=
  ops.foldl (fun h op => (h.call P e op).1) h

/-- The results of a run of the heap of one device. -/
def DeviceHeap.results (P : Platform) (e : ℕ) : DeviceHeap → List Op → List (Except GrxError ℕ)
  | _, [] => []
  | h, op :: ops => (h.call P e op).2 :: (h.call P e op).1.results P e ops

variable {P : Platform} {ok : ℕ → Prop} {s : Heap} {e : ℕ}

/-! ## What good heaps are like -/

/-- A block of a device that has a point of one of its slabs is of that slab. -/
private theorem slab_eq (hs : (s.view e).Sound P e ok) {i : ℕ} {w : Slab}
    (hi : s.slabs[i]? = some w) (he : w.device = e) {x : ℕ} (hx : w.base ≤ x ∧ x < w.base + w.size)
    {a : Allocation} (ha : (s.view e).Owned a.toBlock) (hax : a.Occupies x) :
    a.direct = false ∧ ((∃ w', s.slabs[a.slab]? = some w' ∧ w'.device = e ∧ w'.base ≤ a.base ∧
      a.base < w'.base + w'.size) → a.slab = i) := by
  have hmem : w.region (s.free.fiber i) ∈ (s.view e).regions :=
    mem_regionsOf.mpr ⟨i, w, hi, he, rfl⟩
  have hd : a.direct = false := by
    by_contra hd
    have hd : a.direct = true := by simpa using hd
    exact (hs.owned_out _ ha hd).2.2 x hax _ hmem hx
  refine ⟨hd, ?_⟩
  rintro ⟨w', hw', he', hb⟩
  obtain ⟨r, hr, hin⟩ := hs.owned_in _ ha hd
  obtain rfl := hs.toLaid.unique hmem hr hx (hin.contains hax)
  exact slab_unique hs.apart hw' hi he' he hb hin.start

theorem Heap.Good.live_slab (hg : s.Good P ok) {b : ℕ} {a : Allocation}
    (ha : s.live.Has (toLex (e, b)) a) (hd : a.direct = false) :
    ∃ w, s.slabs[a.slab]? = some w ∧ w.device = e ∧ w.buffer = a.buffer ∧ w.base ≤ b ∧
      b + a.size ≤ w.base + w.size ∧ a.offset = b - w.base := by
  obtain ⟨hdev, rfl⟩ := hg.linked.live_key _ _ _ ha
  obtain ⟨w, hw, he, hb⟩ := hg.linked.live_slab _ _ ha hd
  have hs := hg.sound e
  have hmem : w.region (s.free.fiber a.slab) ∈ (s.view e).regions :=
    mem_regionsOf.mpr ⟨a.slab, w, hw, he.trans hdev, rfl⟩
  obtain ⟨r, hr, hin⟩ := hs.owned_in _ (hs.owned_of_live (view_live_has.mpr ⟨a, ha, rfl⟩)) hd
  obtain rfl := hs.toLaid.unique hmem hr hb hin.start
  exact ⟨w, hw, he.trans hdev, hin.buffer.symm, hb.1, hin.stop, hin.offset⟩

/-- Every point of a slab has a piece. -/
theorem Heap.Good.exists_piece (hg : s.Good P ok) {i : ℕ} {w : Slab} (hi : s.slabs[i]? = some w)
    {x : ℕ} (hx : w.base ≤ x ∧ x < w.base + w.size) : ∃ p, s.Holds i x p := by
  have hs := hg.sound w.device
  have hmem : w.region (s.free.fiber i) ∈ (s.view w.device).regions :=
    mem_regionsOf.mpr ⟨i, w, hi, rfl, rfl⟩
  rcases hs.covered _ hmem x hx with hf | ⟨a, ha, hax⟩
  · obtain ⟨b, n, hb, hbx⟩ := (hs.toLaid.freeAt_iff hmem hx).mp hf
    exact ⟨.free b, n, OrdMap.has_fiber.mp hb, hbx⟩
  · rcases ha with ha | ha
    · obtain ⟨al, hal, rfl⟩ := view_live_has.mp ha
      obtain ⟨hd, hslab⟩ := slab_eq hs hi rfl hx (.inl ha) hax
      obtain ⟨w', hw', he', -, hb, -⟩ := hg.live_slab hal hd
      have hlink := hg.linked.live_slab _ _ hal hd
      rw [(hg.linked.live_key _ _ _ hal).1] at hlink
      exact ⟨.live al.base, w.device, al, hal, hd, hslab hlink, hax⟩
    · obtain ⟨al, hal, he, rfl⟩ := mem_view_held.mp ha
      obtain ⟨hd, hslab⟩ := slab_eq hs hi rfl hx (.inr ha) hax
      obtain ⟨k, hk⟩ := List.mem_iff_getElem?.mp hal
      have hlink := hg.linked.held_slab _ hal hd
      rw [he] at hlink
      exact ⟨.held k, al, hk, hd, hslab hlink, hax⟩

/-- A piece of a slab belongs to the slab's device. -/
private theorem held_owned (hg : s.Good P ok) {i k : ℕ} {w : Slab} (hi : s.slabs[i]? = some w)
    {a : Allocation} (ha : s.quarantine[k]? = some a) (hd : a.direct = false) (hslab : a.slab = i) :
    a.device = w.device ∧ a.toBlock ∈ (s.view w.device).held := by
  have hmem := List.mem_of_getElem? ha
  obtain ⟨w', hw', he, -⟩ := hg.linked.held_slab a hmem hd
  rw [hslab, hi] at hw'
  cases hw'
  exact ⟨he.symm, mem_view_held.mpr ⟨a, hmem, he.symm, rfl⟩⟩

private theorem live_owned (hg : s.Good P ok) {i e b : ℕ} {w : Slab} (hi : s.slabs[i]? = some w)
    {a : Allocation} (ha : s.live.Has (toLex (e, b)) a) (hd : a.direct = false)
    (hslab : a.slab = i) :
    a.base = b ∧ (s.view w.device).live.Has a.base a.toBlock := by
  obtain ⟨w', hw', he, -⟩ := hg.live_slab ha hd
  rw [hslab, hi] at hw'
  cases hw'
  obtain ⟨-, rfl⟩ := hg.linked.live_key _ _ _ ha
  exact ⟨rfl, view_live_has.mpr ⟨a, he ▸ ha, rfl⟩⟩

private theorem piece_not_free (hg : s.Good P ok) {i : ℕ} {w : Slab} (hi : s.slabs[i]? = some w)
    {x b n : ℕ} (hb : s.free.Has (toLex (i, b)) n) (hbx : b ≤ x ∧ x < b + n) {a : Block}
    (ha : (s.view w.device).Owned a) : ¬a.Occupies x := by
  have hmem : w.region (s.free.fiber i) ∈ (s.view w.device).regions :=
    mem_regionsOf.mpr ⟨i, w, hi, rfl, rfl⟩
  exact fun hax => (hg.sound w.device).owned_free a x ha hax
    ⟨_, hmem, b, n, OrdMap.has_fiber.mpr hb, hbx⟩

/-- No point of a slab has two pieces. -/
theorem Heap.Good.piece_unique (hg : s.Good P ok) {i : ℕ} {w : Slab} (hi : s.slabs[i]? = some w)
    {x : ℕ} {p q : Piece} (hp : s.Holds i x p) (hq : s.Holds i x q) : p = q := by
  have hs := hg.sound w.device
  have hmem : w.region (s.free.fiber i) ∈ (s.view w.device).regions :=
    mem_regionsOf.mpr ⟨i, w, hi, rfl, rfl⟩
  cases p with
  | free b =>
    obtain ⟨n, hb, hbx⟩ := hp
    cases q with
    | free b' =>
      obtain ⟨n', hb', hbx'⟩ := hq
      have hap := hs.free_apart _ hmem
      have hb := OrdMap.has_fiber.mpr hb
      have hb' := OrdMap.has_fiber.mpr hb'
      rcases lt_trichotomy b b' with hlt | rfl | hlt
      · have := hap b n b' n' hb hb' hlt (by omega)
        omega
      · rfl
      · have := hap b' n' b n hb' hb hlt (by omega)
        omega
    | live b' =>
      obtain ⟨e, a, ha, hd, hslab, hax⟩ := hq
      exact absurd hax (piece_not_free hg hi hb hbx (.inl (live_owned hg hi ha hd hslab).2))
    | held k =>
      obtain ⟨a, ha, hd, hslab, hax⟩ := hq
      exact absurd hax (piece_not_free hg hi hb hbx (.inr (held_owned hg hi ha hd hslab).2))
  | live b =>
    obtain ⟨e, a, ha, hd, hslab, hax⟩ := hp
    obtain ⟨rfl, hlive⟩ := live_owned hg hi ha hd hslab
    cases q with
    | free b' =>
      obtain ⟨n', hb', hbx'⟩ := hq
      exact absurd hax (piece_not_free hg hi hb' hbx' (.inl hlive))
    | live b' =>
      obtain ⟨e', a', ha', hd', hslab', hax'⟩ := hq
      obtain ⟨rfl, hlive'⟩ := live_owned hg hi ha' hd' hslab'
      rw [hs.live_live _ _ x hlive hlive' hax hax']
    | held k =>
      obtain ⟨a', ha', hd', hslab', hax'⟩ := hq
      exact absurd hax' (hs.live_held _ _ x hlive (held_owned hg hi ha' hd' hslab').2 hax)
  | held k =>
    obtain ⟨a, ha, hd, hslab, hax⟩ := hp
    obtain ⟨hdev, hheld⟩ := held_owned hg hi ha hd hslab
    cases q with
    | free b' =>
      obtain ⟨n', hb', hbx'⟩ := hq
      exact absurd hax (piece_not_free hg hi hb' hbx' (.inr hheld))
    | live b' =>
      obtain ⟨e', a', ha', hd', hslab', hax'⟩ := hq
      exact absurd hax (hs.live_held _ _ x (live_owned hg hi ha' hd' hslab').2 hheld hax')
    | held k' =>
      obtain ⟨a', ha', hd', hslab', hax'⟩ := hq
      have hdev' := (held_owned hg hi ha' hd' hslab').1
      have hpw := hs.held_held
      simp only [Heap.view] at hpw
      rw [List.pairwise_map, List.pairwise_filter, List.pairwise_iff_getElem] at hpw
      obtain ⟨hkl, rfl⟩ := List.getElem?_eq_some_iff.mp ha
      obtain ⟨hkl', rfl⟩ := List.getElem?_eq_some_iff.mp ha'
      rcases lt_trichotomy k k' with hlt | rfl | hlt
      · exact absurd hax' (hpw k k' hkl hkl' hlt (by simpa using hdev) (by simpa using hdev') x hax)
      · rfl
      · exact absurd hax (hpw k' k hkl' hkl hlt (by simpa using hdev') (by simpa using hdev) x hax')

theorem Heap.Good.intact (hg : s.Good P ok)
    (hq : P.sanitize = false → ∀ e, (s.view e).held = []) : s.Intact P where
  free_slab := by
    intro i b n h
    have hi := hg.linked.free_slab i b n h
    have hmem : s.slabs[i].region (s.free.fiber i) ∈ (s.view s.slabs[i].device).regions :=
      mem_regionsOf.mpr ⟨i, _, List.getElem?_eq_getElem hi, rfl, rfl⟩
    obtain ⟨hb, hend⟩ := (hg.sound _).free_in _ hmem b n (OrdMap.has_fiber.mpr h)
    exact ⟨_, List.getElem?_eq_getElem hi, hb.1, hend⟩
  live_slab := by
    intro e b a ha hd
    obtain ⟨w, hw, he, hbuf, hb, hend, -⟩ := hg.live_slab ha hd
    exact ⟨w, hw, he, hbuf, hb, hend⟩
  partition := by
    intro i w hi x hx hx'
    obtain ⟨p, hp⟩ := hg.exists_piece hi ⟨hx, hx'⟩
    exact ⟨p, hp, fun q hq => hg.piece_unique hi hq hp⟩
  recycled := by
    intro hsan
    refine List.eq_nil_iff_forall_not_mem.mpr fun a ha => ?_
    have := mem_view_held.mpr ⟨a, ha, rfl, rfl⟩
    rw [hq hsan a.device] at this
    cases this

/-! ## Runs -/

/-- Without the sanitizer nothing is held. -/
theorem DeviceHeap.Edit.held {h h' : DeviceHeap} (hedit : DeviceHeap.Edit P e ok h h')
    (hsan : P.sanitize = false) (hh : h.held = []) : h'.held = [] := by
  cases hedit with
  | hold a live sanitize =>
    rw [hsan] at sanitize
    cases sanitize
  | clear none => simp [DeviceHeap.reset, hh]
  | _ => exact hh

/-- A device sees a run as a run of its own calls. -/
theorem Heap.Good.isolated {cs : List Call}
    (hr : Runs.Along (Heap.step P) (fun s c => c.Meets P ok s) s cs) (hg : s.Good P ok) (e : ℕ) :
    (Runs.after (Heap.step P) s cs).view e = (s.view e).run P e (opsOf e cs) ∧
      s.results P e cs = (s.view e).results P e (opsOf e cs) := by
  induction cs generalizing s with
  | nil => exact ⟨rfl, rfl⟩
  | cons c cs ih =>
    obtain ⟨hm, hr⟩ := hr
    obtain ⟨hview, hres⟩ := ih hr (hg.step hm)
    have href := hg.call_refines hm
    rw [Runs.after_cons, hview]
    by_cases he : c.device = e
    · subst he
      have hops : opsOf c.device (c :: cs) = c.op :: opsOf c.device cs := by simp [opsOf]
      rw [hops, Heap.results, if_pos rfl, hres, Heap.step, href.view, href.result]
      exact ⟨rfl, rfl⟩
    · have hops : opsOf e (c :: cs) = opsOf e cs := by simp [opsOf, he]
      rw [hops, Heap.results, if_neg he, hres, Heap.step, href.others e fun h => he h.symm]
      exact ⟨rfl, rfl⟩

/-- In a run whose resets each erase the last slabs, every heap is intact, and without one of the
resets every other device has the same results and the same memory. -/
theorem allocator_ownership (P : Platform) (cs : List Call)
    (hcs : Runs.Along (Heap.step P) (fun s c => c.Meets P (fun _ => True) s) {} cs) :
    (Runs.after (Heap.step P) {} cs).Intact P ∧
      ∀ before d sync later, cs = before ++ ⟨d, .reset sync⟩ :: later →
        Runs.Along (Heap.step P) (fun s c => c.Meets P (fun _ => True) s) {} (before ++ later) →
        ∀ e, e ≠ d →
          Heap.results P e {} cs = Heap.results P e {} (before ++ later) ∧
            (Runs.after (Heap.step P) {} cs).view e =
              (Runs.after (Heap.step P) {} (before ++ later)).view e := by
  have hg : ({} : Heap).Good P fun _ => True := Heap.Good.empty
  refine ⟨(Heap.Good.run hcs hg).intact fun hsan e => ?_, ?_⟩
  · exact Heap.Good.run_edits (I := fun _ h => h.held = [])
      (fun e h h' _ hh hedit => hedit.held hsan hh) hcs hg (fun _ => rfl) e
  · rintro before d sync later rfl hcs' e he
    obtain ⟨hview, hres⟩ := hg.isolated hcs e
    obtain ⟨hview', hres'⟩ := hg.isolated hcs' e
    have hops : opsOf e (before ++ ⟨d, .reset sync⟩ :: later) = opsOf e (before ++ later) := by
      simp [opsOf, he.symm]
    rw [hres, hview, hres', hview', hops]
    exact ⟨rfl, rfl⟩

/-! ## A run that meets the condition, and one that does not -/

/-- A request that the driver serves, if at all, with a buffer at an address. -/
def mallocAt (e size next : ℕ) : Call :=
  ⟨e, .malloc { size, driver := Driver.bump ⟨e, next⟩ next }⟩

theorem mallocAt_driver {size next : ℕ} (h : s.EndsBy e next) (hn : 0 < next) (r : Request)
    (hr : (mallocAt e size next).op.request = some r) : r.driver.Ok (s.Taken e) := by
  cases hr
  exact h.bump_ok hn _

theorem mallocAt_asks {size next n : ℕ} {d : Device}
    (h : (mallocAt e size next).op.asks d = some n) : n = size := by
  obtain ⟨-, hn⟩ := Option.ite_none_right_eq_some.mp h
  exact (Option.some.inj hn).symm

theorem mallocAt_meets {size next : ℕ} (hok : ok (need P e size)) (h : s.EndsBy e next)
    (hn : 0 < next) : (mallocAt e size next).Meets P ok s where
  driver := mallocAt_driver h hn
  size := by
    intro n hn
    rw [mallocAt_asks hn]
    exact hok
  reset := by
    intro sync h
    cases h

theorem reset_meets {sync : Option GrxError} (h : s.ResetsLast e) :
    (⟨e, .reset sync⟩ : Call).Meets P ok s where
  driver := by
    intro r hr
    cases hr
  size := by
    intro n hn
    cases hn
  reset := fun _ _ => h

theorem allocator_ownership_two_devices :
    (Runs.after (Heap.step plain) {}
        [mallocAt 0 256 4096, mallocAt 1 256 4096, ⟨1, .reset none⟩, mallocAt 0 512 (2 ^ 27)]).Intact
        plain ∧
      Heap.results plain 0 {}
          [mallocAt 0 256 4096, mallocAt 1 256 4096, ⟨1, .reset none⟩, mallocAt 0 512 (2 ^ 27)] =
        Heap.results plain 0 {}
          [mallocAt 0 256 4096, mallocAt 1 256 4096, mallocAt 0 512 (2 ^ 27)] := by
  have hcs := allocator_ownership plain
    [mallocAt 0 256 4096, mallocAt 1 256 4096, ⟨1, .reset none⟩, mallocAt 0 512 (2 ^ 27)]
    ⟨mallocAt_meets trivial (by decide +kernel) (by decide),
      mallocAt_meets trivial (by decide +kernel) (by decide),
      reset_meets ⟨by decide +kernel, by decide +kernel⟩,
      mallocAt_meets trivial (by decide +kernel) (by decide), trivial⟩
  refine ⟨hcs.1, ?_⟩
  refine (hcs.2 [mallocAt 0 256 4096, mallocAt 1 256 4096] 1 none [mallocAt 0 512 (2 ^ 27)] rfl
    ⟨mallocAt_meets trivial (by decide +kernel) (by decide),
      mallocAt_meets trivial (by decide +kernel) (by decide),
      mallocAt_meets trivial (by decide +kernel) (by decide), trivial⟩ 0 (by decide)).1

/-- After the reset of a device whose slab came first, the extent and the allocation of another
device name a slab that is not there, though the driver did nothing wrong. -/
theorem allocator_ownership_after_reset :
    Runs.Along (Heap.step plain)
        (fun s c => ∀ r, c.op.request = some r → r.driver.Ok (s.Taken c.device)) {}
        [mallocAt 0 256 4096, mallocAt 1 256 4096, ⟨0, .reset none⟩] ∧
      ¬(Runs.after (Heap.step plain) {}
          [mallocAt 0 256 4096, mallocAt 1 256 4096, ⟨0, .reset none⟩]).Intact plain := by
  refine ⟨⟨mallocAt_driver (by decide +kernel) (by decide),
    mallocAt_driver (by decide +kernel) (by decide), (by intro r hr; cases hr), trivial⟩,
    fun h => ?_⟩
  obtain ⟨w, hw, -⟩ := h.free_slab 1 4352 (2 ^ 26 - 256) (by decide +kernel)
  have hnone : (Runs.after (Heap.step plain) {}
      [mallocAt 0 256 4096, mallocAt 1 256 4096, ⟨0, .reset none⟩]).slabs[1]? = none := by
    decide +kernel
  rw [hnone] at hw
  cases hw

end Grxcp.Runtime
