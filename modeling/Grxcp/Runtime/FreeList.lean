import Grxcp.Runtime.SizeLaw

/-!
# The free list is canonical

Without the sanitizer, and where no request is for no bytes, the free extents of a slab are what its
live allocations leave, in the one way to write it: no two touch (`Heap.Canonical`). So the free list
is a function of the slabs and the live allocations, whatever the order of the calls that led there
(`free_list_canonical`). A managed allocation of no bytes leaves an empty extent when it is freed
after its neighbour (`free_list_empty_extent`).
-/

namespace Grxcp.Runtime

/-! ## Statements -/

/-- A call of the kind the law is about: an allocation of some bytes, fewer than 2^63, or a free, with
a driver that gives out memory that is not taken. -/
structure Call.Sized (P : Platform) (s : Heap) (c : Call) : Prop where
  driver : ∀ r, c.op.request = some r → r.driver.Ok (s.Taken c.device)
  size : ∀ n, c.op.asks (P.device c.device) = some n → 0 < n ∧ n < 2 ^ 63
  noReset : ∀ sync, c.op ≠ .reset sync

/-- The free extents of each slab are disjoint, none is empty, no two touch, and they are what the
live allocations of the slab leave of it; all of it, if there are none. -/
structure Heap.Canonical (s : Heap) : Prop where
  apart : ∀ i b n, s.free.Has (toLex (i, b)) n → 0 < n ∧
    ∀ b' n', s.free.Has (toLex (i, b')) n' → b < b' → b + n < b'
  covers : ∀ i w, s.slabs[i]? = some w → ∀ x, Extents.Covers (s.free.fiber i) x ↔
    (w.base ≤ x ∧ x < w.base + w.size) ∧
      ¬∃ k a, s.live.Has k a ∧ a.direct = false ∧ a.slab = i ∧ a.Occupies x
  inside : ∀ k a, s.live.Has k a → a.direct = false →
    ∃ w, s.slabs[a.slab]? = some w ∧ w.base ≤ a.base ∧ a.base + a.size ≤ w.base + w.size
  disjoint : ∀ k a k' a' x, s.live.Has k a → s.live.Has k' a' → a.direct = false →
    a'.direct = false → a.slab = a'.slab → a.Occupies x → a'.Occupies x → k = k'
  whole : ∀ i w, s.slabs[i]? = some w →
    (∀ k a, s.live.Has k a → a.direct = false → a.slab ≠ i) →
      s.free.fiber i = Extents.single w.base w.size

/-- The calls that free some addresses, in order. -/
def freeAll (e : ℕ) (addresses : List ℕ) : List Call :=
  addresses.map fun p => ⟨e, .free p⟩

variable {P : Platform} {s s' : Heap} {e : ℕ}

theorem Call.Sized.meets (hsan : P.sanitize = false) {c : Call} (hc : c.Sized P s) :
    c.Meets P (0 < ·) s where
  driver := hc.driver
  size := by
    intro n hn
    obtain ⟨hpos, hlt⟩ := hc.size n hn
    have hred : sanitizeRedzoneBytes P = 0 := by simp [sanitizeRedzoneBytes, hsan]
    have halign := alignmentFor_bounds (P.device c.device)
    have hun : Unwrapped P c.device n := by
      unfold Unwrapped
      omega
    have := hun.need.1
    omega
  reset := fun sync h => absurd h (hc.noReset sync)

/-! ## Every edit keeps the extents canonical -/

/-- The free extents of every region are canonical. -/
def DeviceHeap.Neat (h : DeviceHeap) : Prop :=
  ∀ r ∈ h.regions, r.free.Canonical

namespace DeviceHeap

variable {h h' : DeviceHeap}

theorem Neat.edit (hn : h.Neat) {x : ℕ} {f : Extents → Extents}
    (hf : ∀ r ∈ h.regions, r.Contains x → (f r.free).Canonical) : (h.edit x f).Neat := by
  intro r' hr'
  obtain ⟨r, hr, rfl⟩ := mem_edit.mp hr'
  by_cases hx : r.Contains x
  · rw [Region.edit_free_of_contains f hx]
    exact hf r hr hx
  · rw [Region.edit_of_not_contains f hx]
    exact hn r hr

theorem Edit.neat (hs : h.Sound P e (0 < ·)) (hn : h.Neat) (hedit : Edit P e (0 < ·) h h') :
    h'.Neat := by
  cases hedit with
  | grow r proper whole fresh =>
    intro r' hr'
    rcases List.mem_append.mp hr' with hr' | hr'
    · exact hn r' hr'
    · rw [List.mem_singleton.mp hr', whole]
      exact Extents.canonical_single proper.size
  | cut r n a mem has fits isOk place indirect owner =>
    refine Neat.edit hn fun q hq hqa => ?_
    obtain rfl := hs.toLaid.unique mem hq place.start hqa
    exact Extents.canonical_carve (hn r mem) has
  | direct a isOk alone isDirect owner gpu fresh => exact hn
  | giveBack a live indirect recycles =>
    refine Neat.edit hn fun q hq hqa => ?_
    refine Extents.canonical_give (hn q hq) (hs.live_key _ _ live).2.2 fun x hx hx' hc => ?_
    exact hs.owned_free a x (.inl live) ⟨hx, hx'⟩ ⟨q, hq, hc⟩
  | release a live isDirect recycles => exact hn
  | hold a live sanitize => exact hn
  | clear none =>
    intro r hr
    obtain ⟨q, hq, -⟩ := List.mem_map.mp hr
    obtain ⟨hq, hnpu⟩ := List.mem_filter.mp hq
    rw [none q hq] at hnpu
    cases hnpu

end DeviceHeap

/-! ## What the free extents cover -/

/-- Where nothing is quarantined, a point of a slab is free or in a live allocation of the slab. -/
theorem Heap.Good.covers_iff (hg : s.Good P (0 < ·)) (hq : s.quarantine = []) {i : ℕ} {w : Slab}
    (hi : s.slabs[i]? = some w) (x : ℕ) : Extents.Covers (s.free.fiber i) x ↔
      (w.base ≤ x ∧ x < w.base + w.size) ∧
        ¬∃ k a, s.live.Has k a ∧ a.direct = false ∧ a.slab = i ∧ a.Occupies x := by
  have hmem : w.region (s.free.fiber i) ∈ (s.view w.device).regions :=
    mem_regionsOf.mpr ⟨i, w, hi, rfl, rfl⟩
  constructor
  · intro hc
    refine ⟨(hg.sound w.device).toLaid.contains_of_covers hmem hc, ?_⟩
    rintro ⟨k, a, ha, hd, hslab, hax⟩
    obtain ⟨b, n, hb, hbx⟩ := hc
    have hfree : s.Holds i x (.free b) := ⟨n, OrdMap.has_fiber.mp hb, hbx⟩
    have hlive : s.Holds i x (.live (ofLex k).2) := ⟨(ofLex k).1, a, ha, hd, hslab, hax⟩
    cases hg.piece_unique hi hfree hlive
  · rintro ⟨hx, hnone⟩
    obtain ⟨p, hp⟩ := hg.exists_piece hi hx
    cases p with
    | free b =>
      obtain ⟨n, hb, hbx⟩ := hp
      exact ⟨b, n, OrdMap.has_fiber.mpr hb, hbx⟩
    | live b =>
      obtain ⟨e, a, ha, hd, hslab, hax⟩ := hp
      exact absurd ⟨_, a, ha, hd, hslab, hax⟩ hnone
    | held k =>
      obtain ⟨a, ha, -⟩ := hp
      rw [hq] at ha
      cases ha

theorem Heap.Good.canonical (hg : s.Good P (0 < ·)) (hq : s.quarantine = [])
    (hn : ∀ e, (s.view e).Neat) : s.Canonical where
  apart := by
    intro i b n hb
    have hi := hg.linked.free_slab i b n hb
    have hmem : s.slabs[i].region (s.free.fiber i) ∈ (s.view s.slabs[i].device).regions :=
      mem_regionsOf.mpr ⟨i, _, List.getElem?_eq_getElem hi, rfl, rfl⟩
    obtain ⟨hpos, hnext⟩ := hn _ _ hmem b n (OrdMap.has_fiber.mpr hb)
    exact ⟨hpos, fun b' n' hb' => hnext b' n' (OrdMap.has_fiber.mpr hb')⟩
  covers := fun i w hi => hg.covers_iff hq hi
  inside := by
    intro k a ha hd
    have hk : k = toLex ((ofLex k).1, (ofLex k).2) := rfl
    rw [hk] at ha
    obtain ⟨w, hw, -, -, hb, hend, -⟩ := hg.live_slab ha hd
    obtain ⟨-, hbase⟩ := hg.linked.live_key _ _ _ ha
    rw [← hbase] at hb hend
    exact ⟨w, hw, hb, hend⟩
  disjoint := by
    intro k a k' a' x ha ha' hd hd' hslab hax hax'
    have hk : k = toLex ((ofLex k).1, (ofLex k).2) := rfl
    have hk' : k' = toLex ((ofLex k').1, (ofLex k').2) := rfl
    rw [hk] at ha ⊢
    rw [hk'] at ha' ⊢
    obtain ⟨w, hw, he, -⟩ := hg.live_slab ha hd
    obtain ⟨w', hw', he', -⟩ := hg.live_slab ha' hd'
    have hp := hg.piece_unique hw (p := .live (ofLex k).2) (q := .live (ofLex k').2)
      ⟨_, a, ha, hd, rfl, hax⟩ ⟨_, a', ha', hd', hslab.symm, hax'⟩
    rw [hslab, hw'] at hw
    cases hw
    rw [← he, ← he', Piece.live.inj hp]
  whole := by
    intro i w hi hnone
    have hmem : w.region (s.free.fiber i) ∈ (s.view w.device).regions :=
      mem_regionsOf.mpr ⟨i, w, hi, rfl, rfl⟩
    have hpos := ((hg.sound w.device).proper _ hmem).size
    refine (hn _ _ hmem).ext (Extents.canonical_single hpos) fun x => ?_
    rw [Extents.covers_single]
    refine (hg.covers_iff hq hi x).trans (and_iff_left ?_)
    rintro ⟨k, a, ha, hd, hslab, -⟩
    exact hnone k a ha hd hslab

/-- The free list is determined by the slabs and the live allocations. -/
theorem Heap.Good.free_eq (hg : s.Good P (0 < ·)) (hg' : s'.Good P (0 < ·))
    (hq : s.quarantine = []) (hq' : s'.quarantine = []) (hn : ∀ e, (s.view e).Neat)
    (hn' : ∀ e, (s'.view e).Neat) (hslabs : s'.slabs = s.slabs) (hlive : s'.live = s.live) :
    s'.free = s.free := by
  have hfiber : ∀ i, s'.free.fiber i = s.free.fiber i := by
    intro i
    rcases hi : s.slabs[i]? with _ | w
    · have hlen := List.getElem?_eq_none_iff.mp hi
      refine OrdMap.ext fun b n => ?_
      rw [OrdMap.has_fiber, OrdMap.has_fiber]
      constructor
      · intro h
        have := hg'.linked.free_slab i b n h
        rw [hslabs] at this
        omega
      · intro h
        have := hg.linked.free_slab i b n h
        omega
    · have hi' : s'.slabs[i]? = some w := by rw [hslabs, hi]
      have hmem : w.region (s.free.fiber i) ∈ (s.view w.device).regions :=
        mem_regionsOf.mpr ⟨i, w, hi, rfl, rfl⟩
      have hmem' : w.region (s'.free.fiber i) ∈ (s'.view w.device).regions :=
        mem_regionsOf.mpr ⟨i, w, hi', rfl, rfl⟩
      refine (hn' _ _ hmem').ext (hn _ _ hmem) fun x => ?_
      exact (hg'.covers_iff hq' hi' x).trans (by rw [hlive]; exact (hg.covers_iff hq hi x).symm)
  refine OrdMap.ext fun k n => ?_
  have hk : k = toLex ((ofLex k).1, (ofLex k).2) := rfl
  rw [hk, ← OrdMap.has_fiber, ← OrdMap.has_fiber, hfiber]

/-! ## Runs -/

/-- What holds of every heap that such a run reaches. -/
theorem sized_run (hsan : P.sanitize = false) {cs : List Call}
    (hcs : Runs.Along (Heap.step P) (fun s c => c.Sized P s) {} cs) :
    (Runs.after (Heap.step P) {} cs).Good P (0 < ·) ∧
      (Runs.after (Heap.step P) {} cs).quarantine = [] ∧
      ∀ e, ((Runs.after (Heap.step P) {} cs).view e).Neat := by
  have hm := hcs.mono fun _ _ => Call.Sized.meets hsan
  have hg : ({} : Heap).Good P (0 < ·) := Heap.Good.empty
  have hgood := Heap.Good.run hm hg
  refine ⟨hgood, ?_, ?_⟩
  · refine (hgood.intact fun hsan e => ?_).recycled hsan
    exact Heap.Good.run_edits (I := fun _ h => h.held = [])
      (fun e h h' _ hh hedit => hedit.held hsan hh) hm hg (fun _ => rfl) e
  · refine Heap.Good.run_edits (I := fun _ h => h.Neat)
      (fun e h h' hs hn hedit => DeviceHeap.Edit.neat hs hn hedit) hm hg fun e r hr => ?_
    cases hr

theorem freeAll_sized (addresses : List ℕ) (s : Heap) :
    Runs.Along (Heap.step P) (fun s c => c.Sized P s) s (freeAll e addresses) := by
  induction addresses generalizing s with
  | nil => trivial
  | cons p ps ih =>
    refine ⟨⟨?_, ?_, ?_⟩, ih _⟩
    · intro r hr
      cases hr
    · intro n hn
      cases hn
    · intro sync h
      cases h

/-- What a free changes besides the free list. -/
theorem step_free (hsan : P.sanitize = false) (p : ℕ) :
    (s.step P ⟨e, .free p⟩).slabs = s.slabs ∧
      (s.step P ⟨e, .free p⟩).live =
        if p = 0 then s.live else s.live.erase (toLex (e, p)) := by
  have hnone : s.live.find? (toLex (e, p)) = none → s.live.erase (toLex (e, p)) = s.live := by
    intro h
    refine OrdMap.ext fun k a => ?_
    rw [OrdMap.has_erase]
    refine and_iff_left_of_imp fun ha hk => ?_
    exact OrdMap.find?_eq_none_iff.mp h a (hk ▸ ha)
  simp only [Heap.step, Heap.call, grxFree]
  by_cases hp : p = 0
  · simp [hp]
  · simp only [hp, if_false]
    rcases hf : s.live.find? (toLex (e, p)) with _ | a
    · exact ⟨rfl, (hnone hf).symm⟩
    · simp only [hsan, Bool.false_eq_true, if_false]
      split <;> exact ⟨rfl, rfl⟩

theorem after_freeAll (hsan : P.sanitize = false) (addresses : List ℕ) (s : Heap) :
    (Runs.after (Heap.step P) s (freeAll e addresses)).slabs = s.slabs ∧
      ∀ k a, (Runs.after (Heap.step P) s (freeAll e addresses)).live.Has k a ↔
        s.live.Has k a ∧ ∀ p ∈ addresses, p ≠ 0 → k ≠ toLex (e, p) := by
  induction addresses generalizing s with
  | nil => exact ⟨rfl, fun k a => by simp [freeAll]⟩
  | cons p ps ih =>
    obtain ⟨hslabs, hlive⟩ := step_free (P := P) (s := s) (e := e) hsan p
    obtain ⟨hslabs', hlive'⟩ := ih (s.step P ⟨e, .free p⟩)
    refine ⟨hslabs'.trans hslabs, fun k a => (hlive' k a).trans ?_⟩
    rw [hlive, List.forall_mem_cons]
    by_cases hp : p = 0
    · simp [hp]
    · simp [hp, and_assoc]

/-- After every run of allocations of some bytes and frees, the free list is canonical, it is the same
as after any other such run that leaves the same slabs and allocations, and the order in which
allocations are freed does not matter. -/
theorem free_list_canonical (P : Platform) (hsan : P.sanitize = false) (cs : List Call)
    (hcs : Runs.Along (Heap.step P) (fun s c => c.Sized P s) {} cs) :
    (Runs.after (Heap.step P) {} cs).Canonical ∧
      (∀ cs', Runs.Along (Heap.step P) (fun s c => c.Sized P s) {} cs' →
        (Runs.after (Heap.step P) {} cs').slabs = (Runs.after (Heap.step P) {} cs).slabs →
        (Runs.after (Heap.step P) {} cs').live = (Runs.after (Heap.step P) {} cs).live →
        (Runs.after (Heap.step P) {} cs').free = (Runs.after (Heap.step P) {} cs).free) ∧
      ∀ e ps ps', List.Perm ps ps' →
        (Runs.after (Heap.step P) {} (cs ++ freeAll e ps)).free =
          (Runs.after (Heap.step P) {} (cs ++ freeAll e ps')).free := by
  obtain ⟨hg, hq, hn⟩ := sized_run hsan hcs
  refine ⟨hg.canonical hq hn, fun cs' hcs' hslabs hlive => ?_, fun e ps ps' hperm => ?_⟩
  · obtain ⟨hg', hq', hn'⟩ := sized_run hsan hcs'
    exact hg.free_eq hg' hq hq' hn hn' hslabs hlive
  · have hcs₁ := (Runs.along_append _ _ _).mpr ⟨hcs, freeAll_sized (e := e) ps _⟩
    have hcs₂ := (Runs.along_append _ _ _).mpr ⟨hcs, freeAll_sized (e := e) ps' _⟩
    obtain ⟨hg₁, hq₁, hn₁⟩ := sized_run hsan hcs₁
    obtain ⟨hg₂, hq₂, hn₂⟩ := sized_run hsan hcs₂
    refine hg₂.free_eq hg₁ hq₂ hq₁ hn₂ hn₁ ?_ ?_
    · rw [Runs.after_append, Runs.after_append, (after_freeAll hsan ps _).1,
        (after_freeAll hsan ps' _).1]
    · refine OrdMap.ext fun k a => ?_
      rw [Runs.after_append, Runs.after_append, (after_freeAll hsan ps _).2,
        (after_freeAll hsan ps' _).2]
      refine and_congr_right fun _ => ?_
      exact ⟨fun h p hp => h p (hperm.mem_iff.mpr hp), fun h p hp => h p (hperm.mem_iff.mp hp)⟩

/-! ## A run that meets the condition, and an empty extent -/

theorem mallocAt_sized {size next : ℕ} (h : s.EndsBy e next) (hn : 0 < next) (hsize : 0 < size)
    (hlt : size < 2 ^ 63) : (mallocAt e size next).Sized P s where
  driver := mallocAt_driver h hn
  size := by
    intro n hn
    rw [mallocAt_asks hn]
    exact ⟨hsize, hlt⟩
  noReset := by
    intro sync h
    cases h

theorem free_list_canonical_two_blocks :
    (Runs.after (Heap.step plain) {} ([mallocAt 0 100 4096, mallocAt 0 256 (2 ^ 27)] ++
        freeAll 0 [4096, 4352])).free =
      (Runs.after (Heap.step plain) {} ([mallocAt 0 100 4096, mallocAt 0 256 (2 ^ 27)] ++
        freeAll 0 [4352, 4096])).free :=
  (free_list_canonical plain rfl [mallocAt 0 100 4096, mallocAt 0 256 (2 ^ 27)]
    ⟨mallocAt_sized (by decide) (by decide) (by decide) (by decide),
      mallocAt_sized (by decide +kernel) (by decide) (by decide) (by decide), trivial⟩).2.2 0 _ _
    (List.Perm.swap 4352 4096 [])

/-- Devices with managed memory. -/
def managed : Platform where
  device := fun _ => { managedMemory := true }

/-- A block, and a managed allocation of no bytes above it. -/
def blockAndEmpty : List Call :=
  [mallocAt 0 256 4096, ⟨0, .mallocManaged { size := 0, driver := Driver.bump ⟨0, 1⟩ (2 ^ 27) }⟩]

/-- The free list of a slab with nothing in it has an empty extent, and freeing in the other order
leaves none. -/
theorem free_list_empty_extent :
    Runs.Along (Heap.step managed)
        (fun s c => ∀ r, c.op.request = some r → r.driver.Ok (s.Taken c.device)) {}
        (blockAndEmpty ++ freeAll 0 [4096, 4352]) ∧
      ¬(Runs.after (Heap.step managed) {} (blockAndEmpty ++ freeAll 0 [4096, 4352])).Canonical ∧
      (Runs.after (Heap.step managed) {} (blockAndEmpty ++ freeAll 0 [4096, 4352])).free ≠
        (Runs.after (Heap.step managed) {} (blockAndEmpty ++ freeAll 0 [4352, 4096])).free := by
  refine ⟨⟨mallocAt_driver (by decide) (by decide), ?_, ?_, ?_, trivial⟩, fun h => ?_, fun h => ?_⟩
  · intro r hr
    cases hr
    exact Heap.EndsBy.bump_ok (by decide +kernel) (by decide) _
  · intro r hr
    cases hr
  · intro r hr
    cases hr
  · -- nothing is live, but the slab's extents are not the one whole extent
    have hempty : ∀ x ∈ (Runs.after (Heap.step managed) {}
        (blockAndEmpty ++ freeAll 0 [4096, 4352])).live.entries, False := by
      decide +kernel
    have hwhole := h.whole 0 { buffer := some ⟨0, 4096⟩, base := 4096, size := 2 ^ 26 }
      (by decide +kernel) fun k a ha => (hempty _ ha).elim
    have hextent : (OrdMap.fiber (Runs.after (Heap.step managed) {}
        (blockAndEmpty ++ freeAll 0 [4096, 4352])).free 0).Has 4352 0 := by
      decide +kernel
    rw [hwhole] at hextent
    exact absurd hextent (by decide)
  · have hentries := congrArg OrdMap.entries h
    exact absurd hentries (by decide +kernel)

end Grxcp.Runtime
