import Grxcp.Device.AccessCheck
import Grxcp.Lib.Runs
import Grxcp.Runtime.Ownership
import Grxcp.Runtime.SanitizeMap
import Grxcp.Runtime.SizeLaw

/-!
# Isolation of the sanitizer's map

The map is keyed by base address only, a reset of any device clears it, and its dirty flag does not tell
which device it was uploaded to. The table that a kernel of a device is armed with is exactly what the
device has (`Isolated`) in the runs in which a launch or a reset finds no extents of another device, a
launch after an upload to another device finds the map changed since, and the table does not overflow
(`arms_isolated`). The induction carries `Tracks`: whenever one device alone has extents, the map has
these.
-/

namespace Grxcp.Runtime

open Grxcp.Device (SanExtent SanRegion SanState GRX_SAN_EXTENT_LIVE GRX_SAN_EXTENT_FREED GRX_SAN_ABI_VERSION)

/-! ## Device memory -/

namespace DeviceHeap

variable {P : Platform} {e : ℕ} {ok : ℕ → Prop} {h h' : DeviceHeap}

theorem take_held {bytes align base : ℕ} (ht : h.take bytes align = some (base, h')) : h'.held = h.held := by
  obtain ⟨r, -, n, -, -, -, rfl⟩ := take_some ht
  rfl

theorem allocateNpu_held (need : ℕ) (managed : Bool) : (h.allocateNpu P e need managed).1.held = h.held := by
  unfold DeviceHeap.allocateNpu
  rcases hw : h.window P e with x | h₁
  · rfl
  have hwindow : h₁.held = h.held := by
    unfold DeviceHeap.window at hw
    dsimp only at hw
    split_ifs at hw
    · cases hw
      rfl
    · cases hw
      rfl
  rcases ht : h₁.take need (alignmentFor (P.device e)) with _ | ⟨base, h₂⟩
  · simp only [ht]
    exact hwindow
  · simp only [ht]
    exact (take_held ht).trans hwindow

theorem allocateDirect_held (need : ℕ) (managed physical : Bool) (drv : Driver) :
    (h.allocateDirect e need managed physical drv).1.held = h.held := by
  unfold DeviceHeap.allocateDirect
  split
  · rfl
  · rfl

theorem allocateSlab_held (need : ℕ) (managed : Bool) (drv : Driver) :
    (h.allocateSlab P e need managed drv).1.held = h.held := by
  unfold DeviceHeap.allocateSlab
  dsimp only
  split
  · next base h₁ ht =>
    show h₁.held = h.held
    exact take_held ht
  · split
    · rfl
    · split
      · next base h₁ ht =>
        show h₁.held = h.held
        rw [take_held ht]
        rfl
      · rfl

theorem allocate_held (need : ℕ) (managed physical : Bool) (drv : Driver) :
    (h.allocate P e need managed physical drv).1.held = h.held := by
  unfold DeviceHeap.allocate
  split
  · rfl
  · exact allocateNpu_held need managed
  · split
    · exact allocateDirect_held need managed physical drv
    · exact allocateSlab_held need managed drv

/-- An allocating call leaves the quarantine alone. -/
theorem call_held {op : Op} {r : Request} (hr : op.request = some r) : (h.call P e op).1.held = h.held := by
  cases op with
  | malloc r =>
    simp only [DeviceHeap.call]
    repeat' split
    all_goals first | rfl | exact allocate_held _ _ _ _
  | mallocPhysical r =>
    simp only [DeviceHeap.call]
    repeat' split
    all_goals first | rfl | exact allocate_held _ _ _ _
  | mallocManaged r =>
    simp only [DeviceHeap.call]
    repeat' split
    all_goals first | rfl | exact allocate_held _ _ _ _
  | free address => cases hr
  | reset sync => cases hr

/-- A call that asks for bytes is an allocation. -/
theorem Sound.call_asks (hs : h.Sound P e ok) {op : Op} (hm : Meets P e ok h op) {n : ℕ}
    (hask : op.asks (P.device e) = some n) :
    ∃ managed physical drv, AllocateSpec P e ok h (need P e n) managed physical drv (h.call P e op) := by
  have hok := hm.size n hask
  cases op with
  | malloc r =>
    obtain ⟨hcond, rfl⟩ : _ ∧ r.size = n := by
      simpa only [Op.asks, Option.ite_none_right_eq_some, Option.some.injEq] using hask
    simp only [Request.reaches, Bool.and_eq_true, Option.isNone_iff_eq_none, decide_eq_true_eq] at hcond
    obtain ⟨⟨⟨hout, hacq⟩, -⟩, hsize⟩ := hcond
    refine ⟨false, false, r.driver, ?_⟩
    simp only [DeviceHeap.call, hout, hacq, Bool.true_eq_false, if_false, hsize]
    exact hs.allocate false false hok (hm.driver r rfl)
  | mallocPhysical r =>
    obtain ⟨hcond, rfl⟩ : _ ∧ r.size = n := by
      simpa only [Op.asks, Option.ite_none_right_eq_some, Option.some.injEq] using hask
    simp only [Request.reaches, Bool.and_eq_true, Option.isNone_iff_eq_none, decide_eq_true_eq] at hcond
    obtain ⟨⟨⟨hout, hacq⟩, -⟩, hsize⟩ := hcond
    refine ⟨false, true, r.driver, ?_⟩
    simp only [DeviceHeap.call, hout, hacq, Bool.true_eq_false, if_false, hsize]
    exact hs.allocate false true hok (hm.driver r rfl)
  | mallocManaged r =>
    obtain ⟨hcond, rfl⟩ : _ ∧ r.size = n := by
      simpa only [Op.asks, Option.ite_none_right_eq_some, Option.some.injEq] using hask
    simp only [Request.reaches, Bool.and_eq_true, Option.isNone_iff_eq_none, decide_eq_true_eq] at hcond
    obtain ⟨⟨⟨hout, hacq⟩, -⟩, hmanaged⟩ := hcond
    refine ⟨true, false, r.driver, ?_⟩
    simp only [DeviceHeap.call, hout, hacq, Bool.true_eq_false, if_false, hmanaged]
    exact hs.allocate true false hok (hm.driver r rfl)
  | free address => cases hask
  | reset sync => cases hask

/-- A call that asks for none leaves the device alone. -/
theorem call_asks_none {op : Op} {r : Request} (hr : op.request = some r) (hask : op.asks (P.device e) = none) :
    (h.call P e op).1 = h := by
  by_cases hpta : (P.device e).type = .pta
  · cases op with
    | malloc r =>
      simp only [DeviceHeap.call, allocate_pta hpta]
      repeat' split
      all_goals rfl
    | mallocPhysical r =>
      simp only [DeviceHeap.call, allocate_pta hpta]
      repeat' split
      all_goals rfl
    | mallocManaged r =>
      simp only [DeviceHeap.call, allocate_pta hpta]
      repeat' split
      all_goals rfl
    | free address => cases hr
    | reset sync => cases hr
  · have hreaches : ∀ r : Request, r.out = true → r.acquire = none → r.reaches (P.device e) = true := by
      intro r hout hacq
      simp [Request.reaches, hout, hacq, hpta]
    cases op with
    | malloc r =>
      simp only [DeviceHeap.call]
      split
      · rfl
      · next hout =>
        split
        · rfl
        · next hsize =>
          split
          · rfl
          · next hacq => simp [Op.asks, hreaches r (by simpa using hout) hacq, hsize] at hask
    | mallocPhysical r =>
      simp only [DeviceHeap.call]
      split
      · rfl
      · next hout =>
        split
        · rfl
        · next hsize =>
          split
          · rfl
          · next hacq => simp [Op.asks, hreaches r (by simpa using hout) hacq, hsize] at hask
    | mallocManaged r =>
      simp only [DeviceHeap.call]
      split
      · rfl
      · next hout =>
        split
        · rfl
        · next hacq =>
          split
          · rfl
          · next hmanaged => simp [Op.asks, hreaches r (by simpa using hout) hacq, hmanaged] at hask
    | free address => cases hr
    | reset sync => cases hr

/-- An allocation that is refused leaves the live blocks alone. -/
theorem Refused.live {need : ℕ} {drv : Driver} (hr : Refused P e h need drv h') : h'.live = h.live := by
  cases hr with
  | same => rfl
  | window h₁ npu hw =>
    unfold DeviceHeap.window at hw
    dsimp only at hw
    split_ifs at hw
    · cases hw
      rfl
    · cases hw
      rfl
  | slab r buffer whole made fits none => rfl

end DeviceHeap

/-! ## Extents and blocks -/

/-- The extent is that of a block: as many bytes as were asked for, live or in quarantine as the block is. -/
structure Extends (h : DeviceHeap) (t : SanExtent) (a : Block) : Prop where
  base : t.base.toNat = a.base
  fits : t.size.toNat + kRedzone ≤ a.size
  state : t.state = GRX_SAN_EXTENT_LIVE ∧ h.live.Has a.base a ∨ t.state = GRX_SAN_EXTENT_FREED ∧ a ∈ h.held

/-- The extents of a device are its live blocks and blocks of its quarantine. -/
structure Matches (h : DeviceHeap) (l : OrdMap ℕ SanExtent) : Prop where
  block : ∀ b t, l.Has b t → ∃ a, a.base = b ∧ Extends h t a
  live : ∀ b a, h.live.Has b a → ∃ t, l.Has b t ∧ t.state = GRX_SAN_EXTENT_LIVE

namespace Matches

variable {P : Platform} {e : ℕ} {ok : ℕ → Prop} {h h' : DeviceHeap} {l : OrdMap ℕ SanExtent}

theorem empty (hlive : h.live = .empty) : Matches h .empty where
  block := by
    intro b t ht
    cases ht
  live := by
    intro b a ha
    rw [hlive] at ha
    cases ha

theorem congr (hm : Matches h l) (hlive : h'.live = h.live) (hheld : h'.held = h.held) : Matches h' l where
  block := by
    intro b t ht
    obtain ⟨a, hb, hbase, hfits, hstate⟩ := hm.block b t ht
    exact ⟨a, hb, hbase, hfits, by rwa [hlive, hheld]⟩
  live := by
    rw [hlive]
    exact hm.live

/-- A new block. -/
theorem alloc (hm : Matches h l) {a : Block} {t : SanExtent} (hlive : h'.live = h.live.insert a.base a)
    (hheld : h'.held = h.held) (hbase : t.base.toNat = a.base) (hfits : t.size.toNat + kRedzone ≤ a.size)
    (hstate : t.state = GRX_SAN_EXTENT_LIVE) : Matches h' (l.insert a.base t) where
  block := by
    intro b t' ht'
    rcases OrdMap.has_insert.mp ht' with ⟨rfl, rfl⟩ | ⟨hne, ht'⟩
    · refine ⟨a, rfl, hbase, hfits, .inl ⟨hstate, ?_⟩⟩
      rw [hlive]
      exact OrdMap.has_insert.mpr (.inl ⟨rfl, rfl⟩)
    · obtain ⟨c, rfl, hc⟩ := hm.block b t' ht'
      refine ⟨c, rfl, hc.base, hc.fits, hc.state.imp (And.imp_right fun hlivec => ?_) (And.imp_right fun hheldc => ?_)⟩
      · rw [hlive]
        exact OrdMap.has_insert.mpr (.inr ⟨hne, hlivec⟩)
      · rwa [hheld]
  live := by
    intro b c hc
    rw [hlive] at hc
    rcases OrdMap.has_insert.mp hc with ⟨rfl, rfl⟩ | ⟨hne, hc⟩
    · exact ⟨t, OrdMap.has_insert.mpr (.inl ⟨rfl, rfl⟩), hstate⟩
    · obtain ⟨t', ht', hstate'⟩ := hm.live b c hc
      exact ⟨t', OrdMap.has_insert.mpr (.inr ⟨hne, ht'⟩), hstate'⟩

/-- A block that goes to the quarantine. -/
theorem hold (hm : Matches h l) {a : Block} {t : SanExtent} (ha : h.live.Has a.base a) (ht : l.Has a.base t)
    (hlive : t.state = GRX_SAN_EXTENT_LIVE) :
    Matches { h.drop a with held := a :: h.held } (l.insert a.base { t with state := GRX_SAN_EXTENT_FREED }) where
  block := by
    intro b t' ht'
    rcases OrdMap.has_insert.mp ht' with ⟨rfl, rfl⟩ | ⟨hne, ht'⟩
    · obtain ⟨c, hc, hextends⟩ := hm.block _ t ht
      -- the extent is live, so its block is the one that is freed
      rcases hextends.state with ⟨-, hclive⟩ | ⟨hfreed, -⟩
      · rw [hc] at hclive
        obtain rfl := hclive.unique ha
        exact ⟨c, rfl, hextends.base, hextends.fits, .inr ⟨rfl, List.mem_cons_self⟩⟩
      · rw [hlive] at hfreed
        cases hfreed
    · obtain ⟨c, rfl, hc⟩ := hm.block b t' ht'
      refine ⟨c, rfl, hc.base, hc.fits, hc.state.imp (And.imp_right fun hlivec => ?_) (And.imp_right fun hheldc => ?_)⟩
      · exact OrdMap.has_erase.mpr ⟨hlivec, hne⟩
      · exact List.mem_cons_of_mem _ hheldc
  live := by
    intro b c hc
    obtain ⟨hc, hne⟩ := OrdMap.has_erase.mp hc
    obtain ⟨t', ht', hstate'⟩ := hm.live b c hc
    exact ⟨t', OrdMap.has_insert.mpr (.inr ⟨hne, ht'⟩), hstate'⟩

theorem owned (hs : h.Sound P e ok) {t : SanExtent} {a : Block} (ht : Extends h t a) : h.Owned a := by
  rcases ht.state with ⟨-, hlive⟩ | ⟨-, hheld⟩
  · exact hs.owned_of_live hlive
  · exact .inr hheld

/-- Extents in order of their bases do not overlap. -/
theorem apart (hm : Matches h l) (hs : h.Sound P e ok) {b b' : ℕ} {t t' : SanExtent} (ht : l.Has b t)
    (ht' : l.Has b' t') (hlt : b < b') : t.limit ≤ t'.base.toNat := by
  obtain ⟨a, rfl, ha⟩ := hm.block b t ht
  obtain ⟨a', rfl, ha'⟩ := hm.block b' t' ht'
  have hred : kRedzone = 256 := rfl
  have hfits := ha.fits
  have hfits' := ha'.fits
  have hapart := hs.owned_apart (owned hs ha) (owned hs ha') hlt (by omega)
  unfold SanExtent.limit
  rw [ha.base, ha'.base]
  omega

end Matches

/-! ## Tables -/

/-- The table of a kernel has the extents of a device, in order and apart. -/
structure Isolated (l : OrdMap ℕ SanExtent) (t : SanState) : Prop where
  table : (List.range t.numExtents.toNat).map t.extents = l.entries.map fun e => e.2
  sorted : t.Sorted

/-- A table that begins with all the extents. -/
theorem Matches.isolated {P : Platform} {e : ℕ} {ok : ℕ → Prop} {h : DeviceHeap} {l : OrdMap ℕ SanExtent}
    (hm : Matches h l) (hs : h.Sound P e ok) {t : SanState} (hnum : t.numExtents.toNat = l.entries.length)
    (ht : ∀ i x, l.entries[i]? = some x → t.extents i = x.2) : Isolated l t where
  table := by
    refine List.ext_getElem? fun i => ?_
    rw [hnum, List.getElem?_map, List.getElem?_map]
    rcases lt_or_ge i l.entries.length with hi | hi
    · have hx : l.entries[i]? = some l.entries[i] := List.getElem?_eq_getElem hi
      rw [List.getElem?_range hi, hx, Option.map_some, Option.map_some, ht i _ hx]
    · rw [List.getElem?_eq_none (by rw [List.length_range]; exact hi), List.getElem?_eq_none hi]
      rfl
  sorted := by
    intro i j hij hj
    rw [hnum] at hj
    have hi := hij.trans hj
    rw [ht i _ (List.getElem?_eq_getElem hi), ht j _ (List.getElem?_eq_getElem hj)]
    exact hm.apart hs (List.getElem_mem hi) (List.getElem_mem hj) (List.pairwise_iff_getElem.mp l.sorted i j hi hj hij)

/-! ## What calls do to the map -/

namespace SanMap

variable {m m' : SanMap} {d : ℕ} {b : SanState} {r : ArmReplies}

/-- The block begins with the extents that the map would upload. -/
def Shows (m : SanMap) (b : SanState) : Prop :=
  ∀ i t, m.uploaded[i]? = some t → b.extents i = t

/-- The device's block does. -/
def Holds (m : SanMap) (d : ℕ) : Prop :=
  ∃ b, m.blocks d = some b ∧ m.Shows b

/-- Regions were noted, and no more. -/
structure Regions (m m' : SanMap) : Prop where
  extents : m'.extents = m.extents
  nextId : m'.nextId = m.nextId
  blocks : m'.blocks = m.blocks
  dirty : m'.dirty = false → m.dirty = false

theorem Regions.refl (m : SanMap) : m.Regions m :=
  ⟨rfl, rfl, rfl, id⟩

theorem Regions.trans {m'' : SanMap} (h : m.Regions m') (h' : m'.Regions m'') : m.Regions m'' where
  extents := h'.extents.trans h.extents
  nextId := h'.nextId.trans h.nextId
  blocks := h'.blocks.trans h.blocks
  dirty := fun hdirty => h.dirty (h'.dirty hdirty)

theorem regions_noteRegion (m : SanMap) (base size : ℕ) : m.Regions (m.noteRegion base size) := by
  unfold noteRegion
  split
  · exact .refl m
  · exact ⟨rfl, rfl, rfl, fun h => by cases h⟩

theorem regions_foldl (m : SanMap) (ws : List Slab) :
    m.Regions (ws.foldl (fun m w => m.noteRegion w.base w.size) m) := by
  induction ws generalizing m with
  | nil => exact .refl m
  | cons w ws ih => exact (regions_noteRegion m w.base w.size).trans (ih _)

/-- An allocating call notes its allocation, if it makes one, and regions. -/
theorem noteMalloc_cases (P : Platform) (m : SanMap) (s s' : Heap) (c : Call) (res : Except GrxError ℕ) :
    (∀ n base, c.op.asks (P.device c.device) = some n → res ≠ .ok base) ∧ m.Regions (m.noteMalloc P s s' c res) ∨
      ∃ n base m', c.op.asks (P.device c.device) = some n ∧ res = .ok base ∧ m.Regions m' ∧
        m.noteMalloc P s s' c res = m'.noteAlloc base n := by
  have hslabs := regions_foldl m (s'.slabs.drop s.slabs.length)
  unfold noteMalloc
  dsimp only
  cases hasks : c.op.asks (P.device c.device) with
  | none =>
    refine .inl ⟨fun n base h => ?_, hslabs⟩
    cases h
  | some n =>
    cases res with
    | error e =>
      refine .inl ⟨fun n base _ h => ?_, hslabs⟩
      cases h
    | ok base =>
      refine .inr ⟨n, base, _, rfl, rfl, ?_, rfl⟩
      split
      · exact hslabs.trans (regions_noteRegion _ base _)
      · exact hslabs

/-- Blocks changed, and nothing that a device holds was lost. -/
structure Same (m m' : SanMap) : Prop where
  extents : m'.extents = m.extents
  nextId : m'.nextId = m.nextId
  dirty : m'.dirty = m.dirty
  holds : ∀ d, m.Holds d → m'.Holds d

theorem Same.refl (m : SanMap) : m.Same m :=
  ⟨rfl, rfl, rfl, fun _ h => h⟩

theorem Same.trans {m'' : SanMap} (h : m.Same m') (h' : m'.Same m'') : m.Same m'' where
  extents := h'.extents.trans h.extents
  nextId := h'.nextId.trans h.nextId
  dirty := h'.dirty.trans h.dirty
  holds := fun d hd => h'.holds d (h.holds d hd)

theorem shows_congr (h : m'.extents = m.extents) : m'.Shows b ↔ m.Shows b := by
  unfold Shows uploaded
  rw [h]

@[simp] theorem putBlock_extents : (m.putBlock d b).extents = m.extents := rfl

@[simp] theorem putBlock_nextId : (m.putBlock d b).nextId = m.nextId := rfl

@[simp] theorem putBlock_dirty : (m.putBlock d b).dirty = m.dirty := rfl

@[simp] theorem putBlock_self : (m.putBlock d b).blocks d = some b :=
  Function.update_self _ _ _

theorem putBlock_same (h : m.Holds d → m.Shows b) : m.Same (m.putBlock d b) where
  extents := rfl
  nextId := rfl
  dirty := rfl
  holds := by
    intro e he
    by_cases hed : e = d
    · subst hed
      exact ⟨b, putBlock_self, h he⟩
    · obtain ⟨b', hb', hshows⟩ := he
      exact ⟨b', (Function.update_of_ne hed _ _).trans hb', hshows⟩

/-- A control block is made where there was none. -/
theorem ensureBlock_same (m : SanMap) (d : ℕ) (r : ArmReplies) : m.Same (m.ensureBlock d r).1 ∧
    ∀ b, (m.ensureBlock d r).2 = .ok b → (m.ensureBlock d r).1.blocks d = some b := by
  unfold ensureBlock
  cases hb : m.blocks d with
  | some b =>
    refine ⟨.refl m, fun b' h => ?_⟩
    rw [← Except.ok.inj h]
    exact hb
  | none =>
    have hnew : ∀ b, m.Same (m.putBlock d b) := by
      refine fun b => putBlock_same ?_
      rintro ⟨b', hb', -⟩
      rw [hb] at hb'
      cases hb'
    cases r.create with
    | some e => exact ⟨.refl m, fun b h => by cases h⟩
    | none =>
      cases r.address with
      | some e => exact ⟨.refl m, fun b h => by cases h⟩
      | none =>
        cases r.header with
        | some e => exact ⟨hnew _, fun b h => by cases h⟩
        | none =>
          refine ⟨hnew _, fun b h => ?_⟩
          rw [← Except.ok.inj h]
          exact putBlock_self

theorem writeFront_of_some {α : Type} {l : List α} {table : ℕ → α} {i : ℕ} {x : α} (h : l[i]? = some x) :
    writeFront l table i = x := by
  unfold writeFront
  rw [h]
  rfl

/-- What the upload of a map that has changed does. -/
structure Uploads (m : SanMap) (d : ℕ) (res : SanMap × Except GrxError SanState) : Prop where
  extents : res.1.extents = m.extents
  nextId : res.1.nextId = m.nextId
  done : (∃ e, res.2 = .error e ∧ res.1.dirty = true) ∨
    ∃ b, res.2 = .ok b ∧ res.1.dirty = false ∧ res.1.blocks d = some b ∧ m.Shows b

theorem upload_dirty (hdirty : m.dirty = true) (d : ℕ) (b : SanState) (r : ArmReplies) :
    m.Uploads d (m.upload d b r) := by
  unfold upload
  rw [if_neg (by rw [hdirty]; exact Bool.noConfusion)]
  cases (if m.uploaded = [] then none else r.extents) with
  | some e => exact ⟨rfl, rfl, .inl ⟨e, rfl, hdirty⟩⟩
  | none =>
    cases (if m.regions = [] then none else r.regions) with
    | some e => exact ⟨rfl, rfl, .inl ⟨e, rfl, hdirty⟩⟩
    | none => exact ⟨rfl, rfl, .inr ⟨_, rfl, rfl, putBlock_self, fun i t ht => writeFront_of_some ht⟩⟩

/-- What `sanitize_arm` does: it keeps what devices hold of a map that has not changed, and uploads one that
has. A kernel that is armed reads the table of its device, with the number of the extents. -/
structure Arms (m : SanMap) (d : ℕ) (res : SanMap × Except GrxError Bool) : Prop where
  extents : res.1.extents = m.extents
  nextId : res.1.nextId = m.nextId
  clean : m.dirty = false → res.1.dirty = false ∧ ∀ e, m.Holds e → res.1.Holds e
  changed : m.dirty = true → res.1.dirty = true ∨ res.1.Holds d
  armed : res.2 = .ok true → ∃ t, res.1.blocks d = some t ∧ t.Armed ∧
    t.numExtents.toNat = min m.extents.entries.length kMaxExtents ∧ (m.dirty = true ∨ m.Holds d → m.Shows t)

theorem shows_of_extents {t : SanState} (h : t.extents = b.extents) : m.Shows t ↔ m.Shows b := by
  unfold Shows
  rw [h]

/-- A header that is written leaves the table of the block alone. -/
theorem header_same {t : SanState} (hb : m.blocks d = some b) (ht : t.extents = b.extents) :
    m.Same (m.putBlock d t) := by
  refine putBlock_same ?_
  rintro ⟨b', hb', hshows⟩
  rw [hb] at hb'
  obtain rfl := Option.some.inj hb'
  exact (shows_of_extents ht).mpr hshows

theorem shows_of_holds (hb : m.blocks d = some b) (h : m.Holds d) : m.Shows b := by
  obtain ⟨b', hb', hshows⟩ := h
  rw [hb] at hb'
  rwa [Option.some.inj hb']

/-- The end of `sanitize_arm`, for a block that has the tables. -/
theorem writeState_arms {m₂ : SanMap} (hextents : m₂.extents = m.extents) (hnextId : m₂.nextId = m.nextId)
    (hclean : m.dirty = false → m₂.dirty = false ∧ ∀ e, m.Holds e → m₂.Holds e)
    (hchanged : m.dirty = true → m₂.Holds d) (hb : m₂.blocks d = some b) (sharedBytes gridThreads : UInt32)
    (r : ArmReplies) : m.Arms d (m₂.writeState d b sharedBytes gridThreads r) := by
  -- whatever is written, the table stays
  have hstep : ∀ res : SanMap × Except GrxError Bool, m₂.Same res.1 →
      (res.2 = .ok true → ∃ t, res.1.blocks d = some t ∧ t.extents = b.extents ∧ t.Armed ∧
        t.numExtents.toNat = min m.extents.entries.length kMaxExtents) → m.Arms d res := by
    intro res hsame harmed
    refine ⟨hsame.extents.trans hextents, hsame.nextId.trans hnextId, fun hdirty => ?_,
      fun hdirty => .inr (hsame.holds d (hchanged hdirty)), fun hok => ?_⟩
    · obtain ⟨hd, hh⟩ := hclean hdirty
      exact ⟨hsame.dirty.trans hd, fun e he => hsame.holds e (hh e he)⟩
    · obtain ⟨t, ht, htable, harm, hnum⟩ := harmed hok
      refine ⟨t, ht, harm, hnum, fun hheld => (shows_of_extents htable).mpr ?_⟩
      have hholds : m₂.Holds d := by
        cases hdirty : m.dirty with
        | true => exact hchanged hdirty
        | false => exact (hclean hdirty).2 d (hheld.resolve_left (by rw [hdirty]; exact Bool.noConfusion))
      exact (shows_congr hextents).mp (shows_of_holds hb hholds)
  unfold writeState
  cases r.reports with
  | some e => exact hstep _ (.refl m₂) (by rintro ⟨⟩)
  | none =>
    cases r.state with
    | some e => exact hstep (m₂.putBlock d _, _) (header_same hb rfl) (by rintro ⟨⟩)
    | none =>
      have henabled : (1 : UInt32) ≠ 0 := by decide
      refine hstep (m₂.putBlock d _, _) (header_same hb rfl) fun _ => ⟨_, putBlock_self, rfl, ⟨henabled, rfl⟩, ?_⟩
      have hmax : kMaxExtents = 4096 := rfl
      rw [hextents]
      exact UInt32.toNat_ofNat_of_lt' (by rw [UInt32.size]; omega)

theorem Arms.of_same {m₁ : SanMap} {res : SanMap × Except GrxError Bool} (h : m.Same m₁) (ha : m₁.Arms d res) :
    m.Arms d res where
  extents := ha.extents.trans h.extents
  nextId := ha.nextId.trans h.nextId
  clean := by
    intro hdirty
    obtain ⟨hd, hh⟩ := ha.clean (h.dirty.trans hdirty)
    exact ⟨hd, fun e he => hh e (h.holds e he)⟩
  changed := fun hdirty => ha.changed (h.dirty.trans hdirty)
  armed := by
    intro hok
    obtain ⟨t, hblock, ht, hnum, hshows⟩ := ha.armed hok
    rw [h.extents] at hnum
    exact ⟨t, hblock, ht, hnum,
      fun hheld => (shows_congr h.extents).mp (hshows (hheld.imp h.dirty.trans (h.holds d)))⟩

theorem arms_not (m : SanMap) (d : ℕ) {res : Except GrxError Bool} (h : res ≠ .ok true) : m.Arms d (m, res) where
  extents := rfl
  nextId := rfl
  clean := fun hdirty => ⟨hdirty, fun _ he => he⟩
  changed := .inl
  armed := fun hok => absurd hok h

theorem sanitizeArm_arms (m : SanMap) (d : ℕ) (sharedBytes gridThreads : UInt32) (instrumented : Bool)
    (r : ArmReplies) : m.Arms d (m.sanitizeArm d sharedBytes gridThreads instrumented r) := by
  unfold sanitizeArm
  split
  · exact arms_not m d (by rintro ⟨⟩)
  obtain ⟨hsame, hblock⟩ := ensureBlock_same m d r
  rcases hensure : m.ensureBlock d r with ⟨m₁, e | b⟩
  · rw [hensure] at hsame
    exact .of_same hsame (arms_not m₁ d (by rintro ⟨⟩))
  rw [hensure] at hsame hblock
  refine .of_same hsame ?_
  have hb : m₁.blocks d = some b := hblock b rfl
  cases hdirty : m₁.dirty with
  | false =>
    have hup : m₁.upload d b r = (m₁, .ok b) := by
      unfold upload
      rw [if_pos hdirty]
    simp only [hup]
    refine writeState_arms rfl rfl (fun h => ⟨h, fun _ he => he⟩) (fun h => ?_) hb sharedBytes gridThreads r
    rw [hdirty] at h
    cases h
  | true =>
    have hup := upload_dirty hdirty d b r
    rcases hres : m₁.upload d b r with ⟨m₂, e | b₂⟩
    · rw [hres] at hup
      simp only [hres]
      refine ⟨hup.extents, hup.nextId, fun h => ?_, fun _ => .inl ?_, by rintro ⟨⟩⟩
      · rw [hdirty] at h
        cases h
      · obtain ⟨_, -, hd⟩ | ⟨_, h, -⟩ := hup.done
        · exact hd
        · cases h
    · rw [hres] at hup
      simp only [hres]
      obtain ⟨_, h, -⟩ | ⟨b', hok, hd, hb₂, hshows⟩ := hup.done
      · cases h
      obtain rfl := Except.ok.inj hok
      refine writeState_arms hup.extents hup.nextId (fun h => ?_) (fun _ => ⟨b₂, hb₂, ?_⟩) hb₂ sharedBytes gridThreads r
      · rw [hdirty] at h
        cases h
      · exact (shows_congr hup.extents).mpr hshows

end SanMap

/-! ## Allocations -/

/-- An allocating call on its device: no new block and none returned, or a live one of the rounded size. -/
theorem Heap.Good.malloc_cases {P : Platform} {s : Heap} {c : Call} {r : Request}
    (hg : s.Good P fun _ => True) (hm : c.Meets P (fun _ => True) s) (hr : c.op.request = some r) :
    ((s.step P c).view c.device).held = (s.view c.device).held ∧
      ((∀ n base, c.op.asks (P.device c.device) = some n → (s.call P c).2 ≠ .ok base) ∧
          ((s.step P c).view c.device).live = (s.view c.device).live ∨
        ∃ n a, c.op.asks (P.device c.device) = some n ∧ (s.call P c).2 = .ok a.base ∧
          ((s.step P c).view c.device).live = (s.view c.device).live.insert a.base a ∧
          a.size = need P c.device n) := by
  have hrefines := hg.call_refines hm
  have hview : (s.step P c).view c.device = ((s.view c.device).call P c.device c.op).1 := hrefines.view
  rw [hview, hrefines.result]
  refine ⟨DeviceHeap.call_held hr, ?_⟩
  cases hask : c.op.asks (P.device c.device) with
  | none =>
    refine .inl ⟨fun n base h => ?_, ?_⟩
    · cases h
    · rw [DeviceHeap.call_asks_none hr hask]
  | some n =>
    obtain ⟨managed, physical, drv, ⟨x, herr, -, hrefused⟩ | ⟨a, hres, ha⟩⟩ :=
      (hg.sound c.device).call_asks (hm.view hg.linked) hask
    · refine .inl ⟨fun n base _ h => ?_, hrefused.live⟩
      rw [herr] at h
      cases h
    · exact .inr ⟨n, a, rfl, hres, ha.live, ha.fits.size⟩

/-- A free in a process that has the sanitizer on: a live block goes to the quarantine, or nothing is done. -/
theorem Heap.Good.free_cases {P : Platform} {s : Heap} (hsan : P.sanitize = true) (hg : s.Good P fun _ => True)
    (e address : ℕ) :
    (∃ a : Allocation, address ≠ 0 ∧ a.base = address ∧ s.live.find? (toLex (e, address)) = some a ∧
        (s.call P ⟨e, .free address⟩).2 = .ok 0 ∧ (s.view e).live.Has a.base a.toBlock ∧
        (s.step P ⟨e, .free address⟩).view e =
          { (s.view e).drop a.toBlock with held := a.toBlock :: (s.view e).held }) ∨
      (s.step P ⟨e, .free address⟩).view e = s.view e ∧
        (address = 0 ∧ (s.call P ⟨e, .free address⟩).2 = .ok 0 ∨
          address ≠ 0 ∧ s.live.find? (toLex (e, address)) = none ∧
            ∃ x, (s.call P ⟨e, .free address⟩).2 = .error x) := by
  have hrefines := hg.free (e := e) address
  have hview : (s.step P ⟨e, .free address⟩).view e = ((s.view e).free P address).1 := hrefines.view
  have hresult : (s.call P ⟨e, .free address⟩).2 = ((s.view e).free P address).2 := hrefines.result
  have hfind : (s.view e).live.find? address = (s.live.find? (toLex (e, address))).map fun a => a.toBlock := by
    simp only [Heap.view]
    rw [OrdMap.find?_map, OrdMap.fiber_find?]
  cases hlive : s.live.find? (toLex (e, address)) with
  | none =>
    rw [hlive, Option.map_none] at hfind
    rw [hview, hresult, DeviceHeap.free, hfind]
    by_cases hzero : address = 0
    · rw [if_pos hzero]
      exact .inr ⟨rfl, .inl ⟨hzero, rfl⟩⟩
    · rw [if_neg hzero]
      exact .inr ⟨rfl, .inr ⟨hzero, rfl, _, rfl⟩⟩
  | some a =>
    rw [hlive, Option.map_some] at hfind
    have hhas := OrdMap.find?_eq_some_iff.mp hfind
    have hbase : a.base = address := ((hg.sound e).live_key _ _ hhas).1
    have hpos := (hg.sound e).owned_pos ((hg.sound e).owned_of_live hhas)
    have hne : address ≠ 0 := by omega
    refine .inl ⟨a, hne, hbase, rfl, ?_, hbase ▸ hhas, ?_⟩
    · rw [hresult, DeviceHeap.free, if_neg hne, hfind]
      simp only [hsan, if_true]
    · rw [hview, DeviceHeap.free, if_neg hne, hfind]
      simp only [hsan, if_true]

/-! ## Runs -/

namespace Ledger

variable {l : Ledger} {d e : ℕ} {m : OrdMap ℕ SanExtent}

/-- No other device has extents. -/
def Alone (l : Ledger) (d : ℕ) : Prop :=
  ∀ e, e ≠ d → l.extents e = .empty

@[simp] theorem put_self : (l.put d m).extents d = m :=
  Function.update_self _ _ _

theorem put_of_ne (h : e ≠ d) : (l.put d m).extents e = l.extents e :=
  Function.update_of_ne h _ _

/-- A device whose extents change is alone as before, and no other device is if it has some after. -/
theorem alone_put (h : (l.put d m).Alone e) : e = d ∧ l.Alone d ∨ e ≠ d ∧ m = .empty := by
  by_cases he : e = d
  · subst he
    refine .inl ⟨rfl, fun d' hd' => ?_⟩
    rw [← h d' hd', put_of_ne hd']
  · refine .inr ⟨he, ?_⟩
    rw [← h d (Ne.symm he), put_self]

end Ledger

theorem insert_ne_empty {K V : Type} [LinearOrder K] (m : OrdMap K V) (k : K) (v : V) : m.insert k v ≠ .empty := by
  intro h
  have hhas : (m.insert k v).Has k v := OrdMap.has_insert.mpr (.inl ⟨rfl, rfl⟩)
  rw [h] at hhas
  cases hhas

namespace SanWatch

variable {P : Platform} {x : SanWatch}

/-- The driver gives out memory of the device that is not taken. -/
def DriverOk (x : SanWatch) (c : SanCall) : Prop :=
  ∀ c' r, c = .call c' → c'.op.request = some r → r.driver.Ok (x.context.heap.Taken c'.device)

/-- What a call is to meet. The size of an allocation is rounded without wrapping. A reset finds no extents of
another device, and erases the last slabs. A launch of an instrumented kernel finds none either, and a map
that has changed since its last upload or was last uploaded to its device, and that fits in the table. -/
structure Separate (P : Platform) (x : SanWatch) (c : SanCall) : Prop where
  size : ∀ c' n, c = .call c' → c'.op.asks (P.device c'.device) = some n → Unwrapped P c'.device n
  reset : ∀ c' sync, c = .call c' → c'.op = .reset sync →
    x.ledger.Alone c'.device ∧ x.context.heap.ResetsLast c'.device
  launch : ∀ d sync sharedBytes gridThreads r, c = .launch d sync sharedBytes gridThreads true r →
    x.ledger.Alone d ∧ (x.context.map.dirty = true ∨ x.ledger.holder = some d) ∧
      (x.ledger.extents d).entries.length ≤ kMaxExtents

/-- A kernel that is armed has the extents of its device for its table. -/
def ArmsIsolated (P : Platform) (x : SanWatch) (c : SanCall) : Prop :=
  ∀ d sync sharedBytes gridThreads instrumented r, c = .launch d sync sharedBytes gridThreads instrumented r →
    (x.context.call P c).2 = .ok true →
      ∃ t, (x.context.call P c).1.map.blocks d = some t ∧ t.Armed ∧ Isolated (x.ledger.extents d) t

/-- Each device's extents are its blocks. The map has the extents of a device that is the only one with any, and
one that has not changed since its upload is what its holder has. -/
structure Tracks (P : Platform) (x : SanWatch) : Prop where
  good : x.context.heap.Good P fun _ => True
  blocks : ∀ e, Matches (x.context.heap.view e) (x.ledger.extents e)
  extents : ∀ d, x.ledger.Alone d → x.context.map.extents = x.ledger.extents d
  nextId : x.context.map.nextId = x.ledger.nextId
  held : x.context.map.dirty = false → ∀ d, x.ledger.holder = some d → x.context.map.Holds d

theorem Tracks.empty : ({} : SanWatch).Tracks P where
  good := .empty
  blocks := fun e => .empty rfl
  extents := fun d _ => rfl
  nextId := rfl
  held := by
    intro h
    cases h

theorem Separate.meets {c : Call} (h : x.Separate P (.call c)) (hdrv : x.DriverOk (.call c)) :
    c.Meets P (fun _ => True) x.context.heap where
  driver := fun r hr => hdrv c r rfl hr
  size := fun _ _ => trivial
  reset := fun sync hsync => (h.reset c sync rfl hsync).2

/-- The views of the other devices, and what they have, stay. -/
theorem Tracks.blocks_others (h : x.Tracks P) {c : Call} (hm : c.Meets P (fun _ => True) x.context.heap)
    {l : Ledger} (hothers : ∀ e, e ≠ c.device → l.extents e = x.ledger.extents e)
    (hself : Matches ((x.context.heap.step P c).view c.device) (l.extents c.device)) (e : ℕ) :
    Matches ((x.context.heap.step P c).view e) (l.extents e) := by
  by_cases he : e = c.device
  · rw [he]
    exact hself
  · have hview : (x.context.heap.step P c).view e = x.context.heap.view e := (h.good.call_refines hm).others e he
    rw [hview, hothers e he]
    exact h.blocks e

/-- An allocating call. -/
theorem Tracks.malloc (h : x.Tracks P) (hsan : P.sanitize = true) {c : Call} (hsep : x.Separate P (.call c))
    (hdrv : x.DriverOk (.call c)) {r : Request} (hr : c.op.request = some r) {map : SanMap} {l : Ledger}
    (hmap : map = x.context.map.noteMalloc P x.context.heap (x.context.heap.step P c) c (x.context.heap.call P c).2)
    (hl : l = x.ledger.noteMalloc P c (x.context.heap.call P c).2) :
    SanWatch.Tracks P ⟨⟨x.context.heap.step P c, map⟩, l⟩ := by
  have hm := hsep.meets hdrv
  have hgood := h.good.step hm
  obtain ⟨hheld, ⟨hnone, hlive⟩ | ⟨n, a, hask, hres, hlive, hsize⟩⟩ := h.good.malloc_cases hm hr
  · obtain rfl : l = x.ledger := by
      rw [hl]
      unfold Ledger.noteMalloc
      split
      · next hask hok => exact absurd hok (hnone _ _ hask)
      · rfl
    rcases SanMap.noteMalloc_cases P x.context.map x.context.heap (x.context.heap.step P c) c
      (x.context.heap.call P c).2 with ⟨-, hregions⟩ | ⟨n, base, -, hask, hok, -, -⟩
    · rw [← hmap] at hregions
      refine ⟨hgood, h.blocks_others hm (fun _ _ => rfl) ((h.blocks _).congr hlive hheld), fun d hd => ?_, ?_, ?_⟩
      · exact hregions.extents.trans (h.extents d hd)
      · exact hregions.nextId.trans h.nextId
      · intro hdirty d hd
        obtain ⟨b, hb, hshows⟩ := h.held (hregions.dirty hdirty) d hd
        exact ⟨b, (congrFun hregions.blocks d).trans hb, (SanMap.shows_congr hregions.extents).mpr hshows⟩
    · exact absurd hok (hnone n base hask)
  · obtain rfl : l = x.ledger.alloc c.device a.base n := by
      rw [hl]
      unfold Ledger.noteMalloc
      rw [hask, hres]
    rcases SanMap.noteMalloc_cases P x.context.map x.context.heap (x.context.heap.step P c) c
      (x.context.heap.call P c).2 with ⟨hnone, -⟩ | ⟨n', base, m', hask', hok, hregions, hnote⟩
    · exact absurd hres (hnone n a.base hask)
    obtain rfl := Option.some.inj (hask.symm.trans hask')
    obtain rfl := Except.ok.inj (hres.symm.trans hok)
    rw [hnote] at hmap
    have hlivea : ((x.context.heap.step P c).view c.device).live.Has a.base a := by
      rw [hlive]
      exact OrdMap.has_insert.mpr (.inl ⟨rfl, rfl⟩)
    have hstop := (hgood.sound c.device).owned_stop ((hgood.sound c.device).owned_of_live hlivea)
    have hneed := (hsep.size c n rfl hask).need.1
    have hred : sanitizeRedzoneBytes P = kRedzone := by
      unfold sanitizeRedzoneBytes
      rw [if_pos hsan]
    have hredzone : kRedzone = 256 := rfl
    refine ⟨hgood, h.blocks_others hm (fun e he => Ledger.put_of_ne he) ?_, fun d hd => ?_, ?_, ?_⟩
    · show Matches _ ((x.ledger.put c.device _).extents c.device)
      rw [Ledger.put_self]
      refine (h.blocks c.device).alloc hlive hheld ?_ ?_ rfl
      · exact UInt64.toNat_ofNat_of_lt' (by rw [UInt64.size]; omega)
      · rw [UInt64.toNat_ofNat_of_lt' (by rw [UInt64.size]; omega)]
        omega
    · rcases Ledger.alone_put hd with ⟨rfl, halone⟩ | ⟨-, hempty⟩
      · show map.extents = (x.ledger.put c.device _).extents c.device
        rw [Ledger.put_self, hmap, ← h.extents c.device halone, ← h.nextId, ← hregions.extents, ← hregions.nextId]
        rfl
      · exact absurd hempty (insert_ne_empty _ _ _)
    · show map.nextId = x.ledger.nextId + 1
      rw [hmap, ← h.nextId, ← hregions.nextId]
      rfl
    · intro hdirty
      exact absurd (hmap ▸ hdirty : (m'.noteAlloc a.base n).dirty = false) Bool.noConfusion

/-- No extent is at address 0. -/
theorem Tracks.find_zero (h : x.Tracks P) (e : ℕ) : (x.ledger.extents e).find? 0 = none := by
  cases hfind : (x.ledger.extents e).find? 0 with
  | none => rfl
  | some t =>
    obtain ⟨a, ha, hextends⟩ := (h.blocks e).block 0 t (OrdMap.find?_eq_some_iff.mp hfind)
    have hpos := (h.good.sound e).owned_pos (Matches.owned (h.good.sound e) hextends)
    exact absurd ha hpos.ne'

/-- A free that does nothing. -/
theorem Tracks.free_none (h : x.Tracks P) {c : Call} (hm : c.Meets P (fun _ => True) x.context.heap)
    (hview : (x.context.heap.step P c).view c.device = x.context.heap.view c.device) :
    SanWatch.Tracks P ⟨⟨x.context.heap.step P c, x.context.map⟩, x.ledger⟩ where
  good := h.good.step hm
  blocks := h.blocks_others hm (fun _ _ => rfl) (hview ▸ h.blocks c.device)
  extents := h.extents
  nextId := h.nextId
  held := h.held

/-- A free. -/
theorem Tracks.free (h : x.Tracks P) (hsan : P.sanitize = true) {e address : ℕ}
    (hm : (⟨e, .free address⟩ : Call).Meets P (fun _ => True) x.context.heap) :
    SanWatch.Tracks P (x.step P (.call ⟨e, .free address⟩)) := by
  rcases Heap.Good.free_cases hsan h.good e address with
    ⟨a, hne, rfl, hfind, hres, hlive, hview⟩ | ⟨hview, ⟨rfl, hres⟩ | ⟨hne, hfind, y, hres⟩⟩
  · -- the extent is there, and is marked
    obtain ⟨t, ht, hstate⟩ := (h.blocks e).live a.base _ hlive
    have hledger : x.ledger.note P ⟨e, .free a.base⟩ (x.context.heap.call P ⟨e, .free a.base⟩).2 =
        x.ledger.put e ((x.ledger.extents e).insert a.base { t with state := GRX_SAN_EXTENT_FREED }) := by
      rw [hres]
      show x.ledger.free e a.base = _
      rw [Ledger.free, OrdMap.find?_eq_some_iff.mpr ht]
    have hmap : (x.context.call P (.call ⟨e, .free a.base⟩)).1.map = x.context.map.noteFree a.base := by
      show x.context.map.noteCall P x.context.heap (x.context.heap.step P ⟨e, .free a.base⟩) ⟨e, .free a.base⟩
        (x.context.heap.call P ⟨e, .free a.base⟩).2 = _
      simp only [SanMap.noteCall, if_neg hne, hfind]
    have hstep : x.step P (.call ⟨e, .free a.base⟩) =
        ⟨⟨x.context.heap.step P ⟨e, .free a.base⟩, x.context.map.noteFree a.base⟩,
          x.ledger.put e ((x.ledger.extents e).insert a.base { t with state := GRX_SAN_EXTENT_FREED })⟩ := by
      rw [← hledger, ← hmap]
      rfl
    rw [hstep]
    refine ⟨h.good.step hm, h.blocks_others hm (fun e' he' => Ledger.put_of_ne he') ?_, fun d hd => ?_, ?_, ?_⟩
    · rw [Ledger.put_self, hview]
      exact (h.blocks e).hold hlive ht hstate
    · rcases Ledger.alone_put hd with ⟨rfl, halone⟩ | ⟨-, hempty⟩
      · have hmapt : x.context.map.extents.find? a.base = some t := by
          rw [h.extents d halone]
          exact OrdMap.find?_eq_some_iff.mpr ht
        rw [Ledger.put_self, ← h.extents d halone]
        simp only [SanMap.noteFree, hmapt]
      · exact absurd hempty (insert_ne_empty _ _ _)
    · show (x.context.map.noteFree a.base).nextId = x.ledger.nextId
      rw [← h.nextId, SanMap.noteFree]
      split
      · rfl
      · rfl
    · unfold SanMap.noteFree
      split
      · exact h.held
      · intro hdirty
        cases hdirty
  · have hstep : x.step P (.call ⟨e, .free 0⟩) =
        ⟨⟨x.context.heap.step P ⟨e, .free 0⟩, x.context.map⟩, x.ledger⟩ := by
      have hledger : x.ledger.note P ⟨e, .free 0⟩ (x.context.heap.call P ⟨e, .free 0⟩).2 = x.ledger := by
        rw [hres]
        show x.ledger.free e 0 = _
        rw [Ledger.free, h.find_zero e]
      exact congrArg (SanWatch.mk _) hledger
    rw [hstep]
    exact h.free_none hm hview
  · have hstep : x.step P (.call ⟨e, .free address⟩) =
        ⟨⟨x.context.heap.step P ⟨e, .free address⟩, x.context.map⟩, x.ledger⟩ := by
      have hledger : x.ledger.note P ⟨e, .free address⟩ (x.context.heap.call P ⟨e, .free address⟩).2 = x.ledger := by
        rw [hres]
        rfl
      have hmap : (x.context.call P (.call ⟨e, .free address⟩)).1.map = x.context.map := by
        show x.context.map.noteCall P x.context.heap (x.context.heap.step P ⟨e, .free address⟩) ⟨e, .free address⟩
          (x.context.heap.call P ⟨e, .free address⟩).2 = _
        simp only [SanMap.noteCall, if_neg hne, hfind]
      rw [← hledger, ← hmap]
      rfl
    rw [hstep]
    exact h.free_none hm hview

/-- A reset that finds no extents of another device. -/
theorem Tracks.reset (h : x.Tracks P) {e : ℕ} {sync : Option GrxError}
    (hm : (⟨e, .reset sync⟩ : Call).Meets P (fun _ => True) x.context.heap) (halone : x.ledger.Alone e) :
    SanWatch.Tracks P (x.step P (.call ⟨e, .reset sync⟩)) := by
  have hstep : x.step P (.call ⟨e, .reset sync⟩) =
      ⟨⟨x.context.heap.step P ⟨e, .reset sync⟩, x.context.map.forgetAll⟩, x.ledger.put e .empty⟩ := by
    rfl
  have hview : (x.context.heap.step P ⟨e, .reset sync⟩).view e = (x.context.heap.view e).reset :=
    (h.good.call_refines hm).view
  rw [hstep]
  refine ⟨h.good.step hm, h.blocks_others hm (fun e' he' => Ledger.put_of_ne he') ?_, fun d _ => ?_, h.nextId, ?_⟩
  · rw [Ledger.put_self, hview]
    exact .empty rfl
  · by_cases hd : d = e
    · rw [hd, Ledger.put_self]
      rfl
    · rw [Ledger.put_of_ne hd, halone d hd]
      rfl
  · intro hdirty
    cases hdirty

/-- A launch. -/
theorem Tracks.launch (h : x.Tracks P) (d : ℕ) (sync : Option GrxError) (sharedBytes gridThreads : UInt32)
    (instrumented : Bool) (r : ArmReplies) :
    SanWatch.Tracks P (x.step P (.launch d sync sharedBytes gridThreads instrumented r)) := by
  cases sync with
  | some e =>
    refine ⟨h.good, h.blocks, h.extents, h.nextId, fun hdirty d' hd' => h.held hdirty d' ?_⟩
    rw [← hd']
    show x.ledger.holder = if x.context.map.dirty && !x.context.map.dirty then some d else x.ledger.holder
    rw [Bool.and_not_self]
    rfl
  | none =>
    have harms := x.context.map.sanitizeArm_arms d sharedBytes gridThreads instrumented r
    refine ⟨h.good, h.blocks, fun e he => harms.extents.trans (h.extents e he), harms.nextId.trans h.nextId, ?_⟩
    intro hdirty' e he
    have hdirty' : (x.context.map.sanitizeArm d sharedBytes gridThreads instrumented r).1.dirty = false := hdirty'
    have he : (if x.context.map.dirty &&
        !(x.context.map.sanitizeArm d sharedBytes gridThreads instrumented r).1.dirty then some d
        else x.ledger.holder) = some e := he
    show (x.context.map.sanitizeArm d sharedBytes gridThreads instrumented r).1.Holds e
    rw [hdirty', Bool.not_false, Bool.and_true] at he
    cases hdirty : x.context.map.dirty with
    | true =>
      rw [hdirty, if_pos rfl] at he
      obtain rfl := Option.some.inj he
      refine (harms.changed hdirty).resolve_left ?_
      rw [hdirty']
      exact Bool.noConfusion
    | false =>
      rw [hdirty, if_neg Bool.noConfusion] at he
      exact (harms.clean hdirty).2 e (h.held hdirty e he)

/-- A kernel is armed with the extents of its device. -/
theorem Tracks.isolated (h : x.Tracks P) {c : SanCall} (hsep : x.Separate P c) : x.ArmsIsolated P c := by
  rintro d sync sharedBytes gridThreads instrumented r rfl hok
  cases sync with
  | some e => cases hok
  | none =>
    cases instrumented with
    | false => cases hok
    | true =>
      obtain ⟨halone, hheld, hfits⟩ := hsep.launch d none sharedBytes gridThreads r rfl
      have harms := x.context.map.sanitizeArm_arms d sharedBytes gridThreads true r
      obtain ⟨t, ht, harmed, hnum, hshows⟩ := harms.armed hok
      have hextents := h.extents d halone
      have hshows : x.context.map.Shows t := by
        refine hshows ?_
        cases hdirty : x.context.map.dirty with
        | true => exact .inl rfl
        | false => exact .inr (h.held hdirty d (hheld.resolve_left (by rw [hdirty]; exact Bool.noConfusion)))
      refine ⟨t, ht, harmed, (h.blocks d).isolated (h.good.sound d) ?_ fun i y hy => hshows i y.2 ?_⟩
      · rw [hnum, hextents, min_eq_left hfits]
      · have hi := (List.getElem?_eq_some_iff.mp hy).1
        rw [SanMap.uploaded, hextents, List.getElem?_take_of_lt (hi.trans_le hfits), List.getElem?_map, hy,
          Option.map_some]

theorem Tracks.step (h : x.Tracks P) (hsan : P.sanitize = true) {c : SanCall} (hdrv : x.DriverOk c)
    (hsep : x.Separate P c) : (x.step P c).Tracks P := by
  cases c with
  | launch d sync sharedBytes gridThreads instrumented r => exact h.launch d sync sharedBytes gridThreads instrumented r
  | call c =>
    have hm := hsep.meets hdrv
    obtain ⟨e, op⟩ := c
    cases op with
    | malloc r => exact h.malloc hsan hsep hdrv (r := r) rfl rfl rfl
    | mallocPhysical r => exact h.malloc hsan hsep hdrv (r := r) rfl rfl rfl
    | mallocManaged r => exact h.malloc hsan hsep hdrv (r := r) rfl rfl rfl
    | free address => exact h.free hsan hm
    | reset sync => exact h.reset hm (hsep.reset _ sync rfl rfl).1

end SanWatch

/-- A call changes only what its device has, and a launch nothing. -/
theorem Ledger.note_of_ne {P : Platform} {l : Ledger} {c : Call} {e : ℕ} (h : e ≠ c.device)
    (res : Except GrxError ℕ) : (l.note P c res).extents e = l.extents e := by
  have hmalloc : (l.noteMalloc P c res).extents e = l.extents e := by
    unfold Ledger.noteMalloc
    split
    · exact Ledger.put_of_ne h
    · rfl
  unfold Ledger.note
  split
  · exact hmalloc
  · exact hmalloc
  · exact hmalloc
  · split
    · unfold Ledger.free
      split
      · rfl
      · exact Ledger.put_of_ne h
    · rfl
  · exact Ledger.put_of_ne h

/-- In a process that has the sanitizer on, and in every run whose calls keep the devices separate, every
kernel is armed with exactly the extents of its device. -/
theorem arms_isolated (P : Platform) (hsan : P.sanitize = true) (cs : List SanCall)
    (hdriver : Runs.Along (SanWatch.step P) SanWatch.DriverOk {} cs)
    (hseparate : Runs.Along (SanWatch.step P) (SanWatch.Separate P) {} cs) :
    Runs.Along (SanWatch.step P) (SanWatch.ArmsIsolated P) {} cs := by
  have hall : ∀ (x : SanWatch), x.Tracks P →
      Runs.Along (SanWatch.step P) (fun x c => x.DriverOk c ∧ x.Separate P c) x cs →
        Runs.Along (SanWatch.step P) (SanWatch.ArmsIsolated P) x cs := by
    clear hdriver hseparate
    induction cs with
    | nil => exact fun _ _ _ => trivial
    | cons c cs ih =>
      rintro x hx ⟨⟨hdrv, hsep⟩, hrest⟩
      exact ⟨hx.isolated hsep, ih _ (hx.step hsan hdrv hsep) hrest⟩
  exact hall {} .empty (hdriver.and hseparate)

/-! ## One device, and two -/

/-- Devices with the properties of the default, in a process that has the sanitizer on. -/
def sanitized : Platform where
  device := fun _ => {}
  sanitize := true

/-- A block is allocated and freed, another one allocated, and an instrumented kernel launched. -/
def launchAlone : List SanCall :=
  [.call (mallocAt 1 100 4096), .call ⟨1, .free 4096⟩, .call (mallocAt 1 200 (2 ^ 30)), .launch 1 none 0 32 true {}]

/-- A block of each of two devices, at the same address, and a launch on the first. -/
def launchBeside : List SanCall :=
  [.call (mallocAt 0 100 4096), .call (mallocAt 1 200 4096), .launch 0 none 0 32 true {}]

theorem mallocAt_driverOk {x : SanWatch} {e size next : ℕ} (hn : 0 < next) (h : x.context.heap.EndsBy e next) :
    x.DriverOk (.call (mallocAt e size next)) := by
  rintro c r ⟨⟩ hr
  exact mallocAt_driver h hn r hr

theorem driverOk_of_request {x : SanWatch} {c : SanCall} (h : ∀ c', c = .call c' → c'.op.request = none) :
    x.DriverOk c := by
  intro c' r hc hr
  rw [h c' hc] at hr
  cases hr

theorem launchAlone_driver : Runs.Along (SanWatch.step sanitized) SanWatch.DriverOk {} launchAlone := by
  refine ⟨mallocAt_driverOk (by norm_num) (by decide +kernel), driverOk_of_request ?_,
    mallocAt_driverOk (by norm_num) (by decide +kernel), driverOk_of_request ?_, trivial⟩
  · rintro c ⟨⟩
    rfl
  · rintro c ⟨⟩

theorem mallocAt_separate {x : SanWatch} {e size next : ℕ} (h : Unwrapped sanitized e size) :
    x.Separate sanitized (.call (mallocAt e size next)) where
  size := by
    rintro c n ⟨⟩ hask
    rw [mallocAt_asks hask]
    exact h
  reset := by
    rintro c sync ⟨⟩ hop
    cases hop
  launch := by
    rintro d sync sharedBytes gridThreads r ⟨⟩

theorem launchAlone_separate : Runs.Along (SanWatch.step sanitized) (SanWatch.Separate sanitized) {} launchAlone := by
  have hrounds : ∀ n, n < 2 ^ 63 → Unwrapped sanitized 1 n := by
    intro n hn
    have halign : sanitizeRedzoneBytes sanitized + (alignmentFor (sanitized.device 1) - 1) < 2 ^ 63 := by
      decide +kernel
    unfold Unwrapped
    omega
  refine ⟨mallocAt_separate (hrounds 100 (by norm_num)), ⟨?_, ?_, ?_⟩, mallocAt_separate (hrounds 200 (by norm_num)),
    ⟨?_, ?_, ?_⟩, trivial⟩
  · rintro c n ⟨⟩ hask
    cases hask
  · rintro c sync ⟨⟩ hop
    cases hop
  · rintro d sync sharedBytes gridThreads r ⟨⟩
  · rintro c n ⟨⟩
  · rintro c sync ⟨⟩
  · rintro d sync sharedBytes gridThreads r ⟨⟩
    refine ⟨fun e he => ?_, .inl (by decide +kernel), by decide +kernel⟩
    -- only device 1 has been called
    have hcall : ∀ (y : SanWatch) (c : Call), c.device = 1 →
        (y.step sanitized (.call c)).ledger.extents e = y.ledger.extents e := by
      intro y c hc
      exact Ledger.note_of_ne (by rw [hc]; exact he) _
    rw [hcall _ _ rfl, hcall _ _ rfl, hcall _ _ rfl]

theorem arms_isolated_alone :
    Runs.Along (SanWatch.step sanitized) (SanWatch.ArmsIsolated sanitized) {} launchAlone :=
  arms_isolated sanitized rfl launchAlone launchAlone_driver launchAlone_separate

/-- The table of the first device has the size of the block of the second. -/
theorem arms_isolated_not : ¬∀ (P : Platform) (cs : List SanCall), P.sanitize = true →
    Runs.Along (SanWatch.step P) SanWatch.DriverOk {} cs →
      Runs.Along (SanWatch.step P) (SanWatch.ArmsIsolated P) {} cs := by
  intro h
  have hdriver : Runs.Along (SanWatch.step sanitized) SanWatch.DriverOk {} launchBeside := by
    refine ⟨mallocAt_driverOk (by norm_num) (by decide +kernel), mallocAt_driverOk (by norm_num) (by decide +kernel),
      driverOk_of_request ?_, trivial⟩
    rintro c ⟨⟩
  obtain ⟨-, -, harms, -⟩ := h sanitized launchBeside rfl hdriver
  obtain ⟨t, ht, -, htable, -⟩ := harms 0 none 0 32 true {} rfl (by decide +kernel)
  have hledger : ((Runs.after (SanWatch.step sanitized) {} (launchBeside.take 2)).ledger.extents 0).entries =
      [(4096, ⟨4096, 100, 1, 1⟩)] := by decide +kernel
  have hblock : (((Runs.after (SanWatch.step sanitized) {} (launchBeside.take 2)).context.call sanitized
      (.launch 0 none 0 32 true {})).1.map.blocks 0).map (fun t => (t.numExtents, t.extents 0)) =
        some (1, ⟨4096, 200, 1, 2⟩) := by decide +kernel
  have hnum := congrArg (Option.map fun t : SanState => (t.numExtents, t.extents 0)) ht
  obtain ⟨hone, hsize⟩ := Prod.mk.inj (Option.some.inj (hblock.symm.trans hnum))
  have htable : (List.range t.numExtents.toNat).map t.extents = [⟨4096, 100, 1, 1⟩] :=
    htable.trans (congrArg (List.map fun e => e.2) hledger)
  rw [← hone] at htable
  have hextent : t.extents 0 = ⟨4096, 100, 1, 1⟩ := (List.cons.inj htable).1
  rw [← hsize] at hextent
  exact absurd hextent (by decide)

end Grxcp.Runtime
