import Grxcp.Lib.Extents
import Grxcp.Lib.Runs
import Grxcp.Runtime.Memory

/-!
# The heap of one device

What the allocator is to one device: regions of its memory in the order they came, each with a free
list of its own, and the blocks cut from them or backed by buffers of their own. Nothing here names
a slab by index and nothing belongs to another device, so this is the statement of what the shared
containers of `memory.cpp` are for; `HeapView` shows that each device sees exactly this.

Everything a call can do is a sequence of seven kinds of edit (`Edit`), and the ownership invariant
(`Sound`) is kept by each of them: every point of a region is free, or in one live block, or in one
quarantined block, and in one of these only.
-/

namespace Grxcp.Runtime

/-- A slab as its device sees it. -/
structure Region where
  buffer : Option Buffer
  base : ℕ
  size : ℕ
  npu : Bool
  free : Extents

/-- The region has the point. -/
def Region.Contains (r : Region) (x : ℕ) : Prop :=
  r.base ≤ x ∧ x < r.base + r.size

instance (r : Region) (x : ℕ) : Decidable (r.Contains x) :=
  inferInstanceAs (Decidable (_ ∧ _))

/-- A region with nothing taken from it. -/
def Region.whole (buffer : Option Buffer) (base size : ℕ) (npu : Bool) : Region :=
  { buffer, base, size, npu, free := Extents.single base size }

/-- Change the free list if the point is the region's. -/
def Region.edit (r : Region) (x : ℕ) (f : Extents → Extents) : Region :=
  if r.Contains x then { r with free := f r.free } else r

/-- The block has the point. -/
def Block.Occupies (a : Block) (x : ℕ) : Prop :=
  a.base ≤ x ∧ x < a.base + a.size

/-- The memory of one device. -/
structure DeviceHeap where
  regions : List Region := []
  live : OrdMap ℕ Block := .empty
  held : List Block := []

namespace DeviceHeap

/-! ## The operations -/

/-- Change the free list of the region a point is in. -/
def edit (h : DeviceHeap) (x : ℕ) (f : Extents → Extents) : DeviceHeap :=
  { h with regions := h.regions.map (·.edit x f) }

/-- Add a region. -/
def grow (h : DeviceHeap) (r : Region) : DeviceHeap :=
  { h with regions := h.regions ++ [r] }

/-- Make a block live. -/
def place (h : DeviceHeap) (a : Block) : DeviceHeap :=
  { h with live := h.live.insert a.base a }

/-- Make a block not live. -/
def drop (h : DeviceHeap) (a : Block) : DeviceHeap :=
  { h with live := h.live.erase a.base }

/-- The best of the regions' best extents: the smallest that fits, and the first such. -/
def bestFit (fits : ℕ → ℕ → Bool) (rs : List Region) : Option (ℕ × ℕ) :=
  rs.foldl (fun best r => OrdMap.better best (r.free.firstLeast fits (2 ^ 64 - 1)) (2 ^ 64 - 1)) none

/-- Take the front of the best extent. -/
def take (h : DeviceHeap) (bytes align : ℕ) : Option (ℕ × DeviceHeap) :=
  (bestFit (fun base size => base % align = 0 && bytes ≤ size) h.regions).map fun e =>
    (e.1, h.edit e.1 fun m => m.carve e.1 e.2 bytes)

/-- The block at a base cut from the region it is in. -/
def cut (h : DeviceHeap) (e base size : ℕ) (managed : Bool) : Block :=
  match h.regions.find? (·.Contains base) with
  | some r => { buffer := r.buffer, base, size, offset := base - r.base, device := e, managed }
  | none => { base, size, device := e, managed }

/-- The window of an NPU, if it is not there yet. -/
def window (P : Platform) (h : DeviceHeap) (e : ℕ) : Except GrxError DeviceHeap :=
  let total := (P.device e).totalGlobalMem.toNat
  if h.regions.any (·.npu) then .ok h
  else if total ≤ kMinAlign then .error .memoryAllocation
  else .ok (h.grow (.whole none kMinAlign (total - kMinAlign) true))

/-- An allocation from the window of an NPU. -/
def allocateNpu (P : Platform) (h : DeviceHeap) (e need : ℕ) (managed : Bool) :
    DeviceHeap × Except GrxError ℕ :=
  match h.window P e with
  | .error r => (h, .error r)
  | .ok h =>
      match h.take need (alignmentFor (P.device e)) with
      | none => (h, .error .memoryAllocation)
      | some (base, h) => (h.place (h.cut e base need managed), .ok base)

/-- An allocation with a buffer of its own. -/
def allocateDirect (h : DeviceHeap) (e need : ℕ) (managed physical : Bool) (drv : Driver) :
    DeviceHeap × Except GrxError ℕ :=
  match drv.create need with
  | .error r => (h, .error r)
  | .ok (buffer, base) =>
      (h.place { buffer := some buffer, base, size := need, device := e, direct := true, managed,
                 physical }, .ok base)

/-- An allocation from a region, a new one if need be. -/
def allocateSlab (P : Platform) (h : DeviceHeap) (e need : ℕ) (managed : Bool) (drv : Driver) :
    DeviceHeap × Except GrxError ℕ :=
  let align := alignmentFor (P.device e)
  match h.take need align with
  | some (base, h) => (h.place (h.cut e base need managed), .ok base)
  | none =>
      let bytes := if slabSize P < need then alignUp need align else slabSize P
      match drv.create bytes with
      | .error r => (h, .error r)
      | .ok (buffer, base) =>
          let h := h.grow (.whole (some buffer) base bytes false)
          match h.take need align with
          | some (base, h) => (h.place (h.cut e base need managed), .ok base)
          | none => (h, .error .memoryAllocation)

/-- An allocation of any kind once the device is acquired. -/
def allocate (P : Platform) (h : DeviceHeap) (e need : ℕ) (managed physical : Bool) (drv : Driver) :
    DeviceHeap × Except GrxError ℕ :=
  match (P.device e).type with
  | .pta => (h, .error .notSupported)
  | .npu => h.allocateNpu P e need managed
  | .gpu =>
      if physical = true ∨ slabSize P / kDirectDivisor ≤ need then
        h.allocateDirect e need managed physical drv
      else h.allocateSlab P e need managed drv

/-- What a block that is no longer wanted becomes. -/
def free (P : Platform) (h : DeviceHeap) (address : ℕ) : DeviceHeap × Except GrxError ℕ :=
  if address = 0 then (h, .ok 0)
  else
    match h.live.find? address with
    | none => (h, .error .invalidDevicePointer)
    | some a =>
        if P.sanitize then ({ h.drop a with held := a :: h.held }, .ok 0)
        else if a.direct then (h.drop a, .ok 0)
        else ((h.drop a).edit a.base fun m => m.give a.base a.size, .ok 0)

/-- Everything is given up; a window comes back whole. -/
def reset (h : DeviceHeap) : DeviceHeap where
  regions := (h.regions.filter (·.npu)).map fun r => .whole r.buffer r.base r.size true
  held := h.held.filter (·.direct)

/-- A call of the allocator by its own device. -/
def call (P : Platform) (h : DeviceHeap) (e : ℕ) : Op → DeviceHeap × Except GrxError ℕ
  | .malloc r =>
      if r.out = false then (h, .error .invalidValue)
      else if r.size = 0 then (h, .ok 0)
      else
        match r.acquire with
        | some x => (h, .error x)
        | none => h.allocate P e (need P e r.size) false false r.driver
  | .mallocPhysical r =>
      if r.out = false then (h, .error .invalidValue)
      else if r.size = 0 then (h, .ok 0)
      else
        match r.acquire with
        | some x => (h, .error x)
        | none => h.allocate P e (need P e r.size) false true r.driver
  | .mallocManaged r =>
      if r.out = false then (h, .error .invalidValue)
      else
        match r.acquire with
        | some x => (h, .error x)
        | none =>
            if (P.device e).managedMemory = false then (h, .error .notSupported)
            else h.allocate P e (need P e r.size) true false r.driver
  | .free address => h.free P address
  | .reset sync => (h.reset, match sync with | some r => .error r | none => .ok 0)

/-! ## Edits -/

/-- A block that the device has not given up. -/
def Owned (h : DeviceHeap) (a : Block) : Prop :=
  h.live.Has a.base a ∨ a ∈ h.held

/-- A point that is free. -/
def FreeAt (h : DeviceHeap) (x : ℕ) : Prop :=
  ∃ r ∈ h.regions, r.free.Covers x

/-- A point of memory that the driver has given out. -/
def Taken (h : DeviceHeap) (x : ℕ) : Prop :=
  (∃ r ∈ h.regions, r.Contains x) ∨ ∃ a, h.Owned a ∧ a.direct = true ∧ a.Occupies x

end DeviceHeap

/-- The block is a part of the region, at its place in the buffer. -/
structure Block.In (a : Block) (r : Region) : Prop where
  buffer : a.buffer = r.buffer
  offset : a.offset = a.base - r.base
  start : r.Contains a.base
  stop : a.base + a.size ≤ r.base + r.size

/-- The block is a whole buffer. -/
structure Block.Alone (a : Block) : Prop where
  offset : a.offset = 0
  start : 0 < a.base
  size : 0 < a.size
  stop : a.base + a.size < 2 ^ 64

/-- The region is one that its device can have. -/
structure Region.Proper (r : Region) (d : Device) : Prop where
  start : 0 < r.base
  size : 0 < r.size
  stop : r.base + r.size < 2 ^ 64
  npu : d.type = .npu → r.npu = true ∧ r.buffer = none

namespace DeviceHeap

/-- What a step of a call does, where `ok` holds of the sizes of the blocks that are made. -/
inductive Edit (P : Platform) (e : ℕ) (ok : ℕ → Prop) (h : DeviceHeap) : DeviceHeap → Prop
  | grow (r : Region) (proper : r.Proper (P.device e)) (whole : r.free = .single r.base r.size)
      (fresh : ∀ x, r.Contains x → ¬h.Taken x) : Edit P e ok h (h.grow r)
  | cut (r : Region) (n : ℕ) (a : Block) (mem : r ∈ h.regions) (has : r.free.Has a.base n)
      (fits : a.size ≤ n) (isOk : ok a.size) (place : a.In r) (indirect : a.direct = false)
      (owner : a.device = e) :
      Edit P e ok h ((h.edit a.base fun m => m.carve a.base n a.size).place a)
  | direct (a : Block) (isOk : ok a.size) (alone : a.Alone) (isDirect : a.direct = true)
      (owner : a.device = e) (gpu : (P.device e).type ≠ .npu)
      (fresh : ∀ x, a.Occupies x → ¬h.Taken x) : Edit P e ok h (h.place a)
  | giveBack (a : Block) (live : h.live.Has a.base a) (indirect : a.direct = false)
      (recycles : P.sanitize = false) :
      Edit P e ok h ((h.edit a.base fun m => m.give a.base a.size).drop a)
  | release (a : Block) (live : h.live.Has a.base a) (isDirect : a.direct = true)
      (recycles : P.sanitize = false) : Edit P e ok h (h.drop a)
  | hold (a : Block) (live : h.live.Has a.base a) (sanitize : P.sanitize = true) :
      Edit P e ok h { h.drop a with held := a :: h.held }
  | clear (none : ∀ r ∈ h.regions, r.npu = false) : Edit P e ok h h.reset

/-- The regions lie apart, and each has its own free extents. -/
structure Laid (P : Platform) (e : ℕ) (h : DeviceHeap) : Prop where
  apart : h.regions.Pairwise fun r r' => ∀ x, r.Contains x → ¬r'.Contains x
  proper : ∀ r ∈ h.regions, r.Proper (P.device e)
  free_apart : ∀ r ∈ h.regions, r.free.Apart
  free_in : ∀ r ∈ h.regions, ∀ b n, r.free.Has b n → r.Contains b ∧ b + n ≤ r.base + r.size

/-- Every point of a region has one owner, and the records say where the blocks are. -/
structure Sound (P : Platform) (e : ℕ) (ok : ℕ → Prop) (h : DeviceHeap) : Prop
    extends Laid P e h where
  live_key : ∀ b a, h.live.Has b a → a.base = b ∧ a.device = e ∧ ok a.size
  owned_in : ∀ a, h.Owned a → a.direct = false → ∃ r ∈ h.regions, a.In r
  owned_out : ∀ a, h.Owned a → a.direct = true → a.Alone ∧ (P.device e).type ≠ .npu ∧
    ∀ x, a.Occupies x → ∀ r ∈ h.regions, ¬r.Contains x
  owned_free : ∀ a x, h.Owned a → a.Occupies x → ¬h.FreeAt x
  live_live : ∀ a a' x, h.live.Has a.base a → h.live.Has a'.base a' → a.Occupies x →
    a'.Occupies x → a.base = a'.base
  live_held : ∀ a a' x, h.live.Has a.base a → a' ∈ h.held → a.Occupies x → ¬a'.Occupies x
  held_held : h.held.Pairwise fun a a' => ∀ x, a.Occupies x → ¬a'.Occupies x
  covered : ∀ r ∈ h.regions, ∀ x, r.Contains x → h.FreeAt x ∨ ∃ a, h.Owned a ∧ a.Occupies x
  free_key : ∀ r ∈ h.regions, ∀ b n a, r.free.Has b n → h.live.Has b a → a.size = 0

end DeviceHeap

/-! ## Regions -/

namespace Region

variable (r : Region) (x : ℕ) (f : Extents → Extents)

@[simp] theorem edit_base : (r.edit x f).base = r.base := by
  unfold edit; split <;> rfl

@[simp] theorem edit_size : (r.edit x f).size = r.size := by
  unfold edit; split <;> rfl

@[simp] theorem edit_buffer : (r.edit x f).buffer = r.buffer := by
  unfold edit; split <;> rfl

@[simp] theorem edit_npu : (r.edit x f).npu = r.npu := by
  unfold edit; split <;> rfl

@[simp] theorem edit_contains (y : ℕ) : (r.edit x f).Contains y ↔ r.Contains y := by
  simp [Contains]

variable {r x}

theorem edit_free_of_contains (h : r.Contains x) : (r.edit x f).free = f r.free := by
  simp [edit, h]

theorem edit_of_not_contains (h : ¬r.Contains x) : r.edit x f = r := by
  simp [edit, h]

theorem Proper.edit {d : Device} (h : r.Proper d) : (r.edit x f).Proper d where
  start := by simpa using h.start
  size := by simpa using h.size
  stop := by simpa using h.stop
  npu := by simpa using h.npu

end Region

@[simp] theorem Block.in_edit {a : Block} {r : Region} {x : ℕ} {f : Extents → Extents} :
    a.In (r.edit x f) ↔ a.In r := by
  constructor
  · rintro ⟨h₁, h₂, h₃, h₄⟩
    exact ⟨by simpa using h₁, by simpa using h₂, by simpa using h₃, by simpa using h₄⟩
  · rintro ⟨h₁, h₂, h₃, h₄⟩
    exact ⟨by simpa using h₁, by simpa using h₂, by simpa using h₃, by simpa using h₄⟩

/-- A block has its points in the region it is a part of. -/
theorem Block.In.contains {a : Block} {r : Region} (h : a.In r) {x : ℕ} (hx : a.Occupies x) :
    r.Contains x :=
  ⟨h.start.1.trans hx.1, hx.2.trans_le h.stop⟩

namespace DeviceHeap

variable {P : Platform} {e : ℕ} {ok : ℕ → Prop} {h : DeviceHeap}

theorem mem_edit {x : ℕ} {f : Extents → Extents} {r' : Region} :
    r' ∈ (h.edit x f).regions ↔ ∃ r ∈ h.regions, r.edit x f = r' :=
  List.mem_map

/-- A point is in one region at most. -/
theorem Laid.unique (hl : h.Laid P e) {r r' : Region} (hr : r ∈ h.regions) (hr' : r' ∈ h.regions)
    {x : ℕ} (hx : r.Contains x) (hx' : r'.Contains x) : r = r' := by
  by_contra hne
  have : Std.Symm fun r r' : Region => ∀ x, r.Contains x → ¬r'.Contains x :=
    ⟨fun _ _ h x hx hx' => h x hx' hx⟩
  exact hl.apart.forall hr hr' hne x hx hx'

theorem Laid.congr (hl : h.Laid P e) {h' : DeviceHeap} (hr : h'.regions = h.regions) :
    h'.Laid P e := by
  obtain ⟨h₁, h₂, h₃, h₄⟩ := hl
  exact ⟨hr ▸ h₁, hr ▸ h₂, hr ▸ h₃, hr ▸ h₄⟩

/-- The free points of a region are its own. -/
theorem Laid.contains_of_covers (hl : h.Laid P e) {r : Region} (hr : r ∈ h.regions) {x : ℕ}
    (hx : r.free.Covers x) : r.Contains x := by
  obtain ⟨b, n, hb, hx⟩ := hx
  obtain ⟨hc, hle⟩ := hl.free_in r hr b n hb
  exact ⟨hc.1.trans hx.1, hx.2.trans_le hle⟩

theorem Laid.freeAt_iff (hl : h.Laid P e) {r : Region} (hr : r ∈ h.regions) {x : ℕ}
    (hx : r.Contains x) : h.FreeAt x ↔ r.free.Covers x := by
  constructor
  · rintro ⟨r', hr', hc⟩
    rwa [hl.unique hr hr' hx (hl.contains_of_covers hr' hc)]
  · exact fun hc => ⟨r, hr, hc⟩

/-- An edit of a region's free list changes what is free there. -/
theorem Laid.freeAt_edit (hl : h.Laid P e) {r : Region} (hr : r ∈ h.regions) {x : ℕ}
    (hx : r.Contains x) (f : Extents → Extents) (y : ℕ) :
    (h.edit x f).FreeAt y ↔ (f r.free).Covers y ∨ h.FreeAt y ∧ ¬r.free.Covers y := by
  constructor
  · rintro ⟨r', hr', hy⟩
    obtain ⟨q, hq, rfl⟩ := mem_edit.mp hr'
    by_cases hqx : q.Contains x
    · obtain rfl := hl.unique hr hq hx hqx
      rw [Region.edit_free_of_contains f hx] at hy
      exact .inl hy
    · rw [Region.edit_of_not_contains f hqx] at hy
      refine .inr ⟨⟨q, hq, hy⟩, fun hry => hqx ?_⟩
      have := hl.unique hr hq (hl.contains_of_covers hr hry) (hl.contains_of_covers hq hy)
      exact this ▸ hx
  · rintro (hy | ⟨⟨q, hq, hy⟩, hny⟩)
    · exact ⟨_, mem_edit.mpr ⟨r, hr, rfl⟩, by rwa [Region.edit_free_of_contains f hx]⟩
    · have hqx : ¬q.Contains x := fun hqx => hny (hl.unique hr hq hx hqx ▸ hy)
      exact ⟨_, mem_edit.mpr ⟨q, hq, rfl⟩, by rwa [Region.edit_of_not_contains f hqx]⟩

theorem Laid.within (hl : h.Laid P e) {r : Region} (hr : r ∈ h.regions) :
    r.free.Within r.base (r.base + r.size) := fun b n hb =>
  ⟨(hl.free_in r hr b n hb).1.1, (hl.free_in r hr b n hb).2⟩

/-- An edit that keeps one region's free list in order keeps the layout. -/
theorem Laid.edit (hl : h.Laid P e) {r : Region} (hr : r ∈ h.regions) {x : ℕ} (hx : r.Contains x)
    (f : Extents → Extents) (hap : (f r.free).Apart)
    (hin : ∀ b n, (f r.free).Has b n → r.Contains b ∧ b + n ≤ r.base + r.size) :
    (h.edit x f).Laid P e where
  apart := by
    have := hl.apart
    simp only [DeviceHeap.edit]
    rw [List.pairwise_map]
    simpa using this
  proper := by
    intro r' hr'
    obtain ⟨q, hq, rfl⟩ := mem_edit.mp hr'
    exact (hl.proper q hq).edit f
  free_apart := by
    intro r' hr'
    obtain ⟨q, hq, rfl⟩ := mem_edit.mp hr'
    by_cases hqx : q.Contains x
    · obtain rfl := hl.unique hr hq hx hqx
      rwa [Region.edit_free_of_contains f hx]
    · rw [Region.edit_of_not_contains f hqx]
      exact hl.free_apart q hq
  free_in := by
    intro r' hr' b n hb
    obtain ⟨q, hq, rfl⟩ := mem_edit.mp hr'
    by_cases hqx : q.Contains x
    · obtain rfl := hl.unique hr hq hx hqx
      rw [Region.edit_free_of_contains f hx] at hb
      simpa using hin b n hb
    · rw [Region.edit_of_not_contains f hqx] at hb ⊢
      exact hl.free_in q hq b n hb

/-! ## What each edit keeps -/

theorem Sound.taken (hs : h.Sound P e ok) {a : Block} (ha : h.Owned a) {x : ℕ}
    (hx : a.Occupies x) : h.Taken x := by
  cases hd : a.direct with
  | false =>
    obtain ⟨r, hr, hin⟩ := hs.owned_in a ha hd
    exact .inl ⟨r, hr, hin.contains hx⟩
  | true => exact .inr ⟨a, ha, hd, hx⟩

theorem Sound.owned_of_live (hs : h.Sound P e ok) {b : ℕ} {a : Block} (ha : h.live.Has b a) :
    h.Owned a := by
  obtain ⟨rfl, -⟩ := hs.live_key b a ha
  exact .inl ha

theorem Sound.taken_key (hs : h.Sound P e ok) {b : ℕ} {a : Block} (ha : h.live.Has b a) :
    h.Taken b := by
  have ho := hs.owned_of_live ha
  obtain ⟨rfl, -⟩ := hs.live_key b a ha
  cases hd : a.direct with
  | false =>
    obtain ⟨r, hr, hin⟩ := hs.owned_in a ho hd
    exact .inl ⟨r, hr, hin.start⟩
  | true =>
    have hsize := (hs.owned_out a ho hd).1.size
    exact .inr ⟨a, ho, hd, le_rfl, by omega⟩

private theorem single_has {base size b n : ℕ} (h : (Extents.single base size).Has b n) :
    b = base ∧ n = size := by
  simpa [Extents.single] using h

theorem Sound.grow (hs : h.Sound P e ok) {r : Region} (hp : r.Proper (P.device e))
    (hw : r.free = .single r.base r.size) (hf : ∀ x, r.Contains x → ¬h.Taken x) :
    (h.grow r).Sound P e ok := by
  have hfree : ∀ x, (h.grow r).FreeAt x → h.FreeAt x ∨ r.Contains x := by
    rintro x ⟨r', hr', hx⟩
    rcases List.mem_append.mp hr' with hr' | hr'
    · exact .inl ⟨r', hr', hx⟩
    · obtain rfl := List.mem_singleton.mp hr'
      rw [hw, Extents.covers_single] at hx
      exact .inr hx
  refine ⟨⟨?_, ?_, ?_, ?_⟩, hs.live_key, ?_, ?_, ?_, hs.live_live, hs.live_held, hs.held_held, ?_, ?_⟩
  · refine List.pairwise_append.mpr ⟨hs.apart, List.pairwise_singleton _ _, ?_⟩
    intro r' hr' q hq x hx
    obtain rfl := List.mem_singleton.mp hq
    exact fun hqx => hf x hqx (.inl ⟨r', hr', hx⟩)
  · intro r' hr'
    rcases List.mem_append.mp hr' with hr' | hr'
    · exact hs.proper r' hr'
    · exact List.mem_singleton.mp hr' ▸ hp
  · intro r' hr'
    rcases List.mem_append.mp hr' with hr' | hr'
    · exact hs.free_apart r' hr'
    · rw [List.mem_singleton.mp hr', hw]
      exact Extents.apart_single _ _
  · intro r' hr' b n hb
    rcases List.mem_append.mp hr' with hr' | hr'
    · exact hs.free_in r' hr' b n hb
    · obtain rfl := List.mem_singleton.mp hr'
      rw [hw] at hb
      obtain ⟨rfl, rfl⟩ := single_has hb
      exact ⟨⟨le_rfl, by have := hp.size; omega⟩, le_rfl⟩
  · intro a ha hd
    obtain ⟨r', hr', hin⟩ := hs.owned_in a ha hd
    exact ⟨r', List.mem_append_left _ hr', hin⟩
  · intro a ha hd
    obtain ⟨halone, hgpu, hout⟩ := hs.owned_out a ha hd
    refine ⟨halone, hgpu, fun x hx r' hr' hr'x => ?_⟩
    rcases List.mem_append.mp hr' with hr' | hr'
    · exact hout x hx r' hr' hr'x
    · obtain rfl := List.mem_singleton.mp hr'
      exact hf x hr'x (hs.taken ha hx)
  · intro a x ha hx hc
    rcases hfree x hc with hc | hc
    · exact hs.owned_free a x ha hx hc
    · exact hf x hc (hs.taken ha hx)
  · intro r' hr' x hx
    rcases List.mem_append.mp hr' with hr' | hr'
    · rcases hs.covered r' hr' x hx with ⟨q, hq, hc⟩ | ho
      · exact .inl ⟨q, List.mem_append_left _ hq, hc⟩
      · exact .inr ho
    · refine .inl ⟨r', List.mem_append_right _ hr', ?_⟩
      obtain rfl := List.mem_singleton.mp hr'
      rw [hw, Extents.covers_single]
      exact hx
  · intro r' hr' b n a hb ha
    rcases List.mem_append.mp hr' with hr' | hr'
    · exact hs.free_key r' hr' b n a hb ha
    · obtain rfl := List.mem_singleton.mp hr'
      rw [hw] at hb
      obtain ⟨rfl, rfl⟩ := single_has hb
      refine absurd (hs.taken_key ha) (hf _ ⟨le_rfl, ?_⟩)
      have := hp.size
      omega

@[simp] theorem place_live_has {a c : Block} {b : ℕ} :
    (h.place a).live.Has b c ↔ b = a.base ∧ c = a ∨ b ≠ a.base ∧ h.live.Has b c :=
  OrdMap.has_insert

@[simp] theorem drop_live_has {a c : Block} {b : ℕ} :
    (h.drop a).live.Has b c ↔ h.live.Has b c ∧ b ≠ a.base :=
  OrdMap.has_erase

theorem Sound.cut (hs : h.Sound P e ok) {r : Region} {n : ℕ} {a : Block} (hr : r ∈ h.regions)
    (hn : r.free.Has a.base n) (hle : a.size ≤ n) (hok : ok a.size) (hin : a.In r)
    (hd : a.direct = false) (he : a.device = e) :
    ((h.edit a.base fun m => m.carve a.base n a.size).place a).Sound P e ok := by
  have hap := hs.free_apart r hr
  have hrest : ∀ x, a.base ≤ x → x < a.base + n → h.FreeAt x :=
    fun x h₁ h₂ => ⟨r, hr, a.base, n, hn, h₁, h₂⟩
  have hfree : ∀ x, ((h.edit a.base fun m => m.carve a.base n a.size).place a).FreeAt x ↔
      h.FreeAt x ∧ ¬a.Occupies x := by
    intro x
    refine (hs.toLaid.freeAt_edit hr hin.start _ x).trans ?_
    rw [Extents.covers_carve hap hn hle]
    constructor
    · rintro (⟨hc, hx⟩ | ⟨hf, hc⟩)
      · exact ⟨⟨r, hr, hc⟩, hx⟩
      · exact ⟨hf, fun hx => hc ⟨a.base, n, hn, hx.1, hx.2.trans_le (by omega)⟩⟩
    · rintro ⟨hf, hx⟩
      by_cases hc : r.free.Covers x
      · exact .inl ⟨hc, hx⟩
      · exact .inr ⟨hf, hc⟩
  have howned : ∀ c, ((h.edit a.base fun m => m.carve a.base n a.size).place a).Owned c →
      c = a ∨ h.Owned c := by
    rintro c (hc | hc)
    · rcases place_live_has.mp hc with ⟨-, rfl⟩ | ⟨-, hc⟩
      · exact .inl rfl
      · exact .inr (.inl hc)
    · exact .inr (.inr hc)
  refine ⟨(hs.toLaid.edit hr hin.start _ (Extents.apart_carve hap hn) ?_).congr rfl, ?_, ?_, ?_,
    ?_, ?_, ?_, hs.held_held, ?_, ?_⟩
  · intro b m hb
    have hfull := (hs.free_in r hr _ _ hn).2
    have hb' := Extents.within_carve (hs.toLaid.within hr) hn b m hb
    rcases Extents.has_carve hb with ⟨hlt, rfl⟩ | ⟨-, w, hw⟩
    · exact ⟨⟨hb'.1, by omega⟩, hb'.2⟩
    · exact ⟨(hs.free_in r hr b w hw).1, hb'.2⟩
  · intro b c hc
    rcases place_live_has.mp hc with ⟨rfl, rfl⟩ | ⟨-, hc⟩
    · exact ⟨rfl, he, hok⟩
    · exact hs.live_key b c hc
  · intro c hc hcd
    rcases howned c hc with rfl | hc
    · exact ⟨_, mem_edit.mpr ⟨r, hr, rfl⟩, Block.in_edit.mpr hin⟩
    · obtain ⟨q, hq, hcq⟩ := hs.owned_in c hc hcd
      exact ⟨_, mem_edit.mpr ⟨q, hq, rfl⟩, Block.in_edit.mpr hcq⟩
  · intro c hc hcd
    rcases howned c hc with rfl | hc
    · rw [hd] at hcd
      cases hcd
    · obtain ⟨halone, hgpu, hout⟩ := hs.owned_out c hc hcd
      refine ⟨halone, hgpu, fun x hx r' hr' => ?_⟩
      obtain ⟨q, hq, rfl⟩ := mem_edit.mp hr'
      simpa using hout x hx q hq
  · intro c x hc hx hf
    obtain ⟨hf, hna⟩ := (hfree x).mp hf
    rcases howned c hc with rfl | hc
    · exact hna hx
    · exact hs.owned_free c x hc hx hf
  · -- a point of the new block was free, so no older block has it
    intro c c' x hc hc' hx hx'
    have hold : ∀ c, h.live.Has c.base c → a.Occupies x → ¬c.Occupies x := fun c hc hax hcx =>
      hs.owned_free c x (.inl hc) hcx (hrest x hax.1 (hax.2.trans_le (by omega)))
    rcases place_live_has.mp hc with ⟨-, rfl⟩ | ⟨-, hc⟩
    · rcases place_live_has.mp hc' with ⟨h, -⟩ | ⟨-, hc'⟩
      · exact h.symm
      · exact absurd hx' (hold c' hc' hx)
    · rcases place_live_has.mp hc' with ⟨-, rfl⟩ | ⟨-, hc'⟩
      · exact absurd hx (hold c hc hx')
      · exact hs.live_live c c' x hc hc' hx hx'
  · intro c c' x hc hc' hx hx'
    rcases place_live_has.mp hc with ⟨-, rfl⟩ | ⟨-, hc⟩
    · exact hs.owned_free c' x (.inr hc') hx' (hrest x hx.1 (hx.2.trans_le (by omega)))
    · exact hs.live_held c c' x hc hc' hx hx'
  · intro r' hr' x hx
    obtain ⟨q, hq, rfl⟩ := mem_edit.mp hr'
    by_cases hax : a.Occupies x
    · exact .inr ⟨a, .inl (place_live_has.mpr (.inl ⟨rfl, rfl⟩)), hax⟩
    · rcases hs.covered q hq x (by simpa using hx) with hf | ⟨c, hc, hcx⟩
      · exact .inl ((hfree x).mpr ⟨hf, hax⟩)
      · refine .inr ⟨c, ?_, hcx⟩
        rcases hc with hc | hc
        · refine .inl (place_live_has.mpr (.inr ⟨fun hk => ?_, hc⟩))
          -- what was live at the block's base had no points
          have := hs.free_key r hr a.base n c hn (hk ▸ hc)
          have := hcx.1
          have := hcx.2
          omega
        · exact .inr hc
  · intro r' hr' b m c hb hc
    obtain ⟨q, hq, rfl⟩ := mem_edit.mp hr'
    by_cases hqa : q.Contains a.base
    · obtain rfl := hs.toLaid.unique hr hq hin.start hqa
      rw [Region.edit_free_of_contains _ hqa] at hb
      rcases place_live_has.mp hc with ⟨rfl, rfl⟩ | ⟨-, hc⟩
      · rcases Extents.has_carve hb with ⟨-, hk⟩ | ⟨hne, -⟩
        · omega
        · exact absurd rfl hne
      · rcases Extents.has_carve hb with ⟨hlt, rfl⟩ | ⟨-, w, hw⟩
        · by_contra hpos
          have hkey := (hs.live_key _ _ hc).1
          exact hs.owned_free c _ (hs.owned_of_live hc) ⟨hkey.le, by omega⟩
            (hrest (a.base + a.size) (by omega) (by omega))
        · exact hs.free_key r hr b w c hw hc
    · rw [Region.edit_of_not_contains _ hqa] at hb
      have hqb := (hs.free_in q hq b m hb).1
      rcases place_live_has.mp hc with ⟨rfl, -⟩ | ⟨-, hc⟩
      · exact absurd hqb hqa
      · exact hs.free_key q hq b m c hb hc

theorem Sound.direct (hs : h.Sound P e ok) {a : Block} (hok : ok a.size) (ha : a.Alone)
    (hd : a.direct = true) (he : a.device = e) (hgpu : (P.device e).type ≠ .npu)
    (hf : ∀ x, a.Occupies x → ¬h.Taken x) : (h.place a).Sound P e ok := by
  have hbase : a.Occupies a.base := ⟨le_rfl, by have := ha.size; omega⟩
  have hnew : ∀ c, ¬h.live.Has a.base c := fun c hc => hf _ hbase (hs.taken_key hc)
  have howned : ∀ c, (h.place a).Owned c → c = a ∨ h.Owned c := by
    rintro c (hc | hc)
    · rcases place_live_has.mp hc with ⟨-, rfl⟩ | ⟨-, hc⟩
      · exact .inl rfl
      · exact .inr (.inl hc)
    · exact .inr (.inr hc)
  refine ⟨hs.toLaid.congr rfl, ?_, ?_, ?_, ?_, ?_, ?_, hs.held_held, ?_, ?_⟩
  · intro b c hc
    rcases place_live_has.mp hc with ⟨rfl, rfl⟩ | ⟨-, hc⟩
    · exact ⟨rfl, he, hok⟩
    · exact hs.live_key b c hc
  · intro c hc hcd
    rcases howned c hc with rfl | hc
    · rw [hd] at hcd
      cases hcd
    · exact hs.owned_in c hc hcd
  · intro c hc hcd
    rcases howned c hc with rfl | hc
    · exact ⟨ha, hgpu, fun x hx r hr hrx => hf x hx (.inl ⟨r, hr, hrx⟩)⟩
    · exact hs.owned_out c hc hcd
  · intro c x hc hx hfree
    rcases howned c hc with rfl | hc
    · obtain ⟨r, hr, hrx⟩ := hfree
      exact hf x hx (.inl ⟨r, hr, hs.toLaid.contains_of_covers hr hrx⟩)
    · exact hs.owned_free c x hc hx hfree
  · intro c c' x hc hc' hx hx'
    rcases place_live_has.mp hc with ⟨-, rfl⟩ | ⟨-, hold⟩
    · rcases place_live_has.mp hc' with ⟨h, -⟩ | ⟨-, hc'⟩
      · exact h.symm
      · exact absurd (hs.taken (.inl hc') hx') (hf x hx)
    · rcases place_live_has.mp hc' with ⟨-, rfl⟩ | ⟨-, hold'⟩
      · exact absurd (hs.taken (.inl hold) hx) (hf x hx')
      · exact hs.live_live c c' x hold hold' hx hx'
  · intro c c' x hc hc' hx hx'
    rcases place_live_has.mp hc with ⟨-, rfl⟩ | ⟨-, hc⟩
    · exact hf x hx (hs.taken (.inr hc') hx')
    · exact hs.live_held c c' x hc hc' hx hx'
  · intro r hr x hx
    rcases hs.covered r hr x hx with hfree | ⟨c, hc, hcx⟩
    · exact .inl hfree
    · refine .inr ⟨c, ?_, hcx⟩
      rcases hc with hc | hc
      · exact .inl (place_live_has.mpr (.inr ⟨fun hk => hnew c (hk ▸ hc), hc⟩))
      · exact .inr hc
  · intro r hr b n c hb hc
    rcases place_live_has.mp hc with ⟨rfl, rfl⟩ | ⟨-, hc⟩
    · exact absurd (.inl ⟨r, hr, (hs.free_in r hr _ n hb).1⟩) (hf _ hbase)
    · exact hs.free_key r hr b n c hb hc

theorem Sound.giveBack (hs : h.Sound P e ok) {a : Block} (ha : h.live.Has a.base a)
    (hd : a.direct = false) :
    ((h.edit a.base fun m => m.give a.base a.size).drop a).Sound P e ok := by
  obtain ⟨r, hr, hin⟩ := hs.owned_in a (.inl ha) hd
  have hfresh : r.free.Fresh a.base a.size := fun x h₁ h₂ hc =>
    hs.owned_free a x (.inl ha) ⟨h₁, h₂⟩ ⟨r, hr, hc⟩
  have hap := hs.free_apart r hr
  have hfree : ∀ x, ((h.edit a.base fun m => m.give a.base a.size).drop a).FreeAt x ↔
      h.FreeAt x ∨ a.Occupies x := by
    intro x
    refine (hs.toLaid.freeAt_edit hr hin.start _ x).trans ?_
    rw [Extents.covers_give hfresh]
    constructor
    · rintro ((hc | hx) | ⟨hf, -⟩)
      · exact .inl ⟨r, hr, hc⟩
      · exact .inr hx
      · exact .inl hf
    · rintro (hf | hx)
      · by_cases hc : r.free.Covers x
        · exact .inl (.inl hc)
        · exact .inr ⟨hf, hc⟩
      · exact .inl (.inr hx)
  have howned : ∀ c, ((h.edit a.base fun m => m.give a.base a.size).drop a).Owned c →
      h.Owned c := by
    rintro c (hc | hc)
    · exact .inl (drop_live_has.mp hc).1
    · exact .inr hc
  refine ⟨(hs.toLaid.edit hr hin.start _ (Extents.apart_give hap hfresh) ?_).congr rfl, ?_, ?_, ?_,
    ?_, ?_, ?_, hs.held_held, ?_, ?_⟩
  · intro b m hb
    refine ⟨?_, (Extents.within_give (hs.toLaid.within hr) hin.start.1 hin.stop b m hb).2⟩
    rcases Extents.has_give hb with rfl | ⟨w, hw⟩
    · exact hin.start
    · exact (hs.free_in r hr b w hw).1
  · intro b c hc
    exact hs.live_key b c (drop_live_has.mp hc).1
  · intro c hc hcd
    obtain ⟨q, hq, hcq⟩ := hs.owned_in c (howned c hc) hcd
    exact ⟨_, mem_edit.mpr ⟨q, hq, rfl⟩, Block.in_edit.mpr hcq⟩
  · intro c hc hcd
    obtain ⟨halone, hgpu, hout⟩ := hs.owned_out c (howned c hc) hcd
    refine ⟨halone, hgpu, fun x hx r' hr' => ?_⟩
    obtain ⟨q, hq, rfl⟩ := mem_edit.mp hr'
    simpa using hout x hx q hq
  · intro c x hc hx hf
    rcases (hfree x).mp hf with hf | hax
    · exact hs.owned_free c x (howned c hc) hx hf
    · rcases hc with hc | hc
      · obtain ⟨hc, hne⟩ := drop_live_has.mp hc
        exact hne (hs.live_live c a x hc ha hx hax)
      · exact hs.live_held a c x ha hc hax hx
  · intro c c' x hc hc'
    exact hs.live_live c c' x (drop_live_has.mp hc).1 (drop_live_has.mp hc').1
  · intro c c' x hc hc'
    exact hs.live_held c c' x (drop_live_has.mp hc).1 hc'
  · intro r' hr' x hx
    obtain ⟨q, hq, rfl⟩ := mem_edit.mp hr'
    rcases hs.covered q hq x (by simpa using hx) with hf | ⟨c, hc, hcx⟩
    · exact .inl ((hfree x).mpr (.inl hf))
    · rcases hc with hc | hc
      · by_cases hk : c.base = a.base
        · have hca : c = a := hc.unique (hk ▸ ha)
          exact .inl ((hfree x).mpr (.inr (hca ▸ hcx)))
        · exact .inr ⟨c, .inl (drop_live_has.mpr ⟨hc, hk⟩), hcx⟩
      · exact .inr ⟨c, .inr hc, hcx⟩
  · intro r' hr' b m c hb hc
    obtain ⟨hc, hne⟩ := drop_live_has.mp hc
    obtain ⟨q, hq, rfl⟩ := mem_edit.mp hr'
    by_cases hqa : q.Contains a.base
    · rw [Region.edit_free_of_contains _ hqa] at hb
      rcases Extents.has_give hb with rfl | ⟨w, hw⟩
      · exact absurd rfl hne
      · exact hs.free_key q hq b w c hw hc
    · rw [Region.edit_of_not_contains _ hqa] at hb
      exact hs.free_key q hq b m c hb hc

/-- A block that is no part of a region can go without a trace. -/
theorem Sound.release (hs : h.Sound P e ok) {a : Block} (ha : h.live.Has a.base a)
    (hd : a.direct = true) : (h.drop a).Sound P e ok := by
  have howned : ∀ c, (h.drop a).Owned c → h.Owned c := by
    rintro c (hc | hc)
    · exact .inl (drop_live_has.mp hc).1
    · exact .inr hc
  refine ⟨hs.toLaid.congr rfl, fun b c hc => hs.live_key b c (drop_live_has.mp hc).1,
    fun c hc => hs.owned_in c (howned c hc), fun c hc => hs.owned_out c (howned c hc),
    fun c x hc => hs.owned_free c x (howned c hc), ?_, ?_, hs.held_held, ?_, ?_⟩
  · intro c c' x hc hc'
    exact hs.live_live c c' x (drop_live_has.mp hc).1 (drop_live_has.mp hc').1
  · intro c c' x hc hc'
    exact hs.live_held c c' x (drop_live_has.mp hc).1 hc'
  · intro r hr x hx
    rcases hs.covered r hr x hx with hf | ⟨c, hc, hcx⟩
    · exact .inl hf
    · rcases hc with hc | hc
      · refine .inr ⟨c, .inl (drop_live_has.mpr ⟨hc, fun hk => ?_⟩), hcx⟩
        have hca : c = a := hc.unique (hk ▸ ha)
        exact (hs.owned_out a (.inl ha) hd).2.2 x (hca ▸ hcx) r hr hx
      · exact .inr ⟨c, .inr hc, hcx⟩
  · intro r hr b n c hb hc
    exact hs.free_key r hr b n c hb (drop_live_has.mp hc).1

theorem Sound.hold (hs : h.Sound P e ok) {a : Block} (ha : h.live.Has a.base a) :
    Sound P e ok { h.drop a with held := a :: h.held } := by
  have howned : ∀ c, DeviceHeap.Owned { h.drop a with held := a :: h.held } c ↔ h.Owned c := by
    intro c
    constructor
    · rintro (hc | hc)
      · exact .inl (drop_live_has.mp hc).1
      · rcases List.mem_cons.mp hc with rfl | hc
        · exact .inl ha
        · exact .inr hc
    · rintro (hc | hc)
      · by_cases hk : c.base = a.base
        · have hca : c = a := hc.unique (hk ▸ ha)
          exact .inr (hca ▸ List.mem_cons_self)
        · exact .inl (drop_live_has.mpr ⟨hc, hk⟩)
      · exact .inr (List.mem_cons_of_mem _ hc)
  refine ⟨hs.toLaid.congr rfl, fun b c hc => hs.live_key b c (drop_live_has.mp hc).1,
    fun c hc => hs.owned_in c ((howned c).mp hc), fun c hc => hs.owned_out c ((howned c).mp hc),
    fun c x hc => hs.owned_free c x ((howned c).mp hc), ?_, ?_, ?_, ?_, ?_⟩
  · intro c c' x hc hc'
    exact hs.live_live c c' x (drop_live_has.mp hc).1 (drop_live_has.mp hc').1
  · intro c c' x hc hc' hx
    obtain ⟨hlive, hne⟩ := drop_live_has.mp hc
    rcases List.mem_cons.mp hc' with rfl | hheld
    · exact fun hx' => hne (hs.live_live c c' x hlive ha hx hx')
    · exact hs.live_held c c' x hlive hheld hx
  · exact List.pairwise_cons.mpr ⟨fun c hc x => hs.live_held a c x ha hc, hs.held_held⟩
  · intro r hr x hx
    rcases hs.covered r hr x hx with hf | ⟨c, hc, hcx⟩
    · exact .inl hf
    · exact .inr ⟨c, (howned c).mpr hc, hcx⟩
  · intro r hr b n c hb hc
    exact hs.free_key r hr b n c hb (drop_live_has.mp hc).1

theorem Sound.clear (hs : h.Sound P e ok) (hn : ∀ r ∈ h.regions, r.npu = false) :
    h.reset.Sound P e ok := by
  have hregions : h.reset.regions = [] := by
    simp only [DeviceHeap.reset]
    rw [List.filter_eq_nil_iff.mpr (by simpa using hn), List.map_nil]
  have hheld : ∀ c, h.reset.Owned c → c ∈ h.held ∧ c.direct = true := by
    rintro c (hc | hc)
    · exact absurd hc (OrdMap.not_has_empty _ _)
    · exact List.mem_filter.mp hc
  have hnone : ∀ x, ¬h.reset.FreeAt x := by
    rintro x ⟨r, hr, -⟩
    rw [hregions] at hr
    cases hr
  refine ⟨⟨by rw [hregions]; exact .nil, ?_, ?_, ?_⟩, ?_, ?_, ?_, ?_, ?_, ?_, ?_, ?_, ?_⟩
  · simp [hregions]
  · simp [hregions]
  · simp [hregions]
  · exact fun b c hc => absurd hc (OrdMap.not_has_empty _ _)
  · intro c hc hd
    rw [(hheld c hc).2] at hd
    cases hd
  · intro c hc hd
    obtain ⟨halone, hgpu, -⟩ := hs.owned_out c (.inr (hheld c hc).1) hd
    exact ⟨halone, hgpu, by simp [hregions]⟩
  · exact fun c x _ _ => hnone x
  · exact fun c c' x hc => absurd hc (OrdMap.not_has_empty _ _)
  · exact fun c c' x hc => absurd hc (OrdMap.not_has_empty _ _)
  · exact hs.held_held.filter _
  · simp [hregions]
  · simp [hregions]

/-- Every edit keeps the ownership invariant. -/
theorem Edit.sound {h' : DeviceHeap} (hedit : Edit P e ok h h') (hs : h.Sound P e ok) :
    h'.Sound P e ok := by
  cases hedit with
  | grow r proper whole fresh => exact hs.grow proper whole fresh
  | cut r n a mem has fits isOk place indirect owner =>
    exact hs.cut mem has fits isOk place indirect owner
  | direct a isOk alone isDirect owner gpu fresh => exact hs.direct isOk alone isDirect owner gpu fresh
  | giveBack a live indirect recycles => exact hs.giveBack live indirect
  | release a live isDirect recycles => exact hs.release live isDirect
  | hold a live sanitize => exact hs.hold live
  | clear none => exact hs.clear none

theorem Sound.empty : ({} : DeviceHeap).Sound P e ok := by
  have howned : ∀ c, ¬({} : DeviceHeap).Owned c := by
    rintro c (hc | hc)
    · exact OrdMap.not_has_empty _ _ hc
    · cases hc
  refine ⟨⟨.nil, by simp, by simp, by simp⟩, fun b c hc => absurd hc (OrdMap.not_has_empty _ _),
    fun c hc => absurd hc (howned c), fun c hc => absurd hc (howned c),
    fun c x hc => absurd hc (howned c), ?_, ?_, .nil, by simp, by simp⟩
  · exact fun c c' x hc => absurd hc (OrdMap.not_has_empty _ _)
  · exact fun c c' x hc => absurd hc (OrdMap.not_has_empty _ _)

/-! ## Blocks of a sound heap -/

/-- Of two blocks, the one that starts first ends before the other. -/
theorem Sound.owned_apart (hs : h.Sound P e ok) {a a' : Block} (ha : h.Owned a) (ha' : h.Owned a')
    (hlt : a.base < a'.base) (hsize : 0 < a'.size) : a.base + a.size ≤ a'.base := by
  by_contra hover
  push Not at hover
  have hx : a.Occupies a'.base := ⟨hlt.le, hover⟩
  have hx' : a'.Occupies a'.base := ⟨le_rfl, by omega⟩
  rcases ha with ha | ha
  · rcases ha' with ha' | ha'
    · exact absurd (hs.live_live a a' a'.base ha ha' hx hx') hlt.ne
    · exact hs.live_held a a' a'.base ha ha' hx hx'
  · rcases ha' with ha' | ha'
    · exact hs.live_held a' a a'.base ha' ha hx' hx
    · have hsymm : Std.Symm fun a a' : Block => ∀ x, a.Occupies x → ¬a'.Occupies x :=
        ⟨fun _ _ h x hx hx' => h x hx' hx⟩
      exact hs.held_held.forall ha ha' (fun heq => hlt.ne (congrArg Block.base heq)) a'.base hx hx'

theorem Sound.owned_stop (hs : h.Sound P e ok) {a : Block} (ha : h.Owned a) : a.base + a.size < 2 ^ 64 := by
  cases hd : a.direct with
  | false =>
    obtain ⟨r, hr, hin⟩ := hs.owned_in a ha hd
    exact hin.stop.trans_lt (hs.proper r hr).stop
  | true => exact (hs.owned_out a ha hd).1.stop

/-- No block is at address 0. -/
theorem Sound.owned_pos (hs : h.Sound P e ok) {a : Block} (ha : h.Owned a) : 0 < a.base := by
  cases hd : a.direct with
  | false =>
    obtain ⟨r, hr, hin⟩ := hs.owned_in a ha hd
    exact (hs.proper r hr).start.trans_le hin.start.1
  | true => exact (hs.owned_out a ha hd).1.start

end DeviceHeap

end Grxcp.Runtime
