import Grxcp.Lib.Runs
import Grxcp.Runtime.Ownership
import Grxcp.Runtime.Memcpy2D

/-!
# The rectangle law of a two-dimensional copy

A rectangle lies in the allocation that has its base pointer, on each side that is a device's, and a
copy of it is one transfer for each row; a copy that fails has transferred nothing (`Rect.Law`). The
rows are classified one by one, so a rectangle that leaves the allocation may go somewhere else, and a
row that is refused comes after the rows before it have gone. The law holds of a call if its first row
is refused already, or if no row leaves its allocation and nothing is refused after the first row
(`memcpy2D_law_iff`).
-/

namespace Grxcp.Runtime

/-! ## The tables -/

/-- The allocations are kept by their device and base, and their sizes are 64-bit words. -/
def Heap.Keyed (s : Heap) : Prop :=
  ∀ k a, s.live.Has k a → k = toLex (a.device, a.base) ∧ a.size < 2 ^ 64

section Keyed

variable {P : Platform} {s : Heap} {e : ℕ}

theorem Heap.Keyed.empty : ({} : Heap).Keyed := by
  intro k a h
  cases h

theorem Heap.Keyed.congr (h : s.Keyed) {s' : Heap} (hlive : s'.live = s.live) : s'.Keyed := by
  intro k a ha
  rw [hlive] at ha
  exact h k a ha

theorem Heap.Keyed.place (h : s.Keyed) {a : Allocation} (ha : a.size < 2 ^ 64) :
    (s.place a).Keyed := by
  intro k b hb
  have hb : (s.live.insert (toLex (a.device, a.base)) a).Has k b := hb
  rw [OrdMap.has_insert] at hb
  rcases hb with ⟨rfl, rfl⟩ | ⟨-, hb⟩
  · exact ⟨rfl, ha⟩
  · exact h k b hb

theorem need_lt (P : Platform) (e bytes : ℕ) : need P e bytes < 2 ^ 64 :=
  BitVec.isLt _

theorem takeBestFit_live {bytes align base slab : ℕ} {s' : Heap}
    (h : takeBestFit s e bytes align = some (base, slab, s')) : s'.live = s.live := by
  unfold takeBestFit at h
  split at h
  · cases h
  · cases h
    rfl

theorem Heap.Keyed.allocateNpu (h : s.Keyed) {align need : ℕ} (hneed : need < 2 ^ 64)
    (managed : Bool) : (Runtime.allocateNpu P s e align need managed).1.Keyed := by
  unfold Runtime.allocateNpu
  cases hwindow : ensureNpuWindow P s e with
  | error r => exact h
  | ok s₁ =>
    have h₁ : s₁.Keyed := by
      unfold ensureNpuWindow at hwindow
      dsimp only at hwindow
      split at hwindow
      · cases hwindow
        exact h
      · split at hwindow
        · cases hwindow
        · cases hwindow
          exact h.congr rfl
    dsimp only
    split
    · exact h₁
    next htake =>
      exact (h₁.congr (takeBestFit_live htake)).place hneed

theorem Heap.Keyed.allocateDirect (h : s.Keyed) {need : ℕ} (hneed : need < 2 ^ 64)
    (managed physical : Bool) (drv : Driver) :
    (Runtime.allocateDirect s e need managed physical drv).1.Keyed := by
  unfold Runtime.allocateDirect
  split
  · exact h
  · exact h.place hneed

theorem Heap.Keyed.allocateSlab (h : s.Keyed) {need : ℕ} (hneed : need < 2 ^ 64) (managed : Bool)
    (drv : Driver) : (Runtime.allocateSlab P s e need managed drv).1.Keyed := by
  unfold Runtime.allocateSlab
  dsimp only
  split
  next htake => exact (h.congr (takeBestFit_live htake)).place hneed
  · generalize (if slabSize P < need then alignUp need (alignmentFor (P.device e))
      else slabSize P) = bytes
    cases hadd : addSlab s e bytes drv with
    | error r => exact h
    | ok s₁ =>
      have h₁ : s₁.Keyed := by
        unfold addSlab at hadd
        split at hadd
        · cases hadd
        · cases hadd
          exact h.congr rfl
      dsimp only
      split
      next htake => exact (h₁.congr (takeBestFit_live htake)).place hneed
      · exact h₁

theorem Heap.Keyed.allocateDevice (h : s.Keyed) (bytes : ℕ) (managed : Bool)
    (acquire : Option GrxError) (drv : Driver) :
    (Runtime.allocateDevice P s e bytes managed acquire drv).1.Keyed := by
  unfold Runtime.allocateDevice
  split
  · exact h
  · split
    · exact h
    · exact h.allocateNpu (need_lt P e bytes) managed
    · split
      · exact h.allocateDirect (need_lt P e bytes) managed false drv
      · exact h.allocateSlab (need_lt P e bytes) managed drv

theorem Heap.Keyed.step (h : s.Keyed) (c : Call) : (s.step P c).Keyed := by
  obtain ⟨device, op⟩ := c
  cases op with
  | malloc r =>
    show (grxMalloc P s device r).1.Keyed
    unfold grxMalloc
    split
    · exact h
    · split
      · exact h
      · exact h.allocateDevice _ _ _ _
  | mallocPhysical r =>
    show (grxMallocPhysical P s device r).1.Keyed
    unfold grxMallocPhysical allocateDevicePhysical
    split
    · exact h
    · split
      · exact h
      · split
        · exact h
        · split
          · exact h
          · exact h.allocateNpu (need_lt P device _) false
          · exact h.allocateDirect (need_lt P device _) false true _
  | mallocManaged r =>
    show (grxMallocManaged P s device r).1.Keyed
    unfold grxMallocManaged
    split
    · exact h
    · split
      · exact h
      · split
        · exact h
        · exact h.allocateDevice _ _ _ _
  | free address =>
    show (grxFree P s device address).1.Keyed
    have herase : ∀ s' : Heap, s'.live = s.live.erase (toLex (device, address)) → s'.Keyed := by
      intro s' hlive k a ha
      rw [hlive, OrdMap.has_erase] at ha
      exact h k a ha.1
    unfold grxFree
    split
    · exact h
    · split
      · exact h
      · dsimp only
        split
        · exact herase _ rfl
        · split
          · exact herase _ rfl
          · exact herase _ rfl
  | reset sync =>
    intro k a ha
    have ha : (s.live.filter fun k _ => (ofLex k).1 ≠ device).Has k a := ha
    rw [OrdMap.has_filter] at ha
    exact h k a ha.1

/-- What `find_locked` finds is an allocation of the device, and the address is not below it. -/
theorem Heap.Keyed.findLocked (h : s.Keyed) {x : ℕ} {a : Allocation}
    (hfind : Runtime.findLocked s e x = some a) :
    a.device = e ∧ a.base ≤ x ∧ x < add64 a.base a.size ∧ a.size < 2 ^ 64 := by
  unfold Runtime.findLocked at hfind
  split at hfind
  · cases hfind
  next k b hmost =>
    split at hfind
    · cases hfind
    next hdevice =>
      split at hfind
      · cases hfind
      next hin =>
        cases hfind
        obtain ⟨hkey, hsize⟩ := h _ _ (OrdMap.atMost_eq_some_iff.mp hmost).1
        rw [hkey] at hdevice
        exact ⟨not_not.mp hdevice, by omega, by omega, hsize⟩

end Keyed

/-! ## Statements -/

/-- `base + row * pitch`, as a number that does not wrap. -/
def rowStart (base pitch : BitVec 64) (row : ℕ) : ℕ :=
  base.toNat + row * pitch.toNat

/-- The place of an address that an allocation has. -/
def Allocation.place (P : Platform) (a : Allocation) (address : ℕ) : Place :=
  if (P.device a.device).type = .npu then .ddr a.device address
  else .buffer a.buffer (add64 a.offset (address - a.base))

namespace Context

/-- The allocation of the current device that has an address. -/
def owner (x : Context) (address : ℕ) : Option Allocation :=
  findLocked x.heap x.current address

/-- The place of an address of a rectangle, by the allocation that has its base pointer. -/
def placeFrom (P : Platform) (x : Context) (base address : ℕ) : Place :=
  match x.owner base with
  | none => .host address
  | some a => a.place P address

/-- A row is inside an allocation of the current device. -/
structure RowIn (x : Context) (a : Allocation) (start width : ℕ) : Prop where
  found : x.owner start = some a
  ends : start + width ≤ a.base + a.size

/-- On a device's side, every row is inside the allocation that has the base pointer. -/
def Inside (x : Context) (base pitch : BitVec 64) (width height : ℕ) : Prop :=
  ∀ a, x.owner base.toNat = some a → ∀ row < height, x.RowIn a (rowStart base pitch row) width

end Context

namespace Rect

/-- The transfer of a row of the rectangle. -/
def transfer (P : Platform) (x : Context) (q : Rect) (row : ℕ) : Transfer where
  dst := x.placeFrom P q.dst.toNat (rowStart q.dst q.dpitch row)
  src := x.placeFrom P q.src.toNat (rowStart q.src q.spitch row)
  count := q.width.toNat

/-- The rectangle row by row. Rows without bytes are none. -/
def transfers (P : Platform) (x : Context) (q : Rect) : List Transfer :=
  if q.width = 0 then [] else (List.range q.height.toNat).map (q.transfer P x)

/-- A copy that succeeds has rows that are each inside the allocation of the base pointer, and
transfers exactly the rectangle; a copy that fails transfers nothing. -/
structure Law (P : Platform) (x : Context) (q : Rect) (out : Outcome) : Prop where
  inside : out.result = .ok () → q.width ≠ 0 →
    x.Inside q.dst q.dpitch q.width.toNat q.height.toNat ∧
      x.Inside q.src q.spitch q.width.toNat q.height.toNat
  exact : out.result = .ok () → out.moved = q.transfers P x
  nothing : ∀ e, out.result = .error e → out.moved = []

end Rect

/-- A copy that succeeds writes no byte that is not of the rectangle. -/
theorem Rect.Law.elsewhere {P : Platform} {x : Context} {q : Rect} {out : Outcome}
    (h : q.Law P x out) (hok : out.result = .ok ()) {p : Place}
    (hp : ∀ row < q.height.toNat, ∀ i < q.width.toNat,
      (x.placeFrom P q.dst.toNat (rowStart q.dst q.dpitch row)).skip i ≠ p) (m : Place → UInt8) :
    carry m out.moved p = m p := by
  rw [h.exact hok]
  apply carry_elsewhere
  intro t ht i hi
  unfold Rect.transfers at ht
  split at ht
  · cases ht
  · obtain ⟨row, hrow, rfl⟩ := List.mem_map.mp ht
    exact hp row (List.mem_range.mp hrow) i hi

/-! ## When the law holds -/

/-- No row of a side leaves what its first byte is in: the allocation that has the base pointer, or the
host's memory. An NPU's addresses are 32 bits. -/
def Context.Straight (P : Platform) (x : Context) (base pitch : BitVec 64) (width height : ℕ) :
    Prop :=
  match x.owner base.toNat with
  | some a => ∀ row < height, x.RowIn a (rowStart base pitch row) width ∧
      ((P.device x.current).type = .npu → rowStart base pitch row < 2 ^ 32)
  | none => ∀ row < height, rowStart base pitch row < 2 ^ 64 ∧
      (x.classify (rowStart base pitch row)).isDevice = false ∧
      (x.classify (rowStart base pitch row)).foreign = none

namespace Rect

/-- One of the sides is a device's. -/
def OnDevice (x : Context) (q : Rect) : Prop :=
  x.owner q.dst.toNat ≠ none ∨ x.owner q.src.toNat ≠ none

/-- The first row is refused: the copy of it alone fails. -/
def Refused (P : Platform) (x : Context) (q : Rect) (kind : MemcpyKind) (r : RowReplies) : Prop :=
  ∃ e, (Context.enqueueCopy P x q.dst.toNat q.src.toNat q.width.toNat kind none r).2 = .error e

/-- After the first row nothing is refused: not a row, and not the wait at the end. -/
structure Answered (P : Platform) (x : Context) (q : Rect) (rows : ℕ → RowReplies)
    (sync : Replies) (finish : Option VxError) : Prop where
  npu : q.OnDevice x → (P.device x.current).type = .npu →
    q.width.toNat < 2 ^ 32 ∧
      ∀ row < q.height.toNat, (rows row).acquire = none ∧ (rows row).npu = none
  driver : q.OnDevice x → (P.device x.current).type ≠ .npu →
    ∀ row < q.height.toNat, 0 < row → (rows row).enqueue = none
  stream : ¬ (q.OnDevice x ∧ (P.device x.current).type ≠ .npu) →
    (Streams.stateOf P x.streams none x.current sync).2 ≠ none
  finish : finish = none

/-- There is no row to copy, the pitches are refused, the first row is, or no row goes astray and
nothing is refused after the first. -/
def Sound (P : Platform) (x : Context) (q : Rect) (kind : MemcpyKind) (rows : ℕ → RowReplies)
    (sync : Replies) (finish : Option VxError) : Prop :=
  q.width = 0 ∨ q.height = 0 ∨ q.dpitch < q.width ∨ q.spitch < q.width ∨
    q.Refused P x kind (rows 0) ∨
    x.Straight P q.dst q.dpitch q.width.toNat q.height.toNat ∧
      x.Straight P q.src q.spitch q.width.toNat q.height.toNat ∧
      q.Answered P x rows sync finish

end Rect

/-! ## One side of a row -/

section Side

variable {P : Platform} {x : Context} {base pitch : BitVec 64} {width height row address : ℕ}
  {a : Allocation}

theorem rowAddress_eq (base pitch : BitVec 64) (row : ℕ) :
    rowAddress base pitch row = rowStart base pitch row % 2 ^ 64 := by
  simp only [rowAddress, rowStart, BitVec.toNat_add, BitVec.toNat_mul, BitVec.toNat_ofNat]
  rw [Nat.add_mod_mod, Nat.add_mod, Nat.mod_mul_mod, ← Nat.add_mod]

theorem rowAddress_of_lt (h : rowStart base pitch row < 2 ^ 64) :
    rowAddress base pitch row = rowStart base pitch row := by
  rw [rowAddress_eq, Nat.mod_eq_of_lt h]

theorem rowAddress_lt (base pitch : BitVec 64) (row : ℕ) : rowAddress base pitch row < 2 ^ 64 :=
  BitVec.isLt _

theorem rowAddress_zero (base pitch : BitVec 64) : rowAddress base pitch 0 = base.toNat := by
  simp [rowAddress]

theorem classify_none (h : x.owner address = none) : (x.classify address).isDevice = false := by
  have hlookup : x.lookupDevicePointer address = none := by
    unfold Context.lookupDevicePointer lookupDevicePointerOn
    rw [Option.map_eq_none_iff]
    exact h
  unfold Context.classify
  rw [hlookup]
  dsimp only
  split <;> rfl

/-- The endpoint of an address that an allocation has. -/
theorem classify_some (h : x.owner address = some a) : x.classify address =
    { isDevice := true
      map := { buffer := a.buffer, base := a.base, offset := add64 a.offset (sub64 address a.base),
               size := sub64 a.size (sub64 address a.base), device := a.device,
               managed := a.managed, physical := a.physical } } := by
  have hlookup : x.lookupDevicePointer address =
      some { buffer := a.buffer, base := a.base, offset := add64 a.offset (sub64 address a.base),
             size := sub64 a.size (sub64 address a.base), device := a.device,
             managed := a.managed, physical := a.physical } := by
    unfold Context.lookupDevicePointer lookupDevicePointerOn
    rw [Option.map_eq_some_iff]
    exact ⟨a, h, rfl⟩
  unfold Context.classify
  rw [hlookup]

theorem isDevice_iff : (x.classify address).isDevice = true ↔ x.owner address ≠ none := by
  cases h : x.owner address with
  | none => simp [classify_none h]
  | some a => simp [classify_some h]

/-- The endpoint of a row is where the rectangle's row is. -/
structure Follows (P : Platform) (x : Context) (base pitch : BitVec 64) (width row : ℕ) :
    Prop where
  address : rowAddress base pitch row = rowStart base pitch row
  isDevice : (x.classify (rowStart base pitch row)).isDevice = true ↔ x.owner base.toNat ≠ none
  foreign : (x.classify (rowStart base pitch row)).foreign = none
  fits : (x.classify (rowStart base pitch row)).isDevice = true →
    width ≤ (x.classify (rowStart base pitch row)).map.size
  device : (x.classify (rowStart base pitch row)).isDevice = true →
    (x.classify (rowStart base pitch row)).map.device = x.current
  place : (x.owner base.toNat ≠ none → (P.device x.current).type ≠ .npu) →
    (x.classify (rowStart base pitch row)).place (rowStart base pitch row) =
      x.placeFrom P base.toNat (rowStart base pitch row)
  ddr : (P.device x.current).type = .npu →
    (x.classify (rowStart base pitch row)).ddrPlace x.current (rowStart base pitch row) =
      x.placeFrom P base.toNat (rowStart base pitch row)

theorem Context.Straight.follows (hk : x.heap.Keyed) (h : x.Straight P base pitch width height)
    (hrow : row < height) : Follows P x base pitch width row := by
  unfold Context.Straight at h
  cases howner : x.owner base.toNat with
  | none =>
    rw [howner] at h
    obtain ⟨hlt, hhost, hforeign⟩ := h row hrow
    refine ⟨rowAddress_of_lt hlt, ?_, hforeign, ?_, ?_, ?_, ?_⟩
    · simp [hhost, howner]
    · intro hdev
      rw [hhost] at hdev
      cases hdev
    · intro hdev
      rw [hhost] at hdev
      cases hdev
    · intro _
      simp [Endpoint.place, Context.placeFrom, hhost, howner]
    · intro _
      simp [Endpoint.ddrPlace, Context.placeFrom, hhost, howner]
  | some a =>
    rw [howner] at h
    obtain ⟨⟨hfound, hends⟩, hnpu⟩ := h row hrow
    obtain ⟨hdevice, hlow, hhigh, hsize⟩ := hk.findLocked hfound
    have hlt : rowStart base pitch row < 2 ^ 64 :=
      lt_trans hhigh (Nat.mod_lt _ (by norm_num))
    have hdelta : sub64 (rowStart base pitch row) a.base = rowStart base pitch row - a.base :=
      sub64_of_le hlow hlt
    have hclass := classify_some hfound
    refine ⟨rowAddress_of_lt hlt, ?_, ?_, ?_, ?_, ?_, ?_⟩
    · simp [hclass, howner]
    · rw [hclass]
    · intro _
      rw [hclass]
      show width ≤ sub64 a.size (sub64 (rowStart base pitch row) a.base)
      rw [hdelta, sub64_of_le (by omega) hsize]
      omega
    · intro _
      rw [hclass]
      exact hdevice
    · intro hgpu
      have hgpu := hgpu (by simp [howner])
      rw [hclass]
      simp [Endpoint.place, Context.placeFrom, Allocation.place, howner, hdevice, hgpu, hdelta]
    · intro htype
      rw [hclass]
      simpa [Endpoint.ddrPlace, Context.placeFrom, Allocation.place, howner, hdevice, htype]
        using hnpu htype

end Side

/-! ## One row -/

section Row

variable {P : Platform} {x : Context} {q : Rect} {kind : MemcpyKind} {row : ℕ}
  {streams : Streams} {r : RowReplies}

/-- The plan of a row. -/
def Rect.plan (P : Platform) (x : Context) (q : Rect) (kind : MemcpyKind) (row : ℕ)
    (r : RowReplies) : Plan :=
  Context.copyPlan P x (rowAddress q.dst q.dpitch row) (rowAddress q.src q.spitch row)
    q.width.toNat kind r.npu r.acquire

/-- The transfer of a row, as the code makes it. -/
def Rect.made (P : Platform) (x : Context) (q : Rect) (kind : MemcpyKind) (row : ℕ)
    (r : RowReplies) : Option Transfer :=
  transferOf (q.plan P x kind row r) (x.classify (rowAddress q.dst q.dpitch row))
    (x.classify (rowAddress q.src q.spitch row)) (rowAddress q.dst q.dpitch row)
    (rowAddress q.src q.spitch row) q.width.toNat

/-- The checks of a row. -/
def Rect.Passes (x : Context) (q : Rect) (kind : MemcpyKind) (row : ℕ) : Prop :=
  x.Passes (rowAddress q.dst q.dpitch row) (rowAddress q.src q.spitch row) q.width.toNat kind

/-- A row that is issued: its plan does not fail, and the driver does not refuse it. -/
def Rect.Taken (P : Platform) (x : Context) (q : Rect) (kind : MemcpyKind) (row : ℕ)
    (r : RowReplies) : Prop :=
  (∀ e, q.plan P x kind row r ≠ .fail e) ∧
    ∀ device work, q.plan P x kind row r = .enqueue device work → r.enqueue = none

/-- The null stream that a row needs is there. -/
def Rect.Ready (P : Platform) (x : Context) (q : Rect) (kind : MemcpyKind) (row : ℕ)
    (r : RowReplies) (streams : Streams) : Prop :=
  ∀ device work, q.plan P x kind row r = .enqueue device work →
    streams.nullStreams.find? device ≠ none

/-- A row changes the streams only, and what it transfers does not depend on them. It fails, or it is
taken, and then the null stream that it needs is there. -/
theorem row_cases (P : Platform) (x : Context) (q : Rect) (kind : MemcpyKind) (row : ℕ)
    (r : RowReplies) (streams : Streams) :
    ∃ streams' res, Context.enqueueCopy P { x with streams } (rowAddress q.dst q.dpitch row)
        (rowAddress q.src q.spitch row) q.width.toNat kind none r =
        ({ x with streams := streams' }, res) ∧
      ((∀ device work, q.plan P x kind row r ≠ .enqueue device work) → streams' = streams) ∧
      ((∃ e, res = .error e ∧ ¬ (q.Taken P x kind row r ∧ q.Ready P x kind row r streams)) ∨
        res = .ok (q.made P x kind row r) ∧ q.Taken P x kind row r ∧
          q.Ready P x kind row r streams') := by
  have hcopy : ∀ (x' : Context) (res : Except GrxError Unit),
      Context.carryOut P { x with streams } (q.plan P x kind row r) none r.toReplies = (x', res) →
      Context.enqueueCopy P { x with streams } (rowAddress q.dst q.dpitch row)
          (rowAddress q.src q.spitch row) q.width.toNat kind none r =
        (x', res.map fun _ => q.made P x kind row r) := by
    intro x' res h
    have hcarry : Context.carryOut P { x with streams } (Context.copyPlan P { x with streams }
        (rowAddress q.dst q.dpitch row) (rowAddress q.src q.spitch row) q.width.toNat kind r.npu
        r.acquire) none r.toReplies = (x', res) := h
    unfold Context.enqueueCopy
    dsimp only
    rw [hcarry]
    cases res <;> rfl
  unfold Rect.Taken Rect.Ready
  cases hplan : q.plan P x kind row r with
  | fail e =>
    have hcarry := hcopy { x with streams } (.error e) (by rw [hplan]; rfl)
    exact ⟨streams, _, hcarry, fun _ => rfl, .inl ⟨e, rfl, fun h => h.1.1 e rfl⟩⟩
  | finish =>
    have hcarry := hcopy { x with streams } (.ok ()) (by rw [hplan]; rfl)
    exact ⟨streams, _, hcarry, fun _ => rfl, .inr ⟨rfl, ⟨by simp, by simp⟩, by simp⟩⟩
  | copied device =>
    have hcarry := hcopy { x with streams } (.ok ()) (by rw [hplan]; rfl)
    exact ⟨streams, _, hcarry, fun _ => rfl, .inr ⟨rfl, ⟨by simp, by simp⟩, by simp⟩⟩
  | enqueue device work =>
    rcases Streams.submit_cases P streams none device (.work work) r.toReplies fun s _ => s with
      ⟨e, hsubmit, hnone⟩ | ⟨t, hlook, hdriver, hsubmit⟩
    · refine ⟨(Streams.resolveStream P streams none device r.toReplies).1, .error e, ?_,
        fun hno => absurd rfl (hno device work), .inl ⟨e, rfl, ?_⟩⟩
      · refine hcopy _ (.error e) ?_
        rw [hplan]
        simp only [Context.carryOut, hsubmit]
      · rintro ⟨⟨-, hdriver⟩, hready⟩
        have hgone := hnone (hdriver device work rfl)
        obtain ⟨t, ht⟩ := Option.ne_none_iff_exists'.mp (hready device work rfl)
        -- the null stream was there, so resolving it found it
        have hfound : (Streams.resolveStream P streams none device r.toReplies).1 = streams := by
          simp only [Streams.resolveStream, Streams.stateOf, Streams.nullStreamLocked, ht]
        rw [hfound] at hgone
        have hgone : streams.nullStreams.find? device = none := hgone
        rw [ht] at hgone
        cases hgone
    · refine ⟨(Streams.resolveStream P streams none device r.toReplies).1.issued none device t
          (.work work) fun s _ => s, .ok (q.made P x kind row r), ?_,
        fun hno => absurd rfl (hno device work),
        .inr ⟨rfl, ⟨by simp, fun _ _ _ => hdriver⟩, ?_⟩⟩
      · refine hcopy _ (.ok ()) ?_
        rw [hplan]
        simp only [Context.carryOut, hsubmit]
      · intro device' work' heq
        cases heq
        have hissues := Streams.issues_issued hlook (.work work) Streams.quiet_id
        have hstate := congrFun hissues.state (keyOf none device)
        rw [Function.update_self] at hstate
        show Streams.state? _ (keyOf none device) ≠ none
        rw [hstate]
        simp

/-- The endpoint of the current device's memory is of the current device. -/
theorem copyDevice_eq (hk : x.heap.Keyed) {dst src : ℕ}
    (h : (x.classify dst).isDevice = true ∨ (x.classify src).isDevice = true) :
    copyDevice (x.classify dst) (x.classify src) = x.current := by
  have hone : ∀ address, (x.classify address).isDevice = true →
      (x.classify address).map.device = x.current := by
    intro address hdev
    obtain ⟨a, ha⟩ := Option.ne_none_iff_exists'.mp (isDevice_iff.mp hdev)
    rw [classify_some ha]
    exact (hk.findLocked ha).1
  unfold copyDevice
  split
  next hdev => exact hone dst hdev
  next hdev => exact hone src (h.resolve_left hdev)

/-- What a row that passes its checks comes to: a copy in the host's memory, one by an NPU, or a
command. -/
theorem plan_cases (hk : x.heap.Keyed) (hw : q.width ≠ 0) (hpass : q.Passes x kind row)
    (r : RowReplies) :
    let d := x.classify (rowAddress q.dst q.dpitch row)
    let s := x.classify (rowAddress q.src q.spitch row)
    d.isDevice = false ∧ s.isDevice = false ∧ q.plan P x kind row r = .finish ∨
      (d.isDevice = true ∨ s.isDevice = true) ∧
        (r.acquire = none ∧ (P.device x.current).type = .npu ∧
            ((∃ e, r.npu = some e ∧ q.plan P x kind row r = .fail e) ∨
              r.npu = none ∧ q.plan P x kind row r = .copied x.current) ∨
          ¬ (r.acquire = none ∧ (P.device x.current).type = .npu) ∧
            ∃ work, q.plan P x kind row r = .enqueue x.current work) := by
  intro d s
  have hcount : q.width.toNat ≠ 0 := fun h => hw (BitVec.eq_of_toNat_eq h)
  have hplan := Context.copyPlan_of_passes (P := P) hpass hcount r.npu r.acquire
  change q.plan P x kind row r = _ at hplan
  by_cases hhost : d.isDevice = false ∧ s.isDevice = false
  · rw [if_pos hhost] at hplan
    exact .inl ⟨hhost.1, hhost.2, hplan⟩
  · rw [if_neg hhost] at hplan
    have hdev : d.isDevice = true ∨ s.isDevice = true := by
      by_contra hno
      simp only [not_or, Bool.not_eq_true] at hno
      exact hhost hno
    refine .inr ⟨hdev, ?_⟩
    rw [copyDevice_eq hk hdev] at hplan
    dsimp only at hplan
    by_cases hnpu : r.acquire = none ∧ (P.device x.current).type = .npu
    · rw [if_pos ⟨Option.isNone_iff_eq_none.mpr hnpu.1, hnpu.2⟩] at hplan
      refine .inl ⟨hnpu.1, hnpu.2, ?_⟩
      cases hreply : r.npu with
      | none =>
        rw [hreply] at hplan
        exact .inr ⟨rfl, hplan⟩
      | some e =>
        rw [hreply] at hplan
        exact .inl ⟨e, rfl, hplan⟩
    · rw [if_neg fun h => hnpu ⟨Option.isNone_iff_eq_none.mp h.1, h.2⟩] at hplan
      exact .inr ⟨hnpu, _, hplan⟩

/-- A later row passes the checks that the first row passed. -/
theorem passes_of_follows (hd : Follows P x q.dst q.dpitch q.width.toNat row)
    (hs : Follows P x q.src q.spitch q.width.toNat row)
    (hfirst : x.Passes q.dst.toNat q.src.toNat q.width.toNat kind) : q.Passes x kind row := by
  have hsame : ∀ {base pitch : BitVec 64}, Follows P x base pitch q.width.toNat row →
      (x.classify (rowStart base pitch row)).isDevice = (x.classify base.toNat).isDevice := by
    intro base pitch h
    rw [Bool.eq_iff_iff, h.isDevice, isDevice_iff]
  unfold Rect.Passes
  rw [hd.address, hs.address]
  refine ⟨?_, ?_, hd.foreign, hs.foreign, ?_, hd.fits, hs.fits⟩
  · have := hfirst.dst_pos
    unfold rowStart
    omega
  · have := hfirst.src_pos
    unfold rowStart
    omega
  · rw [hsame hd, hsame hs]
    exact hfirst.kind

theorem isDevice_side {base pitch : BitVec 64} {width : ℕ} (h : Follows P x base pitch width row) :
    (x.classify (rowAddress base pitch row)).isDevice = true ↔ x.owner base.toNat ≠ none := by
  rw [h.address]
  exact h.isDevice

/-- A row that follows the base pointers on both sides, and is answered, is taken, and transfers the
row of the rectangle. -/
theorem row_straight (hk : x.heap.Keyed) (hw : q.width ≠ 0)
    (hd : Follows P x q.dst q.dpitch q.width.toNat row)
    (hs : Follows P x q.src q.spitch q.width.toNat row) (hpass : q.Passes x kind row)
    (hnpu : q.OnDevice x → (P.device x.current).type = .npu →
      q.width.toNat < 2 ^ 32 ∧ r.acquire = none ∧ r.npu = none) :
    q.made P x kind row r = some (q.transfer P x row) ∧
      (¬ (q.OnDevice x ∧ (P.device x.current).type ≠ .npu) → q.Taken P x kind row r ∧
        ∀ device work, q.plan P x kind row r ≠ .enqueue device work) ∧
      (q.OnDevice x ∧ (P.device x.current).type ≠ .npu →
        ∃ work, q.plan P x kind row r = .enqueue x.current work) := by
  have hdside := isDevice_side hd
  have hsside := isDevice_side hs
  have hcount : q.width.toNat ≠ 0 := fun h => hw (BitVec.eq_of_toNat_eq h)
  unfold Rect.made Rect.transfer Rect.Taken
  rcases plan_cases hk hw hpass r with ⟨hd0, hs0, hplan⟩ | ⟨hdev, hrest⟩
  · -- both sides are the host's
    have hdnone : x.owner q.dst.toNat = none := by
      by_contra hno
      rw [hdside.mpr hno] at hd0
      cases hd0
    have hsnone : x.owner q.src.toNat = none := by
      by_contra hno
      rw [hsside.mpr hno] at hs0
      cases hs0
    rw [hplan]
    refine ⟨?_, fun _ => ⟨⟨by simp, by simp⟩, by simp⟩, fun h => ?_⟩
    · simp [transferOf, hcount, Context.placeFrom, hdnone, hsnone, hd.address, hs.address]
    · exact absurd h.1 (by simp [Rect.OnDevice, hdnone, hsnone])
  · have hon : q.OnDevice x := hdev.imp hdside.mp hsside.mp
    rcases hrest with ⟨hacquire, htype, ⟨e, hreply, -⟩ | ⟨-, hplan⟩⟩ | ⟨hnot, work, hplan⟩
    · rw [(hnpu hon htype).2.2] at hreply
      cases hreply
    · rw [hplan]
      refine ⟨?_, fun _ => ⟨⟨by simp, by simp⟩, by simp⟩, fun h => absurd htype h.2⟩
      have hsmall := (hnpu hon htype).1
      simp only [transferOf, hd.address, hs.address, hd.ddr htype, hs.ddr htype,
        Nat.mod_eq_of_lt hsmall]
    · have hgpu : (P.device x.current).type ≠ .npu :=
        fun htype => hnot ⟨(hnpu hon htype).2.1, htype⟩
      rw [hplan]
      refine ⟨?_, fun h => absurd ⟨hon, hgpu⟩ h, fun _ => ⟨work, rfl⟩⟩
      simp only [transferOf, hd.address, hs.address, hd.place fun _ => hgpu,
        hs.place fun _ => hgpu]

/-- Where a row that transfers the row of the rectangle has its bytes. -/
theorem place_host {base pitch : BitVec 64} {p : Place}
    (hp : p = (x.classify (rowAddress base pitch row)).place (rowAddress base pitch row) ∨
      p = (x.classify (rowAddress base pitch row)).ddrPlace x.current (rowAddress base pitch row))
    (heq : p = x.placeFrom P base.toNat (rowStart base pitch row))
    (howner : x.owner base.toNat = none) :
    rowStart base pitch row < 2 ^ 64 ∧
      (x.classify (rowAddress base pitch row)).isDevice = false := by
  have hhost : p = .host (rowStart base pitch row) := by
    rw [heq]
    simp [Context.placeFrom, howner]
  cases hdev : (x.classify (rowAddress base pitch row)).isDevice with
  | true => rcases hp with hp | hp <;> simp [hhost, Endpoint.place, Endpoint.ddrPlace, hdev] at hp
  | false =>
    have haddress : rowStart base pitch row = rowAddress base pitch row := by
      rcases hp with hp | hp <;> simpa [hhost, Endpoint.place, Endpoint.ddrPlace, hdev] using hp
    refine ⟨?_, rfl⟩
    rw [haddress]
    exact rowAddress_lt base pitch row

/-- A side that is in an NPU's allocation is transferred by the NPU, at an address of 32 bits. -/
theorem place_ddr (hk : x.heap.Keyed) {base pitch : BitVec 64} {p : Place} {a : Allocation}
    (heq : p = x.placeFrom P base.toNat (rowStart base pitch row))
    (howner : x.owner base.toNat = some a) (hnpu : (P.device x.current).type = .npu) :
    (∀ e : Endpoint, ∀ address, p ≠ e.place address) ∧ (∀ address, p ≠ .host address) ∧
      ∀ e : Endpoint, ∀ device address, p = e.ddrPlace device address →
        rowStart base pitch row < 2 ^ 32 := by
  have hddr : p = .ddr x.current (rowStart base pitch row) := by
    rw [heq]
    simp [Context.placeFrom, howner, Allocation.place, (hk.findLocked howner).1, hnpu]
  refine ⟨?_, ?_, ?_⟩
  · intro e address h
    rw [hddr] at h
    unfold Endpoint.place at h
    split at h <;> cases h
  · intro address h
    rw [hddr] at h
    cases h
  · intro e device address h
    rw [hddr] at h
    unfold Endpoint.ddrPlace at h
    split at h
    · rw [(Place.ddr.inj h).2]
      exact Nat.mod_lt _ (by norm_num)
    · cases h

/-- A row that transfers the row of the rectangle is on the host's side in the host's memory, and on an
NPU's it is copied by the NPU. -/
theorem row_exact (hk : x.heap.Keyed) (hw : q.width ≠ 0) (hpass : q.Passes x kind row)
    (hmade : q.made P x kind row r = some (q.transfer P x row)) :
    (x.owner q.dst.toNat = none → rowStart q.dst q.dpitch row < 2 ^ 64 ∧
        (x.classify (rowAddress q.dst q.dpitch row)).isDevice = false) ∧
      (x.owner q.src.toNat = none → rowStart q.src q.spitch row < 2 ^ 64 ∧
        (x.classify (rowAddress q.src q.spitch row)).isDevice = false) ∧
      ((P.device x.current).type = .npu →
        (x.owner q.dst.toNat ≠ none → rowStart q.dst q.dpitch row < 2 ^ 32) ∧
        (x.owner q.src.toNat ≠ none → rowStart q.src q.spitch row < 2 ^ 32) ∧
        (q.OnDevice x → q.width.toNat < 2 ^ 32 ∧ r.acquire = none ∧ r.npu = none)) := by
  unfold Rect.made at hmade
  rcases plan_cases hk hw hpass r with
    ⟨hd0, hs0, hplan⟩ | ⟨hdev, ⟨hacquire, htype, ⟨e, -, hplan⟩ | ⟨hreply, hplan⟩⟩ | ⟨-, work, hplan⟩⟩
  · -- both ends are the host's
    have hcount : q.width.toNat ≠ 0 := fun h => hw (BitVec.eq_of_toNat_eq h)
    rw [hplan] at hmade
    simp only [transferOf, if_neg hcount, Option.some.injEq] at hmade
    have hdst : Place.host (rowAddress q.dst q.dpitch row) =
        x.placeFrom P q.dst.toNat (rowStart q.dst q.dpitch row) := congrArg Transfer.dst hmade
    have hsrc : Place.host (rowAddress q.src q.spitch row) =
        x.placeFrom P q.src.toNat (rowStart q.src q.spitch row) := congrArg Transfer.src hmade
    refine ⟨?_, ?_, fun htype => ?_⟩
    · exact place_host (.inl (by simp [Endpoint.place, hd0])) hdst
    · exact place_host (.inl (by simp [Endpoint.place, hs0])) hsrc
    · have hdnone : x.owner q.dst.toNat = none := by
        by_contra hno
        obtain ⟨a, ha⟩ := Option.ne_none_iff_exists'.mp hno
        exact (place_ddr hk hdst ha htype).2.1 _ rfl
      have hsnone : x.owner q.src.toNat = none := by
        by_contra hno
        obtain ⟨a, ha⟩ := Option.ne_none_iff_exists'.mp hno
        exact (place_ddr hk hsrc ha htype).2.1 _ rfl
      exact ⟨fun h => absurd hdnone h, fun h => absurd hsnone h,
        fun h => absurd h (by simp [Rect.OnDevice, hdnone, hsnone])⟩
  · rw [hplan] at hmade
    cases hmade
  · rw [hplan] at hmade
    have hmade := Option.some.inj hmade
    have hdst := congrArg Transfer.dst hmade
    have hsrc := congrArg Transfer.src hmade
    have hwidth : q.width.toNat % 2 ^ 32 = q.width.toNat := congrArg Transfer.count hmade
    refine ⟨place_host (.inr rfl) hdst, place_host (.inr rfl) hsrc, fun _ => ⟨?_, ?_, fun _ => ?_⟩⟩
    · intro hno
      obtain ⟨a, ha⟩ := Option.ne_none_iff_exists'.mp hno
      exact (place_ddr hk hdst ha htype).2.2 _ _ _ rfl
    · intro hno
      obtain ⟨a, ha⟩ := Option.ne_none_iff_exists'.mp hno
      exact (place_ddr hk hsrc ha htype).2.2 _ _ _ rfl
    · refine ⟨?_, hacquire, hreply⟩
      rw [← hwidth]
      exact Nat.mod_lt _ (by norm_num)
  · rw [hplan] at hmade
    have hmade := Option.some.inj hmade
    have hdst := congrArg Transfer.dst hmade
    have hsrc := congrArg Transfer.src hmade
    refine ⟨place_host (.inl rfl) hdst, place_host (.inl rfl) hsrc, fun htype => ?_⟩
    -- no command names a place in an NPU's memory
    have hdnone : x.owner q.dst.toNat = none := by
      by_contra hno
      obtain ⟨a, ha⟩ := Option.ne_none_iff_exists'.mp hno
      exact (place_ddr hk hdst ha htype).1 _ _ rfl
    have hsnone : x.owner q.src.toNat = none := by
      by_contra hno
      obtain ⟨a, ha⟩ := Option.ne_none_iff_exists'.mp hno
      exact (place_ddr hk hsrc ha htype).1 _ _ rfl
    exact ⟨fun h => absurd hdnone h, fun h => absurd hsnone h,
      fun h => absurd h (by simp [Rect.OnDevice, hdnone, hsnone])⟩

/-! ## All rows -/

variable {rows : ℕ → RowReplies}

/-- Rows that all go through: each was taken, and they transfer what each of them makes. -/
theorem copyRows_ok (n row : ℕ) (streams : Streams) {out : Outcome}
    (hout : Context.copyRows P q kind none rows n row { x with streams } = out)
    (hok : out.result = .ok ()) :
    (∃ streams', out.tables = { x with streams := streams' } ∧
        ((∀ i, row ≤ i → i < row + n → ∀ device work,
          q.plan P x kind i (rows i) ≠ .enqueue device work) → streams' = streams) ∧
        ∀ i, row + n = i + 1 → row ≤ i → q.Ready P x kind i (rows i) streams') ∧
      (∀ i, row ≤ i → i < row + n → q.Taken P x kind i (rows i)) ∧
      out.moved = (List.range' row n).flatMap fun i => (q.made P x kind i (rows i)).toList := by
  induction n generalizing row streams out with
  | zero =>
    subst hout
    exact ⟨⟨streams, rfl, fun _ => rfl, fun i _ _ => by omega⟩, fun i _ _ => by omega, rfl⟩
  | succ n ih =>
    obtain ⟨streams', res, hcopy, hkept, hres⟩ := row_cases P x q kind row (rows row) streams
    unfold Context.copyRows at hout
    rw [hcopy] at hout
    rcases hres with ⟨e, rfl, -⟩ | ⟨rfl, htaken, hready⟩
    · subst hout
      cases hok
    · subst hout
      obtain ⟨⟨last, htables, hstill, hlast⟩, hrest, hmoved⟩ := ih (row + 1) streams' rfl hok
      refine ⟨⟨last, htables, ?_, ?_⟩, ?_, ?_⟩
      · intro hno
        rw [hstill fun i hle hlt => hno i (by omega) (by omega),
          hkept (hno row le_rfl (by omega))]
      · intro i hi hle
        rcases eq_or_lt_of_le hle with rfl | hlt
        · -- it was the last row, and the null stream that it needed is still there
          rw [hstill fun i hle hlt => by omega]
          exact hready
        · exact hlast i (by omega) hlt
      · intro i hle hlt
        rcases eq_or_lt_of_le hle with rfl | hlt'
        · exact htaken
        · exact hrest i (by omega) (by omega)
      · rw [List.range'_succ, List.flatMap_cons, ← hmoved]

/-- Rows that are each taken when their null stream is there all go through. -/
theorem copyRows_taken (n row : ℕ) (streams : Streams)
    (htaken : ∀ i, row ≤ i → i < row + n → q.Taken P x kind i (rows i))
    (hkeep : ∀ i streams, row ≤ i → i + 1 < row + n → q.Ready P x kind i (rows i) streams →
      q.Ready P x kind (i + 1) (rows (i + 1)) streams)
    (hready : 0 < n → q.Ready P x kind row (rows row) streams) :
    (Context.copyRows P q kind none rows n row { x with streams }).result = .ok () := by
  induction n generalizing row streams with
  | zero => rfl
  | succ n ih =>
    obtain ⟨streams', res, hcopy, -, hres⟩ := row_cases P x q kind row (rows row) streams
    unfold Context.copyRows
    rw [hcopy]
    rcases hres with ⟨e, rfl, hnot⟩ | ⟨rfl, -, hready'⟩
    · exact absurd ⟨htaken row le_rfl (by omega), hready (by omega)⟩ hnot
    · exact ih (row + 1) streams' (fun i hle hlt => htaken i (by omega) (by omega))
        (fun i streams hle hlt => hkeep i streams (by omega) (by omega))
        (fun hn => hkeep row streams' le_rfl (by omega) hready')

theorem Rect.Taken.passes (h : q.Taken P x kind row r) (hw : q.width ≠ 0) : q.Passes x kind row := by
  by_contra hno
  obtain ⟨e, hfail⟩ := Context.copyPlan_fail (P := P) hno
    (fun hcount => hw (BitVec.eq_of_toNat_eq hcount)) r.npu r.acquire
  exact h.1 e hfail

/-- A row that is taken transfers something. -/
theorem Rect.Taken.made (h : q.Taken P x kind row r) (hw : q.width ≠ 0) :
    (q.made P x kind row r).isSome := by
  have hcount : q.width.toNat ≠ 0 := fun hcount => hw (BitVec.eq_of_toNat_eq hcount)
  unfold Rect.made
  cases hplan : q.plan P x kind row r with
  | fail e => exact absurd hplan (h.1 e)
  | finish => simp [transferOf, hcount]
  | copied device => rfl
  | enqueue device work => rfl

theorem flatMap_toList_eq_map {f : ℕ → Option Transfer} {g : ℕ → Transfer} {l : List ℕ} :
    (∀ i ∈ l, (f i).isSome) → (l.flatMap fun i => (f i).toList) = l.map g →
      ∀ i ∈ l, f i = some (g i) := by
  induction l with
  | nil => simp
  | cons j l ih =>
    intro hsome heq i hi
    obtain ⟨t, ht⟩ := Option.isSome_iff_exists.mp (hsome j List.mem_cons_self)
    rw [List.flatMap_cons, List.map_cons, ht] at heq
    obtain ⟨hhead, htail⟩ := List.cons.inj (show t :: _ = _ from heq)
    rcases List.mem_cons.mp hi with rfl | hi
    · rw [ht, hhead]
    · exact ih (fun i hi => hsome i (List.mem_cons_of_mem j hi)) htail i hi

/-! ## The law -/

variable {sync : Replies} {finish : Option VxError}

theorem memcpy2D_moved (P : Platform) (x : Context) (q : Rect) (kind : MemcpyKind)
    (rows : ℕ → RowReplies) (sync : Replies) (finish : Option VxError) :
    (Context.grxMemcpy2D P x q kind rows sync finish).moved =
      (Context.grxMemcpy2DAsync P x q kind none rows).moved := by
  unfold Context.grxMemcpy2D
  dsimp only
  split <;> rfl

/-- The call succeeds if its rows and its wait do. -/
theorem memcpy2D_ok_iff : (Context.grxMemcpy2D P x q kind rows sync finish).result = .ok () ↔
    (Context.grxMemcpy2DAsync P x q kind none rows).result = .ok () ∧
      (Streams.stateOf P (Context.grxMemcpy2DAsync P x q kind none rows).tables.streams none
        (Context.grxMemcpy2DAsync P x q kind none rows).tables.current sync).2 ≠ none ∧
      finish = none := by
  unfold Context.grxMemcpy2D
  dsimp only
  cases hissued : (Context.grxMemcpy2DAsync P x q kind none rows).result with
  | error e => simp [hissued]
  | ok u =>
    simp only [Streams.syncStream, true_and]
    rcases Streams.stateOf P (Context.grxMemcpy2DAsync P x q kind none rows).tables.streams none
      (Context.grxMemcpy2DAsync P x q kind none rows).tables.current sync with ⟨s, _ | t⟩
    · simp
    · cases finish <;> simp

/-- The first row, unless it is refused. -/
theorem first_taken (hrefused : ¬ q.Refused P x kind (rows 0)) :
    ∃ streams, Context.enqueueCopy P x (rowAddress q.dst q.dpitch 0) (rowAddress q.src q.spitch 0)
        q.width.toNat kind none (rows 0) = ({ x with streams }, .ok (q.made P x kind 0 (rows 0))) ∧
      q.Taken P x kind 0 (rows 0) ∧ q.Ready P x kind 0 (rows 0) streams := by
  obtain ⟨streams, res, hcopy, -, ⟨e, rfl, -⟩ | ⟨rfl, htaken, hready⟩⟩ :=
    row_cases P x q kind 0 (rows 0) x.streams
  · refine absurd ⟨e, ?_⟩ hrefused
    change Context.enqueueCopy P x _ _ _ _ _ _ = _ at hcopy
    rw [rowAddress_zero, rowAddress_zero] at hcopy
    rw [hcopy]
  · exact ⟨streams, hcopy, htaken, hready⟩

theorem async_eq (hw : q.width ≠ 0) (hh : q.height ≠ 0)
    (hpitch : ¬ (q.dpitch < q.width ∨ q.spitch < q.width)) :
    Context.grxMemcpy2DAsync P x q kind none rows =
      Context.copyRows P q kind none rows q.height.toNat 0 x := by
  unfold Context.grxMemcpy2DAsync
  rw [if_neg (not_or.mpr ⟨hw, hh⟩), if_neg hpitch]

/-- A rectangle whose rows are all straight, and answered, is copied row by row. -/
theorem straight_copied (hk : x.heap.Keyed) (hw : q.width ≠ 0) (hh : q.height ≠ 0)
    (hrefused : ¬ q.Refused P x kind (rows 0))
    (hd : x.Straight P q.dst q.dpitch q.width.toNat q.height.toNat)
    (hs : x.Straight P q.src q.spitch q.width.toNat q.height.toNat)
    (ha : q.Answered P x rows sync finish) :
    ∃ streams, Context.copyRows P q kind none rows q.height.toNat 0 x =
        ⟨{ x with streams }, q.transfers P x, .ok ()⟩ ∧
      (Streams.stateOf P streams none x.current sync).2 ≠ none := by
  obtain ⟨streams₁, hfirst, htaken₀, hready₀⟩ := first_taken hrefused
  have hpass₀ : x.Passes q.dst.toNat q.src.toNat q.width.toNat kind := by
    have hpass := htaken₀.passes hw
    unfold Rect.Passes at hpass
    rwa [rowAddress_zero, rowAddress_zero] at hpass
  have hrow : ∀ row < q.height.toNat, q.made P x kind row (rows row) = some (q.transfer P x row) ∧
      (¬ (q.OnDevice x ∧ (P.device x.current).type ≠ .npu) → q.Taken P x kind row (rows row) ∧
        ∀ device work, q.plan P x kind row (rows row) ≠ .enqueue device work) ∧
      (q.OnDevice x ∧ (P.device x.current).type ≠ .npu →
        ∃ work, q.plan P x kind row (rows row) = .enqueue x.current work) := by
    intro row hlt
    have hdf := hd.follows hk hlt
    have hsf := hs.follows hk hlt
    exact row_straight hk hw hdf hsf (passes_of_follows hdf hsf hpass₀)
      fun hon hnpu => ⟨(ha.npu hon hnpu).1, (ha.npu hon hnpu).2 row hlt⟩
  have htaken : ∀ row < q.height.toNat, q.Taken P x kind row (rows row) := by
    intro row hlt
    by_cases hgpu : q.OnDevice x ∧ (P.device x.current).type ≠ .npu
    · rcases Nat.eq_zero_or_pos row with rfl | hpos
      · exact htaken₀
      · obtain ⟨work, hplan⟩ := (hrow row hlt).2.2 hgpu
        refine ⟨fun e he => ?_, fun _ _ _ => ha.driver hgpu.1 hgpu.2 row hlt hpos⟩
        rw [hplan] at he
        cases he
    · exact ((hrow row hlt).2.1 hgpu).1
  -- a null stream that a row has used is there for the next one
  have hkeep : ∀ i streams, i + 1 < q.height.toNat → q.Ready P x kind i (rows i) streams →
      q.Ready P x kind (i + 1) (rows (i + 1)) streams := by
    intro i streams hlt hready device work hplan
    by_cases hgpu : q.OnDevice x ∧ (P.device x.current).type ≠ .npu
    · obtain ⟨work₁, hplan₁⟩ := (hrow (i + 1) hlt).2.2 hgpu
      obtain ⟨work₀, hplan₀⟩ := (hrow i (by omega)).2.2 hgpu
      rw [hplan₁] at hplan
      cases hplan
      exact hready _ work₀ hplan₀
    · exact absurd hplan (((hrow (i + 1) hlt).2.1 hgpu).2 device work)
  obtain ⟨n, hn⟩ : ∃ n, q.height.toNat = n + 1 :=
    Nat.exists_eq_succ_of_ne_zero fun h => hh (BitVec.eq_of_toNat_eq h)
  have hok : (Context.copyRows P q kind none rows q.height.toNat 0 x).result = .ok () := by
    rw [hn]
    unfold Context.copyRows
    rw [hfirst]
    exact copyRows_taken n 1 streams₁ (fun i _ hlt => htaken i (by omega))
      (fun i streams _ hlt => hkeep i streams (by omega))
      (fun hpos => hkeep 0 streams₁ (by omega) hready₀)
  generalize hout : Context.copyRows P q kind none rows q.height.toNat 0 x = out at hok
  obtain ⟨⟨last, htables, hstill, hlast⟩, -, hmoved⟩ := copyRows_ok _ 0 x.streams hout hok
  have htransfers : out.moved = q.transfers P x := by
    rw [hmoved, ← List.range_eq_range', Rect.transfers, if_neg hw]
    rw [List.flatMap_congr (g := fun i => [q.transfer P x i]) fun i hi => by
      rw [(hrow i (List.mem_range.mp hi)).1]
      rfl]
    exact List.map_eq_flatMap.symm
  refine ⟨last, ?_, ?_⟩
  · obtain ⟨tables, moved, result⟩ := out
    dsimp only at htables htransfers hok
    rw [htables, htransfers, hok]
  · by_cases hgpu : q.OnDevice x ∧ (P.device x.current).type ≠ .npu
    · obtain ⟨work, hplan⟩ := (hrow n (by omega)).2.2 hgpu
      obtain ⟨t, ht⟩ := Option.ne_none_iff_exists'.mp
        (hlast n (by omega) (by omega) x.current work hplan)
      simp [Streams.stateOf, Streams.nullStreamLocked, ht]
    · rw [hstill fun i _ hlt => ((hrow i (by omega)).2.1 hgpu).2]
      exact ha.stream hgpu

/-- A row whose transfer is the rectangle's is straight on a side. -/
theorem straight_of_rows {base pitch : BitVec 64} {width height : ℕ}
    (hinside : x.Inside base pitch width height)
    (hhost : ∀ row < height, x.owner base.toNat = none → rowStart base pitch row < 2 ^ 64 ∧
      (x.classify (rowAddress base pitch row)).isDevice = false)
    (hforeign : ∀ row < height, (x.classify (rowAddress base pitch row)).foreign = none)
    (hnpu : ∀ row < height, (P.device x.current).type = .npu → x.owner base.toNat ≠ none →
      rowStart base pitch row < 2 ^ 32) : x.Straight P base pitch width height := by
  unfold Context.Straight
  cases howner : x.owner base.toNat with
  | some a =>
    intro row hlt
    exact ⟨hinside a howner row hlt, fun htype => hnpu row hlt htype (by simp [howner])⟩
  | none =>
    intro row hlt
    obtain ⟨hstart, hdev⟩ := hhost row hlt howner
    have hfor := hforeign row hlt
    rw [rowAddress_of_lt hstart] at hdev hfor
    exact ⟨hstart, hdev, hfor⟩

/-- A call that keeps the law, and whose first row is issued, has straight rows that are answered. -/
theorem straight_of_law (hk : x.heap.Keyed) (hw : q.width ≠ 0) (hh : q.height ≠ 0)
    (hpitch : ¬ (q.dpitch < q.width ∨ q.spitch < q.width))
    (hrefused : ¬ q.Refused P x kind (rows 0))
    (hlaw : q.Law P x (Context.grxMemcpy2D P x q kind rows sync finish)) :
    x.Straight P q.dst q.dpitch q.width.toNat q.height.toNat ∧
      x.Straight P q.src q.spitch q.width.toNat q.height.toNat ∧
      q.Answered P x rows sync finish := by
  obtain ⟨streams₁, hfirst, htaken₀, -⟩ := first_taken hrefused
  have hpos : 0 < q.height.toNat :=
    Nat.pos_of_ne_zero fun h => hh (BitVec.eq_of_toNat_eq h)
  -- the first row has gone, so the call succeeds
  have hok : (Context.grxMemcpy2D P x q kind rows sync finish).result = .ok () := by
    cases hres : (Context.grxMemcpy2D P x q kind rows sync finish).result with
    | ok u => rfl
    | error e =>
      have hnothing := hlaw.nothing e hres
      obtain ⟨n, hn⟩ := Nat.exists_eq_succ_of_ne_zero hpos.ne'
      obtain ⟨t, ht⟩ := Option.isSome_iff_exists.mp (htaken₀.made hw)
      rw [memcpy2D_moved, async_eq hw hh hpitch, hn] at hnothing
      unfold Context.copyRows at hnothing
      rw [hfirst] at hnothing
      dsimp only at hnothing
      rw [ht] at hnothing
      cases hnothing
  obtain ⟨hinsideD, hinsideS⟩ := hlaw.inside hok hw
  have hexact := hlaw.exact hok
  obtain ⟨hasync, hstream, hfinish⟩ := memcpy2D_ok_iff.mp hok
  rw [memcpy2D_moved] at hexact
  rw [async_eq hw hh hpitch] at hasync hstream hexact
  obtain ⟨⟨last, htables, hstill, -⟩, htaken, hmoved⟩ := copyRows_ok _ 0 x.streams rfl hasync
  change (Context.copyRows P q kind none rows q.height.toNat 0 x).moved = _ at hmoved
  change (Context.copyRows P q kind none rows q.height.toNat 0 x).tables = _ at htables
  rw [hexact, Rect.transfers, if_neg hw, ← List.range_eq_range'] at hmoved
  have hmade := flatMap_toList_eq_map
    (fun i hi => (htaken i (Nat.zero_le i) (by simpa using List.mem_range.mp hi)).made hw) hmoved.symm
  have hmade : ∀ row < q.height.toNat,
      q.made P x kind row (rows row) = some (q.transfer P x row) :=
    fun row hlt => hmade row (List.mem_range.mpr hlt)
  have htaken : ∀ row < q.height.toNat, q.Taken P x kind row (rows row) :=
    fun row hlt => htaken row (Nat.zero_le row) (by omega)
  have hrow := fun row (hlt : row < q.height.toNat) =>
    row_exact hk hw ((htaken row hlt).passes hw) (hmade row hlt)
  have hd : x.Straight P q.dst q.dpitch q.width.toNat q.height.toNat :=
    straight_of_rows hinsideD (fun row hlt => (hrow row hlt).1)
      (fun row hlt => ((htaken row hlt).passes hw).dst_own)
      (fun row hlt htype => ((hrow row hlt).2.2 htype).1)
  have hs : x.Straight P q.src q.spitch q.width.toNat q.height.toNat :=
    straight_of_rows hinsideS (fun row hlt => (hrow row hlt).2.1)
      (fun row hlt => ((htaken row hlt).passes hw).src_own)
      (fun row hlt htype => ((hrow row hlt).2.2 htype).2.1)
  have hplan := fun row (hlt : row < q.height.toNat) =>
    row_straight hk hw (hd.follows hk hlt) (hs.follows hk hlt) ((htaken row hlt).passes hw)
      fun hon htype => ((hrow row hlt).2.2 htype).2.2 hon
  refine ⟨hd, hs, ⟨?_, ?_, ?_, hfinish⟩⟩
  · intro hon htype
    exact ⟨(((hrow 0 hpos).2.2 htype).2.2 hon).1,
      fun row hlt => (((hrow row hlt).2.2 htype).2.2 hon).2⟩
  · intro hon htype row hlt _
    obtain ⟨work, hwork⟩ := (hplan row hlt).2.2 ⟨hon, htype⟩
    exact (htaken row hlt).2 _ work hwork
  · intro hgpu
    rw [htables, hstill fun row _ hlt => ((hplan row (by omega)).2.1 hgpu).2] at hstream
    exact hstream

end Row

open Context in
/-- Over any history of the allocator, a call keeps the law if and only if there is nothing to copy, its
pitches or its first row are refused, or no row goes astray and nothing is refused after the first. -/
theorem memcpy2D_law_iff (P : Platform) (calls : List Call) (y : Context) (q : Rect)
    (kind : MemcpyKind) (rows : ℕ → RowReplies) (sync : Replies) (finish : Option VxError) :
    let x := { y with heap := Runs.after (Heap.step P) {} calls }
    q.Law P x (grxMemcpy2D P x q kind rows sync finish) ↔ q.Sound P x kind rows sync finish := by
  intro x
  have hstep : ∀ (s : Heap) (c : Call), s.Keyed → (s.step P c).Keyed := fun s c h => h.step c
  have hk : x.heap.Keyed := Runs.invariant_always hstep {} calls .empty
  by_cases htrivial : q.width = 0 ∨ q.height = 0
  · refine iff_of_true ⟨?_, ?_, ?_⟩ (htrivial.elim .inl fun h => .inr (.inl h))
    · intro _ hw
      have hheight : q.height.toNat = 0 := by rw [htrivial.resolve_left hw]; rfl
      exact ⟨fun a _ row hlt => by omega, fun a _ row hlt => by omega⟩
    · intro _
      rw [memcpy2D_moved, grxMemcpy2DAsync, if_pos htrivial, Rect.transfers]
      split
      · rfl
      next hw =>
        rw [htrivial.resolve_left hw]
        rfl
    · intro _ _
      rw [memcpy2D_moved, grxMemcpy2DAsync, if_pos htrivial]
  obtain ⟨hw, hh⟩ := not_or.mp htrivial
  by_cases hpitch : q.dpitch < q.width ∨ q.spitch < q.width
  · have hissued : grxMemcpy2DAsync P x q kind none rows = ⟨x, [], .error .invalidValue⟩ := by
      rw [grxMemcpy2DAsync, if_neg htrivial, if_pos hpitch]
    have hnot : (grxMemcpy2D P x q kind rows sync finish).result ≠ .ok () := by
      intro hok
      have hasync := (memcpy2D_ok_iff.mp hok).1
      rw [hissued] at hasync
      cases hasync
    refine iff_of_true ⟨fun hok => absurd hok hnot, fun hok => absurd hok hnot, ?_⟩
      (.inr (.inr (hpitch.elim .inl fun h => .inr (.inl h))))
    intro _ _
    rw [memcpy2D_moved, hissued]
  by_cases hrefused : q.Refused P x kind (rows 0)
  · refine iff_of_true ?_ (.inr (.inr (.inr (.inr (.inl hrefused)))))
    obtain ⟨e, herror⟩ := hrefused
    obtain ⟨n, hn⟩ : ∃ n, q.height.toNat = n + 1 :=
      Nat.exists_eq_succ_of_ne_zero fun h => hh (BitVec.eq_of_toNat_eq h)
    have hissued : (grxMemcpy2DAsync P x q kind none rows).moved = [] ∧
        (grxMemcpy2DAsync P x q kind none rows).result = .error e := by
      rw [async_eq hw hh hpitch, hn]
      unfold copyRows
      rw [rowAddress_zero, rowAddress_zero]
      rcases hcopy : enqueueCopy P x q.dst.toNat q.src.toNat q.width.toNat kind none (rows 0) with
        ⟨x', res⟩
      rw [hcopy] at herror
      obtain rfl : res = .error e := herror
      exact ⟨rfl, rfl⟩
    have hnot : (grxMemcpy2D P x q kind rows sync finish).result ≠ .ok () := by
      intro hok
      have hasync := (memcpy2D_ok_iff.mp hok).1
      rw [hissued.2] at hasync
      cases hasync
    refine ⟨fun hok => absurd hok hnot, fun hok => absurd hok hnot, ?_⟩
    intro _ _
    rw [memcpy2D_moved, hissued.1]
  · constructor
    · intro hlaw
      exact .inr (.inr (.inr (.inr (.inr (straight_of_law hk hw hh hpitch hrefused hlaw)))))
    · intro hsound
      obtain ⟨hd, hs, ha⟩ : x.Straight P q.dst q.dpitch q.width.toNat q.height.toNat ∧
          x.Straight P q.src q.spitch q.width.toNat q.height.toNat ∧
          q.Answered P x rows sync finish := by
        rcases hsound with h | h | h | h | h | h
        · exact absurd h hw
        · exact absurd h hh
        · exact absurd (.inl h) hpitch
        · exact absurd (.inr h) hpitch
        · exact absurd h hrefused
        · exact h
      obtain ⟨streams, hcopied, hstream⟩ := straight_copied hk hw hh hrefused hd hs ha
      have hok : (grxMemcpy2D P x q kind rows sync finish).result = .ok () := by
        rw [memcpy2D_ok_iff, async_eq hw hh hpitch, hcopied]
        exact ⟨rfl, hstream, ha.finish⟩
      have hinside : ∀ {base pitch : BitVec 64},
          x.Straight P base pitch q.width.toNat q.height.toNat →
            x.Inside base pitch q.width.toNat q.height.toNat := by
        intro base pitch h a howner row hlt
        unfold Straight at h
        rw [howner] at h
        exact (h row hlt).1
      refine ⟨fun _ _ => ⟨hinside hd, hinside hs⟩, fun _ => ?_, fun e herror => ?_⟩
      · rw [memcpy2D_moved, async_eq hw hh hpitch, hcopied]
      · rw [hok] at herror
        cases herror

/-- Two allocations of a line each, next to each other. -/
def twoBlocks : Context where
  heap := Runs.after (Heap.step plain) {} [mallocAt 0 256 4096, mallocAt 0 256 4096]

/-- Two rows for an allocation that has one. -/
def twoRows : Rect where
  dst := 4096
  dpitch := 256
  src := 65536
  spitch := 256
  width := 256
  height := 2

/-- The second row is copied into the other allocation. -/
theorem memcpy2D_law_not : ¬ twoRows.Law plain twoBlocks
    (Context.grxMemcpy2D plain twoBlocks twoRows .hostToDevice (fun _ => {}) {} none) := by
  intro hlaw
  have hok : (Context.grxMemcpy2D plain twoBlocks twoRows .hostToDevice (fun _ => {}) {} none).result =
      .ok () := by
    decide +kernel
  have hfirst : (twoBlocks.owner 4096).map (·.base) = some 4096 := by decide +kernel
  have hsecond : (twoBlocks.owner 4352).map (·.base) = some 4352 := by decide +kernel
  obtain ⟨a, ha, hbase⟩ := Option.map_eq_some_iff.mp hfirst
  obtain ⟨hfound, -⟩ := (hlaw.inside hok (by decide)).1 a ha 1 (by decide)
  change twoBlocks.owner 4352 = some a at hfound
  rw [hfound, Option.map_some, hbase] at hsecond
  cases hsecond

end Grxcp.Runtime
