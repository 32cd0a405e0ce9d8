import Grxcp.Device.SanitizeRt
import Grxcp.Runtime.DeviceCalls

/-!
# The host half of the sanitizer

The map of `sanitize.cpp` and its upload: what the allocator notes of its regions, allocations and frees,
and `sanitize_arm`, with the control block of each device as its kernels read it. `SanContext` is the
allocator and the map together, in a process that has the sanitizer on: every call of `memory.cpp` with
what it notes, and the launches, as far as the sanitizer goes.

The map is one for all devices. What each device has is the `Ledger`: a map of its own for every device,
which is what the launches of the device are to be checked against.
-/

namespace Grxcp.Runtime

open Grxcp.Device (SanExtent SanRegion SanState GRX_SAN_EXTENT_LIVE GRX_SAN_EXTENT_FREED GRX_SAN_ABI_VERSION)

def kMaxRegions : ℕ := 256

def kMaxExtents : ℕ := 4096

def kMaxReports : UInt32 := 1024

/-! ## The map -/

/-- `g_extents`, `g_regions`, `g_next_id`, `g_map_dirty` and `g_blocks`: the control block of a device as
its kernels read it, if it is there. -/
structure SanMap where
  extents : OrdMap ℕ SanExtent := .empty
  regions : List SanRegion := []
  nextId : UInt32 := 1
  dirty : Bool := true
  blocks : ℕ → Option SanState := fun _ => none

namespace SanMap

/-- `sanitize_note_region`. -/
def noteRegion (m : SanMap) (base size : ℕ) : SanMap :=
  if kMaxRegions ≤ m.regions.length then m
  else { m with regions := m.regions ++ [⟨.ofNat base, .ofNat size⟩], dirty := true }

/-- `sanitize_note_alloc`. -/
def noteAlloc (m : SanMap) (base requested : ℕ) : SanMap :=
  { m with
      extents := m.extents.insert base ⟨.ofNat base, .ofNat requested, GRX_SAN_EXTENT_LIVE, m.nextId⟩
      nextId := m.nextId + 1
      dirty := true }

/-- `sanitize_note_free`. -/
def noteFree (m : SanMap) (base : ℕ) : SanMap :=
  match m.extents.find? base with
  | none => m
  | some e =>
      { m with extents := m.extents.insert base { e with state := GRX_SAN_EXTENT_FREED }, dirty := true }

/-- `sanitize_forget_all`. -/
def forgetAll (m : SanMap) : SanMap :=
  { m with extents := .empty, regions := [], dirty := true }

end SanMap

/-! ## The upload -/

/-- What the driver answers while a launch is armed: `vx_buffer_create`, `vx_buffer_address`, and each
`write_block`. `found` is what the memory of a new block has in it, and `torn` what a write that fails
leaves where it was to go. -/
structure ArmReplies where
  create : Option VxError := none
  address : Option VxError := none
  header : Option GrxError := none
  extents : Option GrxError := none
  regions : Option GrxError := none
  reports : Option GrxError := none
  state : Option GrxError := none
  found : SanState := ⟨GRX_SAN_ABI_VERSION, 0, fun _ => {}, fun _ => {}, 0, 0, 0, 0⟩
  torn : SanState := found

/-- A table with a list written over its front. -/
def writeFront {α : Type} (l : List α) (table : ℕ → α) (i : ℕ) : α :=
  l[i]?.getD (table i)

namespace SanMap

/-- What a device's control block has in it from now on. -/
def putBlock (m : SanMap) (d : ℕ) (b : SanState) : SanMap :=
  { m with blocks := Function.update m.blocks d (some b) }

/-- `ensure_block_locked`. -/
def ensureBlock (m : SanMap) (d : ℕ) (r : ArmReplies) : SanMap × Except GrxError SanState :=
  match m.blocks d with
  | some b => (m, .ok b)
  | none =>
      match r.create with
      | some e => (m, .error (mapResult e))
      | none =>
          match r.address with
          | some e => (m, .error (mapResult e))
          | none =>
              match r.header with
              | some e => (m.putBlock d r.found, .error e)
              | none =>
                  let b : SanState := ⟨0, 0, r.found.extents, r.found.regions, 0, 0, 0, 0⟩
                  (m.putBlock d b, .ok b)

/-- The extents that are uploaded. -/
def uploaded (m : SanMap) : List SanExtent :=
  (m.extents.entries.map fun e => e.2).take kMaxExtents

/-- The tables of the map are written to a device's block, if the map has changed since they last were to
any. An empty table is not written. -/
def upload (m : SanMap) (d : ℕ) (b : SanState) (r : ArmReplies) : SanMap × Except GrxError SanState :=
  if m.dirty = false then (m, .ok b)
  else
    match if m.uploaded = [] then none else r.extents with
    | some e => (m.putBlock d { b with extents := r.torn.extents }, .error e)
    | none =>
        let b := { b with extents := writeFront m.uploaded b.extents }
        match if m.regions = [] then none else r.regions with
        | some e => (m.putBlock d { b with regions := r.torn.regions }, .error e)
        | none =>
            let b := { b with regions := writeFront m.regions b.regions }
            ({ m.putBlock d b with dirty := false }, .ok b)

/-- The end of `sanitize_arm`, once the tables are in the block: the slots of the reports are cleared, and the
header is written. -/
def writeState (m : SanMap) (d : ℕ) (b : SanState) (sharedBytes gridThreads : UInt32) (r : ArmReplies) :
    SanMap × Except GrxError Bool :=
  match r.reports with
  | some e => (m, .error e)
  | none =>
      match r.state with
      | some e => (m.putBlock d { r.torn with extents := b.extents, regions := b.regions }, .error e)
      | none =>
          (m.putBlock d
            { abiVersion := GRX_SAN_ABI_VERSION
              enabled := 1
              extents := b.extents
              regions := b.regions
              numExtents := .ofNat (min m.extents.entries.length kMaxExtents)
              numRegions := .ofNat m.regions.length
              maxReports := min (if gridThreads = 0 then 1 else gridThreads) kMaxReports
              sharedBytes }, .ok true)

/-- `sanitize_arm`. It returns whether the kernel is checked: one that is not instrumented is reported. -/
def sanitizeArm (m : SanMap) (d : ℕ) (sharedBytes gridThreads : UInt32) (instrumented : Bool)
    (r : ArmReplies) : SanMap × Except GrxError Bool :=
  if instrumented = false then (m, .ok false)
  else
    match m.ensureBlock d r with
    | (m, .error e) => (m, .error e)
    | (m, .ok b) =>
        match m.upload d b r with
        | (m, .error e) => (m, .error e)
        | (m, .ok b) => m.writeState d b sharedBytes gridThreads r

end SanMap

/-! ## The calls -/

/-- The allocator and the map. -/
structure SanContext where
  heap : Heap := {}
  map : SanMap := {}

/-- A call of the allocator, or a launch on a device: what `sync_all_streams` returns before it, and what
is given to `sanitize_arm`. -/
inductive SanCall
  | call (c : Call)
  | launch (device : ℕ) (sync : Option GrxError) (sharedBytes gridThreads : UInt32) (instrumented : Bool)
      (r : ArmReplies)

/-- What an allocating call notes, where `s` and `s'` are the heap before and after: the slabs that it
added, the buffer of an allocation of its own, and the allocation, with the size that was asked for. -/
def SanMap.noteMalloc (P : Platform) (m : SanMap) (s s' : Heap) (c : Call) (res : Except GrxError ℕ) :
    SanMap :=
  let m := (s'.slabs.drop s.slabs.length).foldl (fun m w => m.noteRegion w.base w.size) m
  match c.op.asks (P.device c.device), res with
  | some n, .ok base =>
      let m :=
        if (s'.live.find? (toLex (c.device, base))).any (·.direct) then
          m.noteRegion base (need P c.device n)
        else m
      m.noteAlloc base n
  | _, _ => m

/-- What a call of the allocator notes. -/
def SanMap.noteCall (P : Platform) (m : SanMap) (s s' : Heap) (c : Call) (res : Except GrxError ℕ) :
    SanMap :=
  match c.op with
  | .malloc _ => m.noteMalloc P s s' c res
  | .mallocPhysical _ => m.noteMalloc P s s' c res
  | .mallocManaged _ => m.noteMalloc P s s' c res
  | .free address =>
      if address = 0 then m
      else
        match s.live.find? (toLex (c.device, address)) with
        | none => m
        | some a => m.noteFree a.base
  | .reset _ => m.forgetAll

/-- What a call does, and whether it arms a kernel. -/
def SanContext.call (P : Platform) (x : SanContext) : SanCall → SanContext × Except GrxError Bool
  | .call c =>
      match x.heap.call P c with
      | (heap, res) => (⟨heap, x.map.noteCall P x.heap heap c res⟩, res.map fun _ => false)
  | .launch d sync sharedBytes gridThreads instrumented r =>
      match sync with
      | some e => (x, .error e)
      | none =>
          match x.map.sanitizeArm d sharedBytes gridThreads instrumented r with
          | (map, res) => ({ x with map }, res)

/-! ## What each device has -/

/-- The live and the quarantined extents of each device, and the number that the next allocation gets.
`holder` is the device that the map was last uploaded to. -/
structure Ledger where
  extents : ℕ → OrdMap ℕ SanExtent := fun _ => .empty
  nextId : UInt32 := 1
  holder : Option ℕ := none

namespace Ledger

/-- The extents of a device change. -/
def put (l : Ledger) (d : ℕ) (m : OrdMap ℕ SanExtent) : Ledger :=
  { l with extents := Function.update l.extents d m }

/-- The device has a new live extent. -/
def alloc (l : Ledger) (d base requested : ℕ) : Ledger :=
  { l.put d ((l.extents d).insert base ⟨.ofNat base, .ofNat requested, GRX_SAN_EXTENT_LIVE, l.nextId⟩) with
      nextId := l.nextId + 1 }

/-- An extent of the device goes to the quarantine. -/
def free (l : Ledger) (d base : ℕ) : Ledger :=
  match (l.extents d).find? base with
  | none => l
  | some e => l.put d ((l.extents d).insert base { e with state := GRX_SAN_EXTENT_FREED })

/-- An allocating call makes a live extent, if it returns a block. -/
def noteMalloc (P : Platform) (l : Ledger) (c : Call) (res : Except GrxError ℕ) : Ledger :=
  match c.op.asks (P.device c.device), res with
  | some n, .ok base => l.alloc c.device base n
  | _, _ => l

/-- What a call of the allocator does to the extents of its device, by what it returns: an allocation makes
a live one, a free sends one to the quarantine, and a reset gives up all. -/
def note (P : Platform) (l : Ledger) (c : Call) (res : Except GrxError ℕ) : Ledger :=
  match c.op with
  | .malloc _ => l.noteMalloc P c res
  | .mallocPhysical _ => l.noteMalloc P c res
  | .mallocManaged _ => l.noteMalloc P c res
  | .free address =>
      match res with
      | .ok _ => l.free c.device address
      | .error _ => l
  | .reset _ => l.put c.device .empty

end Ledger

/-- The runtime, and beside it what each device has. -/
structure SanWatch where
  context : SanContext := {}
  ledger : Ledger := {}

/-- The state after a call. -/
def SanWatch.step (P : Platform) (x : SanWatch) (c : SanCall) : SanWatch :=
  let context := (x.context.call P c).1
  match c with
  | .call c => ⟨context, x.ledger.note P c (x.context.heap.call P c).2⟩
  | .launch d _ _ _ _ _ =>
      ⟨context,
        { x.ledger with
            holder := if x.context.map.dirty && !context.map.dirty then some d else x.ledger.holder }⟩

end Grxcp.Runtime
