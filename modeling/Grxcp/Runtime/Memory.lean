import Grxcp.Lib.OrdMap
import Grxcp.Runtime.Types

/-!
# Device memory

`memory.cpp`: the two-tier allocator and the interval map. Driver buffers are cut up as slabs by a
best-fit free list that spans every device; requests of a quarter slab or more get a buffer of their
own; an NPU's memory is one fixed window, carried as a slab without a buffer. Free extents are keyed
by (slab, base) and live allocations by (device, base), and both name their slab by its index.

Addresses and sizes are natural numbers and every sum of them is taken modulo 2^64. The driver is
the function `Driver` of a call, and `acquire_device` and `sync_all_streams` are what they return.
-/

namespace Grxcp.Runtime

/-! ## Sizes -/

/-- A sum of two `uint64_t`. -/
def add64 (a b : ℕ) : ℕ :=
  (a + b) % 2 ^ 64

/-- A difference of two `uint64_t`. -/
def sub64 (a b : ℕ) : ℕ :=
  (a + (2 ^ 64 - b)) % 2 ^ 64

def kMinAlign : ℕ := 256

/-- 64 MiB. -/
def kDefaultSlabSize : ℕ := 2 ^ 26

def kDirectDivisor : ℕ := 4

/-- `kRedzone` of the sanitizer. -/
def kRedzone : ℕ := 256

/-- `align_up`. -/
def alignUp (v a : ℕ) : ℕ :=
  ((BitVec.ofNat 64 v + BitVec.ofNat 64 a - 1) &&& ~~~(BitVec.ofNat 64 a - 1)).toNat

/-- `alignment_for`. -/
def alignmentFor (d : Device) : ℕ :=
  let line := if 0 < d.cacheLineSize.toInt then d.cacheLineSize.toInt.toNat else kMinAlign
  if kMinAlign < line then alignUp line kMinAlign else kMinAlign

/-- `slab_size`. -/
def slabSize (P : Platform) : ℕ :=
  match P.grxSlabBytes with
  | some parsed => if 2 ^ 20 ≤ parsed then parsed else kDefaultSlabSize
  | none => kDefaultSlabSize

/-- `sanitize_redzone_bytes`. -/
def sanitizeRedzoneBytes (P : Platform) : ℕ :=
  if P.sanitize then kRedzone else 0

/-- The size a request of `bytes` is rounded up to on device `e`. -/
def need (P : Platform) (e bytes : ℕ) : ℕ :=
  alignUp (add64 bytes (sanitizeRedzoneBytes P)) (alignmentFor (P.device e))

/-! ## The containers -/

/-- `Slab`. -/
structure Slab where
  buffer : Option Buffer := none
  base : ℕ := 0
  size : ℕ := 0
  device : ℕ := 0
  npu : Bool := false
deriving DecidableEq

/-- `Allocation`, but for its slab. -/
structure Block where
  buffer : Option Buffer := none
  base : ℕ := 0
  size : ℕ := 0
  offset : ℕ := 0
  device : ℕ := 0
  direct : Bool := false
  managed : Bool := false
  physical : Bool := false
deriving DecidableEq

/-- `Allocation`. -/
structure Allocation extends Block where
  slab : ℕ := 0
deriving DecidableEq

/-- `g_free`: the sizes of the free extents by (slab, base). -/
abbrev FreeList :=
  OrdMap (ℕ ×ₗ ℕ) ℕ

/-- `g_slabs`, `g_free` and `g_live`. `quarantine` is what `grxFree` returned to neither the free list
nor the driver; the code keeps no record of it outside the sanitizer. -/
structure Heap where
  slabs : List Slab := []
  free : FreeList := .empty
  live : OrdMap (ℕ ×ₗ ℕ) Allocation := .empty
  quarantine : List Allocation := []

/-- What the driver does with a request for a buffer: `vx_buffer_create` refuses it,
`vx_buffer_address` does, or there is a buffer and its address. -/
inductive Reply
  | refused (r : VxError)
  | unaddressed (r : VxError)
  | made (buffer : Buffer) (base : ℕ)

/-- The driver during a call: its reply to a request by size. -/
abbrev Driver :=
  ℕ → Reply

/-- `vx_buffer_create` and `vx_buffer_address` as the callers use them. -/
def Driver.create (drv : Driver) (bytes : ℕ) : Except GrxError (Buffer × ℕ) :=
  match drv bytes with
  | .refused r => .error (mapResult r)
  | .unaddressed r => .error (mapResult r)
  | .made buffer base => .ok (buffer, base)

/-! ## The free list -/

/-- The first half of `insert_free`: the neighbour above. -/
def coalesceNext (free : FreeList) (base size slab : ℕ) : FreeList × ℕ :=
  match free.lowerBound (toLex (slab, base)) with
  | some (next, n) =>
      if (ofLex next).1 = slab ∧ add64 base size = (ofLex next).2 then
        (free.erase next, add64 size n)
      else (free, size)
  | none => (free, size)

/-- The second half of `insert_free`: the neighbour below. -/
def coalescePrev (free : FreeList) (base size slab : ℕ) : FreeList × ℕ × ℕ :=
  match free.below (toLex (slab, base)) with
  | some (prev, n) =>
      if (ofLex prev).1 = slab ∧ add64 (ofLex prev).2 n = base then
        (free.erase prev, (ofLex prev).2, add64 size n)
      else (free, base, size)
  | none => (free, base, size)

/-- `insert_free`. -/
def insertFree (free : FreeList) (base size slab : ℕ) : FreeList :=
  match coalesceNext free base size slab with
  | (free, size) =>
      match coalescePrev free base size slab with
      | (free, base, size) => free.insert (toLex (slab, base)) size

/-- The slab is one of the device's. An index past the end is no slab's. -/
def Heap.ownedBy (s : Heap) (e i : ℕ) : Bool :=
  s.slabs[i]?.any (·.device = e)

/-- Append a slab, and make all of it free. -/
def Heap.push (s : Heap) (w : Slab) : Heap :=
  { s with slabs := s.slabs ++ [w], free := insertFree s.free w.base w.size s.slabs.length }

/-- `add_slab`. -/
def addSlab (s : Heap) (e bytes : ℕ) (drv : Driver) : Except GrxError Heap :=
  match drv.create bytes with
  | .error r => .error r
  | .ok (buffer, base) => .ok (s.push { buffer := some buffer, base, size := bytes, device := e })

/-- `take_best_fit`: the base taken, its slab, and the heap without it. -/
def takeBestFit (s : Heap) (e bytes align : ℕ) : Option (ℕ × ℕ × Heap) :=
  match s.free.firstLeast
      (fun k size => s.ownedBy e (ofLex k).1 && ((ofLex k).2 % align = 0 && bytes ≤ size))
      (2 ^ 64 - 1) with
  | none => none
  | some (best, size) =>
      let slab := (ofLex best).1
      let base := (ofLex best).2
      let free := s.free.erase best
      let free :=
        if bytes < size then insertFree free (add64 base bytes) (size - bytes) slab else free
      some (base, slab, { s with free })

/-! ## Allocating -/

/-- `ensure_npu_window`. -/
def ensureNpuWindow (P : Platform) (s : Heap) (e : ℕ) : Except GrxError Heap :=
  let total := (P.device e).totalGlobalMem.toNat
  if s.slabs.any (fun w => w.npu && w.device = e) then .ok s
  else if total ≤ kMinAlign then .error .memoryAllocation
  else
    .ok (s.push
      { buffer := none, base := kMinAlign, size := total - kMinAlign, device := e, npu := true })

/-- Record an allocation in `g_live`. -/
def Heap.place (s : Heap) (a : Allocation) : Heap :=
  { s with live := s.live.insert (toLex (a.device, a.base)) a }

/-- The record of an allocation that was cut from a slab. -/
def Heap.carved (s : Heap) (e base size slab : ℕ) (managed : Bool) : Allocation :=
  let w := s.slabs.getD slab {}
  { buffer := w.buffer, base, size, offset := sub64 base w.base, device := e, managed, slab }

/-- `allocate_npu`. -/
def allocateNpu (P : Platform) (s : Heap) (e align need : ℕ) (managed : Bool) :
    Heap × Except GrxError ℕ :=
  match ensureNpuWindow P s e with
  | .error r => (s, .error r)
  | .ok s =>
      match takeBestFit s e need align with
      | none => (s, .error .memoryAllocation)
      | some (base, slab, s) =>
          (s.place { s.carved e base need slab managed with buffer := none }, .ok base)

/-- A buffer of the allocation's own, as both `allocate_device_physical` and the direct tier of
`allocate_device` get it. -/
def allocateDirect (s : Heap) (e need : ℕ) (managed physical : Bool) (drv : Driver) :
    Heap × Except GrxError ℕ :=
  match drv.create need with
  | .error r => (s, .error r)
  | .ok (buffer, base) =>
      (s.place { buffer := some buffer, base, size := need, device := e, direct := true, managed,
                 physical }, .ok base)

/-- `allocate_device_physical`. -/
def allocateDevicePhysical (P : Platform) (s : Heap) (e bytes : ℕ) (acquire : Option GrxError)
    (drv : Driver) : Heap × Except GrxError ℕ :=
  match acquire with
  | some r => (s, .error r)
  | none =>
      match (P.device e).type with
      | .pta => (s, .error .notSupported)
      | .npu => allocateNpu P s e (alignmentFor (P.device e)) (need P e bytes) false
      | .gpu => allocateDirect s e (need P e bytes) false true drv

/-- The slab tier of `allocate_device`. -/
def allocateSlab (P : Platform) (s : Heap) (e need : ℕ) (managed : Bool) (drv : Driver) :
    Heap × Except GrxError ℕ :=
  let align := alignmentFor (P.device e)
  match takeBestFit s e need align with
  | some (base, slab, s) => (s.place (s.carved e base need slab managed), .ok base)
  | none =>
      let bytes := if slabSize P < need then alignUp need align else slabSize P
      match addSlab s e bytes drv with
      | .error r => (s, .error r)
      | .ok s =>
          match takeBestFit s e need align with
          | some (base, slab, s) => (s.place (s.carved e base need slab managed), .ok base)
          | none => (s, .error .memoryAllocation)

/-- `allocate_device`. -/
def allocateDevice (P : Platform) (s : Heap) (e bytes : ℕ) (managed : Bool)
    (acquire : Option GrxError) (drv : Driver) : Heap × Except GrxError ℕ :=
  match acquire with
  | some r => (s, .error r)
  | none =>
      match (P.device e).type with
      | .pta => (s, .error .notSupported)
      | .npu => allocateNpu P s e (alignmentFor (P.device e)) (need P e bytes) managed
      | .gpu =>
          if slabSize P / kDirectDivisor ≤ need P e bytes then
            allocateDirect s e (need P e bytes) managed false drv
          else allocateSlab P s e (need P e bytes) managed drv

/-! ## The interval map -/

/-- `find_locked`. -/
def findLocked (s : Heap) (e address : ℕ) : Option Allocation :=
  match s.live.atMost (toLex (e, address)) with
  | none => none
  | some (k, a) =>
      if (ofLex k).1 ≠ e then none
      else if address < a.base ∨ add64 a.base a.size ≤ address then none
      else some a

/-- `Mapping`. -/
structure Mapping where
  buffer : Option Buffer := none
  base : ℕ := 0
  offset : ℕ := 0
  size : ℕ := 0
  device : ℕ := 0
  managed : Bool := false
  physical : Bool := false
deriving DecidableEq

/-- `lookup_device_pointer_on`. -/
def lookupDevicePointerOn (s : Heap) (e address : ℕ) : Option Mapping :=
  (findLocked s e address).map fun a =>
    let delta := sub64 address a.base
    { buffer := a.buffer
      base := a.base
      offset := add64 a.offset delta
      size := sub64 a.size delta
      device := a.device
      managed := a.managed
      physical := a.physical }

/-! ## The entry points -/

/-- What an allocating call is given: whether the pointer for the result is there, the size, what
`acquire_device` returns, and the driver. -/
structure Request where
  out : Bool := true
  size : ℕ
  acquire : Option GrxError := none
  driver : Driver

/-- `grxMalloc`, with the pointer it stores. -/
def grxMalloc (P : Platform) (s : Heap) (e : ℕ) (r : Request) : Heap × Except GrxError ℕ :=
  if r.out = false then (s, .error .invalidValue)
  else if r.size = 0 then (s, .ok 0)
  else allocateDevice P s e r.size false r.acquire r.driver

/-- `grxMallocPhysical`, with the pointer it stores. -/
def grxMallocPhysical (P : Platform) (s : Heap) (e : ℕ) (r : Request) : Heap × Except GrxError ℕ :=
  if r.out = false then (s, .error .invalidValue)
  else if r.size = 0 then (s, .ok 0)
  else allocateDevicePhysical P s e r.size r.acquire r.driver

/-- `grxMallocManaged`, with the pointer it stores. -/
def grxMallocManaged (P : Platform) (s : Heap) (e : ℕ) (r : Request) : Heap × Except GrxError ℕ :=
  if r.out = false then (s, .error .invalidValue)
  else
    match r.acquire with
    | some x => (s, .error x)
    | none =>
        if (P.device e).managedMemory = false then (s, .error .notSupported)
        else allocateDevice P s e r.size true r.acquire r.driver

/-- `grxFree`. -/
def grxFree (P : Platform) (s : Heap) (e address : ℕ) : Heap × Except GrxError Unit :=
  if address = 0 then (s, .ok ())
  else
    match s.live.find? (toLex (e, address)) with
    | none => (s, .error .invalidDevicePointer)
    | some a =>
        let s := { s with live := s.live.erase (toLex (e, address)) }
        if P.sanitize then ({ s with quarantine := a :: s.quarantine }, .ok ())
        else if a.direct then (s, .ok ())
        else ({ s with free := insertFree s.free a.base a.size a.slab }, .ok ())

/-- `release_all_allocations`. -/
def releaseAllAllocations (s : Heap) (e : ℕ) : Heap :=
  let live := s.live.filter fun k _ => (ofLex k).1 ≠ e
  let free := s.free.filter fun k _ => !s.ownedBy e (ofLex k).1
  let windows := s.slabs.zipIdx.filter fun w => w.1.npu && w.1.device = e
  let free := windows.foldl (fun free w => insertFree free w.1.base w.1.size w.2) free
  let slabs := s.slabs.map fun w => if w.device = e then { w with buffer := none } else w
  { slabs := slabs.filter (·.buffer.isSome)
    free
    live
    quarantine := s.quarantine.filter fun a => a.direct || a.device ≠ e }

/-- `grxDeviceReset`. -/
def grxDeviceReset (s : Heap) (e : ℕ) (sync : Option GrxError) : Heap × Except GrxError Unit :=
  (releaseAllAllocations s e, match sync with | some r => .error r | none => .ok ())

/-- A call of the allocator. -/
inductive Op
  | malloc (r : Request)
  | mallocPhysical (r : Request)
  | mallocManaged (r : Request)
  | free (address : ℕ)
  | reset (sync : Option GrxError)

/-- A call, with the current device of its thread. -/
structure Call where
  device : ℕ
  op : Op

/-- What a call does, and what it returns; a call that stores no pointer returns null here. -/
def Heap.call (P : Platform) (s : Heap) (c : Call) : Heap × Except GrxError ℕ :=
  match c.op with
  | .malloc r => grxMalloc P s c.device r
  | .mallocPhysical r => grxMallocPhysical P s c.device r
  | .mallocManaged r => grxMallocManaged P s c.device r
  | .free address =>
      match grxFree P s c.device address with
      | (s, r) => (s, r.map fun _ => 0)
  | .reset sync =>
      match grxDeviceReset s c.device sync with
      | (s, r) => (s, r.map fun _ => 0)

/-- The heap after a call. -/
def Heap.step (P : Platform) (s : Heap) (c : Call) : Heap :=
  (s.call P c).1

end Grxcp.Runtime
