import Grxcp.Lib.Bisect

/-!
# The device half of the sanitizer

`grx_sanitize_rt.cpp` and the ABI that it shares with the host. Every access of an instrumented kernel
calls one of the callbacks, which look the address up in the allocation table that the host uploaded. The
arrays of the table are as device memory has them, with the counts of the control block. What the
hardware tells a thread is `Cta`; the places of a finding (block, thread, warp, lane) are its slot.
-/

namespace Grxcp.Device

def GRX_SAN_ABI_VERSION : UInt32 := 1

def GRX_SAN_KIND_OOB_GLOBAL : UInt32 := 1

def GRX_SAN_KIND_OOB_STRADDLE : UInt32 := 2

def GRX_SAN_KIND_USE_AFTER_FREE : UInt32 := 3

def GRX_SAN_KIND_OOB_SHARED : UInt32 := 4

def GRX_SAN_FLAG_WRITE : UInt32 := 1

def GRX_SAN_EXTENT_LIVE : UInt32 := 1

def GRX_SAN_EXTENT_FREED : UInt32 := 2

/-- `grxSanExtent`. -/
structure SanExtent where
  base : UInt64 := 0
  size : UInt64 := 0
  state : UInt32 := 0
  id : UInt32 := 0
deriving DecidableEq, Repr

/-- `grxSanRegion`. -/
structure SanRegion where
  base : UInt64 := 0
  size : UInt64 := 0
deriving DecidableEq, Repr

/-- `grxSanReport`, but for the place of the thread, which is the slot of the report. -/
structure SanReport where
  kind : UInt32
  addr : UInt64
  size : UInt32
  flags : UInt32
  pc : UInt64
  extentBase : UInt64
  extentSize : UInt64
  extentId : UInt32
deriving DecidableEq, Repr

/-- `grxSanState`, with the arrays that it points to. -/
structure SanState where
  abiVersion : UInt32 := GRX_SAN_ABI_VERSION
  enabled : UInt32 := 1
  extents : ℕ → SanExtent
  regions : ℕ → SanRegion
  numExtents : UInt32
  numRegions : UInt32
  maxReports : UInt32 := 1024
  sharedBytes : UInt32 := 0

/-- What a thread has of its hardware: the local-memory aperture (`kLmemBase`, `kLmemSize`), the slot of
its block in it (`__local_mem()`), and its place in the grid. -/
structure Cta where
  lmemBase : UInt64
  lmemSize : UInt64
  localMem : UInt64
  place : UInt32 := 0

/-! ## Reports -/

/-- The slots of the report table: empty where the kind is zero. -/
abbrev Reports :=
  UInt32 → Option SanReport

/-- `report`: a thread's first finding stays in its slot, if the table has one. -/
def report (c : Cta) (s : SanState) (reports : Reports) (r : SanReport) : Reports :=
  if s.maxReports ≤ c.place then reports
  else if (reports c.place).isSome then reports
  else Function.update reports c.place (some r)

/-! ## The check -/

/-- `find_extent`, by its index. -/
def findExtent (s : SanState) (addr : UInt64) : Option ℕ :=
  Bisect.last (fun mid => decide ((s.extents mid).base ≤ addr)) s.numExtents.toNat

/-- `in_owned_region`. -/
def inOwnedRegion (s : SanState) (addr : UInt64) : Bool :=
  (List.range s.numRegions.toNat).any fun i =>
    decide ((s.regions i).base ≤ addr ∧ addr < (s.regions i).base + (s.regions i).size)

/-- The finding of a kind for an extent, or for none. -/
def finding (kind : UInt32) (addr : UInt64) (size flags : UInt32) (pc : UInt64) (e : SanExtent) :
    SanReport where
  kind
  addr
  size
  flags
  pc
  extentBase := e.base
  extentSize := e.size
  extentId := e.id

/-- `check`, by the finding that it reports. The state is where the anchor points, if it does. -/
def check (c : Cta) (anchor : Option SanState) (addr : UInt64) (size flags : UInt32) (pc : UInt64) :
    Option SanReport :=
  match anchor with
  | none => none
  | some s =>
    if s.enabled = 0 ∨ s.abiVersion ≠ GRX_SAN_ABI_VERSION then none
    else if c.lmemBase ≤ addr ∧ addr < c.lmemBase + c.lmemSize then
      if addr < c.localMem ∨ c.localMem + s.sharedBytes.toUInt64 < addr + size.toUInt64 then
        some (finding GRX_SAN_KIND_OOB_SHARED addr size flags pc
          ⟨c.localMem, s.sharedBytes.toUInt64, 0, 0⟩)
      else none
    else if inOwnedRegion s addr = false then none
    else
      match findExtent s addr with
      | none => some (finding GRX_SAN_KIND_OOB_GLOBAL addr size flags pc {})
      | some i =>
        let e := s.extents i
        if e.base + e.size ≤ addr then some (finding GRX_SAN_KIND_OOB_GLOBAL addr size flags pc e)
        else if e.state = GRX_SAN_EXTENT_FREED then
          some (finding GRX_SAN_KIND_USE_AFTER_FREE addr size flags pc e)
        else if e.base + e.size < addr + size.toUInt64 then
          some (finding GRX_SAN_KIND_OOB_STRADDLE addr size flags pc e)
        else none

/-! ## The callbacks -/

section Callbacks

variable (c : Cta) (anchor : Option SanState) (pc : UInt64)

/-- `GRX_SAN_ACCESS`. -/
def sanAccess (bytes flags : UInt32) (addr : UInt64) : List SanReport :=
  (check c anchor addr bytes flags pc).toList

/-- `__asan_load1`. -/
def asanLoad1 := sanAccess c anchor pc 1 0

/-- `__asan_load2`. -/
def asanLoad2 := sanAccess c anchor pc 2 0

/-- `__asan_load4`, and `__asan_load4_noabort`. -/
def asanLoad4 := sanAccess c anchor pc 4 0

/-- `__asan_load8`. -/
def asanLoad8 := sanAccess c anchor pc 8 0

/-- `__asan_load16`. -/
def asanLoad16 := sanAccess c anchor pc 16 0

/-- `__asan_store1`. -/
def asanStore1 := sanAccess c anchor pc 1 GRX_SAN_FLAG_WRITE

/-- `__asan_store2`. -/
def asanStore2 := sanAccess c anchor pc 2 GRX_SAN_FLAG_WRITE

/-- `__asan_store4`, and `__asan_store4_noabort`. -/
def asanStore4 := sanAccess c anchor pc 4 GRX_SAN_FLAG_WRITE

/-- `__asan_store8`. -/
def asanStore8 := sanAccess c anchor pc 8 GRX_SAN_FLAG_WRITE

/-- `__asan_store16`. -/
def asanStore16 := sanAccess c anchor pc 16 GRX_SAN_FLAG_WRITE

/-- `__asan_loadN`. -/
def asanLoadN (addr size : UInt64) : List SanReport :=
  (check c anchor addr size.toUInt32 0 pc).toList

/-- `__asan_storeN`. -/
def asanStoreN (addr size : UInt64) : List SanReport :=
  (check c anchor addr size.toUInt32 GRX_SAN_FLAG_WRITE pc).toList

/-- The two checks of a range. -/
def checkEnds (addr n : UInt64) (flags : UInt32) : List SanReport :=
  (check c anchor addr 1 flags pc).toList ++ (check c anchor (addr + n - 1) 1 flags pc).toList

/-- `__asan_memcpy`. -/
def asanMemcpy (dst src n : UInt64) : List SanReport :=
  if n ≠ 0 then checkEnds c anchor pc dst n GRX_SAN_FLAG_WRITE ++ checkEnds c anchor pc src n 0
  else []

/-- `__asan_memmove`. -/
def asanMemmove (dst src n : UInt64) : List SanReport :=
  if n ≠ 0 then checkEnds c anchor pc dst n GRX_SAN_FLAG_WRITE ++ checkEnds c anchor pc src n 0
  else []

/-- `__asan_memset`. -/
def asanMemset (dst n : UInt64) : List SanReport :=
  if n ≠ 0 then checkEnds c anchor pc dst n GRX_SAN_FLAG_WRITE else []

end Callbacks

/-- A call of a callback. -/
inductive AsanCall
  | load1 (addr : UInt64)
  | load2 (addr : UInt64)
  | load4 (addr : UInt64)
  | load8 (addr : UInt64)
  | load16 (addr : UInt64)
  | store1 (addr : UInt64)
  | store2 (addr : UInt64)
  | store4 (addr : UInt64)
  | store8 (addr : UInt64)
  | store16 (addr : UInt64)
  | loadN (addr size : UInt64)
  | storeN (addr size : UInt64)
  | memcpy (dst src n : UInt64)
  | memmove (dst src n : UInt64)
  | memset (dst n : UInt64)
deriving DecidableEq, Repr

/-- The findings of a call, in their order. -/
def AsanCall.findings (c : Cta) (anchor : Option SanState) (pc : UInt64) : AsanCall → List SanReport
  | .load1 addr => asanLoad1 c anchor pc addr
  | .load2 addr => asanLoad2 c anchor pc addr
  | .load4 addr => asanLoad4 c anchor pc addr
  | .load8 addr => asanLoad8 c anchor pc addr
  | .load16 addr => asanLoad16 c anchor pc addr
  | .store1 addr => asanStore1 c anchor pc addr
  | .store2 addr => asanStore2 c anchor pc addr
  | .store4 addr => asanStore4 c anchor pc addr
  | .store8 addr => asanStore8 c anchor pc addr
  | .store16 addr => asanStore16 c anchor pc addr
  | .loadN addr size => asanLoadN c anchor pc addr size
  | .storeN addr size => asanStoreN c anchor pc addr size
  | .memcpy dst src n => asanMemcpy c anchor pc dst src n
  | .memmove dst src n => asanMemmove c anchor pc dst src n
  | .memset dst n => asanMemset c anchor pc dst n

end Grxcp.Device
