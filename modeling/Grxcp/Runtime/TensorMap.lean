import Grxcp.Lib.Writes
import Grxcp.Runtime.Memory

/-!
# Tensor maps

`tensormap.cpp`: the descriptors of the copy engine. A descriptor is a slot of device configuration
registers, and programming it is a sequence of writes to them, ordered by the stream. A register is
named by its slot and its field, for `VX_DCR_DXA_DESC_BASE + slot * VX_DCR_DXA_DESC_STRIDE` and the
field's offset.
-/

namespace Grxcp.Runtime

/-- The fields of a descriptor slot (`VX_DCR_DXA_DESC_*_OFF`). -/
inductive DescField
  | baseLo
  | baseHi
  | size0
  | size1
  | stride0
  | metaWord
  | estride0
  | estride1
  | tilesize01
  | cfill
  | smemStride
deriving DecidableEq, Repr

/-- The registers of the slots. -/
abbrev SlotRegs :=
  ℤ × DescField → UInt32

/-- `DcrWrite`, with its slot. -/
abbrev DcrWrite :=
  (ℤ × DescField) × UInt32

/-- `grxTensorMapLayout_t`. -/
inductive GrxTensorMapLayout
  | rowMajor
  | kMajor
deriving DecidableEq, Repr

def GrxTensorMapLayout.code : GrxTensorMapLayout → UInt32
  | .rowMajor => 0
  | .kMajor => 1

-- the dimensions of a descriptor, and its strides, are counted from zero
instance dimsNeZero : NeZero 5 := ⟨by decide⟩

instance stridesNeZero : NeZero 4 := ⟨by decide⟩

/-- `grxTensorMapDesc_t`. -/
structure GrxTensorMapDesc where
  slot : ℤ := 0
  base : ℕ := 0
  rank : UInt32 := 0
  size : Fin 5 → UInt32 := fun _ => 0
  strideBytes : Fin 4 → UInt32 := fun _ => 0
  tile : Fin 5 → UInt32 := fun _ => 0
  elementBytes : UInt32 := 0
  layout : GrxTensorMapLayout := .rowMajor
  smemStrideBytes : UInt32 := 0

/-- What the descriptors read of a device: the capability bit, whether it has an MMU that the engine
bypasses, and `VX_DCR_DXA_DESC_COUNT`. -/
structure DxaDevice where
  asyncCopy : Bool := true
  unifiedAddressing : Bool := false
  descCount : ℤ := 4

/-- What the layers below answer to a call: `lookup_device_pointer`, `acquire_device`, the device of
the pointer, `resolve_stream`, and the first of the writes that the queue does not take. -/
structure ProgramReplies where
  mapping : Option Mapping := some {}
  acquire : Option GrxError := none
  device : DxaDevice := {}
  stream : Option GrxError := none
  refused : Option (ℕ × VxError) := none

/-! ## The encoding -/

/-- `pack_2x16`. -/
def pack2x16 (lo hi : UInt32) : UInt32 :=
  ((hi &&& 0xffff) <<< 16) ||| (lo &&& 0xffff)

/-- `elem_size_enc`. -/
def elemSizeEnc (elemBytes : UInt32) : UInt32 :=
  UInt32.ofNat elemBytes.toNat.log2

namespace GrxTensorMapDesc

/-- `meta` of the call. -/
def metaWord (desc : GrxTensorMapDesc) : UInt32 :=
  ((desc.rank &&& 7) <<< 0) ||| ((elemSizeEnc desc.elementBytes &&& 3) <<< 3) |||
    ((desc.layout.code &&& 3) <<< 5)

/-- A write to a field of the slot. -/
def put (desc : GrxTensorMapDesc) (field : DescField) (value : UInt32) : DcrWrite :=
  ((desc.slot, field), value)

/-- The writes of a descriptor, in their order. -/
def writes (desc : GrxTensorMapDesc) : List DcrWrite :=
  [ [desc.put .baseLo (UInt32.ofNat (desc.base % 2 ^ 32)),
      desc.put .baseHi (UInt32.ofNat (desc.base / 2 ^ 32)),
      desc.put .size0 (desc.size 0)],
    if 2 ≤ desc.rank then
      [desc.put .size1 (desc.size 1), desc.put .stride0 (desc.strideBytes 0)]
    else [],
    [desc.put .metaWord desc.metaWord, desc.put .estride0 1],
    if 2 ≤ desc.rank then [desc.put .estride1 1] else [],
    [desc.put .tilesize01 (pack2x16 (desc.tile 0) (if 2 ≤ desc.rank then desc.tile 1 else 0)),
      desc.put .cfill 0],
    if desc.smemStrideBytes ≠ 0 then [desc.put .smemStride desc.smemStrideBytes] else [] ].flatten

/-- The checks of the extents, one dimension after the other. -/
def extents (desc : GrxTensorMapDesc) : Option GrxError :=
  if desc.size 0 = 0 ∨ desc.tile 0 = 0 ∨ 0xffff < desc.tile 0 then some .invalidValue
  else if desc.rank = 2 ∧ (desc.size 1 = 0 ∨ desc.tile 1 = 0 ∨ 0xffff < desc.tile 1) then
    some .invalidValue
  else none

/-- How far the engine reads from the base on: none, if a row does not have room for its elements. -/
def span (desc : GrxTensorMapDesc) : Option ℕ :=
  let rowElems := max (desc.tile 0).toNat (desc.size 0).toNat
  let eb := desc.elementBytes.toNat
  if desc.rank = 1 then some (rowElems * eb)
  else if (desc.strideBytes 0).toNat < (desc.size 0).toNat * eb then none
  else
    some (add64 ((desc.size 1 - 1).toNat * (desc.strideBytes 0).toNat) (rowElems * eb))

end GrxTensorMapDesc

/-- `grxTensorMapProgramAsync` up to the queue: the writes to enqueue. -/
def tensorMapWrites (desc : Option GrxTensorMapDesc) (r : ProgramReplies) :
    Except GrxError (List DcrWrite) :=
  match desc with
  | none => .error .invalidValue
  | some desc =>
    if desc.base = 0 then .error .invalidValue
    else
      match r.mapping with
      | none => .error .invalidDevicePointer
      | some m =>
        match r.acquire with
        | some e => .error e
        | none =>
          if r.device.asyncCopy = false then .error .notSupported
          else if r.device.unifiedAddressing ∧ m.physical = false then .error .invalidDevicePointer
          else if desc.slot < 0 ∨ r.device.descCount ≤ desc.slot then .error .invalidValue
          else if desc.rank = 0 ∨ 5 < desc.rank then .error .invalidValue
          else if 2 < desc.rank then .error .notSupported
          else if desc.elementBytes ≠ 1 ∧ desc.elementBytes ≠ 2 ∧ desc.elementBytes ≠ 4 ∧
              desc.elementBytes ≠ 8 then .error .invalidValue
          else
            match desc.extents with
            | some e => .error e
            | none =>
              match desc.span with
              | none => .error .invalidValue
              | some span =>
                if m.size < span then .error .invalidValue
                else
                  match r.stream with
                  | some e => .error e
                  | none => .ok desc.writes

/-- `grxTensorMapProgramAsync`, with the registers as its writes leave them: the queue takes them in
order, and a call that fails at one has enqueued those before it. -/
def grxTensorMapProgramAsync (regs : SlotRegs) (desc : Option GrxTensorMapDesc)
    (r : ProgramReplies) : SlotRegs × Except GrxError Unit :=
  match tensorMapWrites desc r with
  | .error e => (regs, .error e)
  | .ok writes =>
    match r.refused with
    | none => (Writes.apply regs writes, .ok ())
    | some (i, e) =>
      if i < writes.length then (Writes.apply regs (writes.take i), .error (mapResult e))
      else (Writes.apply regs writes, .ok ())

end Grxcp.Runtime
