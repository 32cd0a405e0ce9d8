import Mathlib.Tactic

/-!
# The runtime's devices and errors

What the modules of the runtime share: the error codes, the driver's failures and their mapping, the
device table, and the settings that the environment gives. The build is the one with the NPU in it
(`GRXCP_ENABLE_NPU`).
-/

namespace Grxcp.Runtime

/-- `grxError_t`, but for `grxSuccess`. -/
inductive GrxError
  | invalidValue
  | memoryAllocation
  | initializationError
  | invalidDevice
  | invalidDevicePointer
  | invalidMemcpyDirection
  | invalidResourceHandle
  | notReady
  | notSupported
  | invalidKernelImage
  | invalidDeviceFunction
  | launchFailure
  | launchOutOfResources
  | deviceLost
  | timeout
  | fileNotFound
  | invalidSymbol
  | unknown
deriving DecidableEq, Repr

/-- `vx_result_t`, but for `VX_SUCCESS`. -/
inductive VxError
  | invalidHandle
  | invalidInfo
  | invalidValue
  | outOfHostMemory
  | outOfDeviceMemory
  | deviceLost
  | timeout
  | eventFailed
  | notSupported
  | internal
deriving DecidableEq, Repr

/-- `map_result`, of a failure. -/
def mapResult : VxError → GrxError
  | .invalidHandle => .invalidResourceHandle
  | .invalidInfo => .invalidValue
  | .invalidValue => .invalidValue
  | .outOfHostMemory => .memoryAllocation
  | .outOfDeviceMemory => .memoryAllocation
  | .deviceLost => .deviceLost
  | .timeout => .timeout
  | .eventFailed => .invalidResourceHandle
  | .notSupported => .notSupported
  | .internal => .unknown

/-- `DeviceType`. -/
inductive DeviceType
  | gpu
  | npu
  | pta
deriving DecidableEq, Repr

def GRX_CAP_KERNEL_LAUNCH : UInt32 := 1

def GRX_CAP_STREAMS : UInt32 := 2

def GRX_CAP_EVENTS : UInt32 := 4

/-- A device, with what the allocator and the streams read of its properties. -/
structure Device where
  type : DeviceType := .gpu
  capabilities : UInt32 := GRX_CAP_KERNEL_LAUNCH ||| GRX_CAP_STREAMS ||| GRX_CAP_EVENTS
  cacheLineSize : Int32 := 0
  totalGlobalMem : UInt64 := 0
  managedMemory : Bool := false
deriving DecidableEq

/-- The device table by index, and the environment: `GRX_SLAB_BYTES` as `strtoull` reads it, and
`GRX_SANITIZE`. -/
structure Platform where
  device : ℕ → Device
  grxSlabBytes : Option ℕ := none
  sanitize : Bool := false

/-- Devices with the properties of the default. -/
def plain : Platform where
  device := fun _ => {}

/-- A buffer of the driver's (`vx_buffer_h`): the device it is of, and which. -/
structure Buffer where
  device : ℕ
  id : ℕ
deriving DecidableEq, Repr

/-- A queue of the driver's (`vx_queue_h`). -/
structure Queue where
  device : ℕ
  id : ℕ
deriving DecidableEq, Repr

/-- A kernel of a module that is loaded on a device (`vx_kernel_h`). -/
structure Kernel where
  device : ℕ
  id : ℕ
deriving DecidableEq, Repr

end Grxcp.Runtime
