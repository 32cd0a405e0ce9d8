import Grxcp.Runtime.FatBinary
import Grxcp.Runtime.Context

/-!
# Kernel launch and occupancy

`launch.cpp`, with what it reads of the device table (`populate_properties` and its siblings in
`context.cpp`). A launch checks its grid and block against the device and the kernel, packs the arguments
into one block of bytes at the device's widths, and hands the driver a launch descriptor. `int` and
`size_t` are the fixed-width types, and wrap.

What looks a kernel up (`lookup_registration`, `lookup_function`) is answered with the call. The
sanitizer's drain and arming are one answer, and the profiler is left out.
-/

namespace Grxcp.Runtime

/-! ## The device table -/

/-- `dim3_t`. -/
structure Dim3 where
  x : UInt32 := 1
  y : UInt32 := 1
  z : UInt32 := 1
deriving DecidableEq, Repr

def GRX_CAP_MEMCPY : UInt32 := 8

def GRX_CAP_GEMM : UInt32 := 16

def GRX_CAP_COOPERATIVE_LAUNCH : UInt32 := 512

/-- What a launch reads of `grxDeviceProp_t`. -/
structure DeviceProp where
  capabilities : UInt32 := 0
  warpSize : Int32 := 0
  maxWarpsPerMultiProcessor : Int32 := 0
  multiProcessorCount : Int32 := 0
  maxThreadsPerBlock : Int32 := 0
  maxGridSize : Int32 × Int32 × Int32 := (0, 0, 0)
  sharedMemPerMultiprocessor : UInt64 := 0
  sharedMemPerBlock : UInt64 := 0
  cacheLineSize : Int32 := 0
deriving DecidableEq

/-- What the driver reports of a GPU: `query_or` of `VX_CAPS_*`, and the capability bits that come from
its instruction set and its MMU. -/
structure Caps where
  numThreads : UInt64 := 4
  numWarps : UInt64 := 4
  numCores : UInt64 := 1
  localMemSize : UInt64 := 16384
  cacheLineSize : UInt64 := 64
  isa : UInt32 := 0
deriving DecidableEq

/-- `(int)` of a `size_t`. -/
def toInt (v : UInt64) : Int32 :=
  v.toUInt32.toInt32

/-- `populate_properties`. -/
def populateProperties (c : Caps) : DeviceProp :=
  let warpSize := toInt c.numThreads
  let maxWarpsPerMultiProcessor := toInt c.numWarps
  let caps := GRX_CAP_STREAMS ||| GRX_CAP_EVENTS ||| GRX_CAP_MEMCPY
  let caps :=
    if 0 < warpSize ∧ 0 < maxWarpsPerMultiProcessor then
      caps ||| GRX_CAP_KERNEL_LAUNCH ||| GRX_CAP_COOPERATIVE_LAUNCH
    else caps
  { capabilities := caps ||| (c.isa &&& ~~~(GRX_CAP_KERNEL_LAUNCH ||| GRX_CAP_COOPERATIVE_LAUNCH))
    warpSize
    maxWarpsPerMultiProcessor
    multiProcessorCount := toInt c.numCores
    maxThreadsPerBlock := warpSize * maxWarpsPerMultiProcessor
    maxGridSize := (0x7fffffff, 0x7fffffff, 0x7fffffff)
    sharedMemPerMultiprocessor := c.localMemSize
    sharedMemPerBlock := c.localMemSize
    cacheLineSize := toInt c.cacheLineSize }

/-- `populate_npu_properties`. -/
def populateNpuProperties : DeviceProp where
  capabilities := 0x2e
  warpSize := 1
  cacheLineSize := 32

/-- `populate_pta_properties`. -/
def populatePtaProperties : DeviceProp where
  capabilities := GRX_CAP_GEMM

/-- An entry of the device table. -/
inductive TableDevice
  | gpu (caps : Caps)
  | npu
  | pta
deriving DecidableEq

/-- The properties of an entry, as `acquire_device` fills them. -/
def TableDevice.prop : TableDevice → DeviceProp
  | .gpu caps => populateProperties caps
  | .npu => populateNpuProperties
  | .pta => populatePtaProperties

/-! ## Arguments -/

/-- `grx_kernel_param`. -/
structure KernelParam where
  offset : UInt16
  size : UInt16
  isPointer : Bool := false
deriving DecidableEq

/-- `KernelBinding`, but for what the sanitizer and the profiler read of it. -/
structure KernelBinding where
  kernel : Kernel
  params : List KernelParam := []
  argsSize : UInt32 := 0
  staticSmem : UInt32 := 0
  maxThreadsPerBlock : UInt32 := 0
  hasLayout : Bool := true
  device : ℕ := 0

/-- `sizeof(void*)`. -/
def sizeofPointer : ℕ := 8

/-- `out->assign(args_size, 0)`. -/
def zeros (n : UInt32) : Blob :=
  ⟨List.replicate n.toNat 0, by
    have hlt : n.toNat < 2 ^ 32 := n.toNat_lt
    rw [List.length_replicate]
    omega⟩

/-- One pass of the loop of `pack_arguments`. The arguments are host values, by their bytes. -/
def packArgument (p : KernelParam) (arg : Option (List UInt8)) (out : Blob) : Except GrxError Blob :=
  let size := p.size.toNat
  if out.size < p.offset.toNat + size then .error .invalidValue
  else
    match arg with
    | none => .error .invalidValue
    | some value =>
      if p.isPointer ∧ size < sizeofPointer ∧ ofLE (value.take sizeofPointer) / 2 ^ (size * 8) ≠ 0 then
        .error .invalidValue
      else ((out.patch p.offset.toNat (value.take size)).elim (.error .invalidValue) .ok)

/-- The loop of `pack_arguments`, from parameter `i` on. -/
def packFrom (args : ℕ → Option (List UInt8)) : ℕ → List KernelParam → Blob → Except GrxError Blob
  | _, [], out => .ok out
  | i, p :: ps, out =>
    match packArgument p (args i) out with
    | .error e => .error e
    | .ok out => packFrom args (i + 1) ps out

/-- `pack_arguments`. -/
def packArguments (k : KernelBinding) (args : Option (ℕ → Option (List UInt8))) :
    Except GrxError Blob :=
  if k.hasLayout = false then .error .invalidDeviceFunction
  else
    match args with
    | none => if 0 < k.params.length then .error .invalidValue else .ok (zeros k.argsSize)
    | some args => packFrom args 0 k.params (zeros k.argsSize)

/-! ## The launch -/

/-- A zero counts as a one. -/
def orOne (v : UInt32) : UInt32 :=
  if v = 0 then 1 else v

/-- `volume`. -/
def volume (d : Dim3) : UInt32 :=
  orOne d.x * orOne d.y * orOne d.z

/-- `rank_of`. -/
def rankOf (grid block : Dim3) : UInt32 :=
  if 1 < grid.z ∨ 1 < block.z then 3
  else if 1 < grid.y ∨ 1 < block.y then 2
  else 1

/-- `validate`, and what it refuses a launch with. -/
def validate (prop : DeviceProp) (k : KernelBinding) (grid block : Dim3) (shared : UInt64) :
    Option GrxError :=
  if prop.capabilities &&& GRX_CAP_KERNEL_LAUNCH = 0 then some .notSupported
  else
    let threads := volume block
    if threads = 0 then some .invalidValue
    else if prop.maxThreadsPerBlock < threads.toInt32 then some .launchOutOfResources
    else if 0 < k.maxThreadsPerBlock ∧ k.maxThreadsPerBlock < threads then some .launchOutOfResources
    else if prop.maxGridSize.1.toUInt32 < grid.x ∨ prop.maxGridSize.2.1.toUInt32 < grid.y ∨
        prop.maxGridSize.2.2.toUInt32 < grid.z then some .invalidValue
    else if prop.sharedMemPerBlock < shared + k.staticSmem.toUInt64 then some .launchOutOfResources
    else none

/-- `vx_launch_info_t`. -/
structure LaunchInfo where
  kernel : Kernel
  args : Blob
  ndim : UInt32
  gridDim : Dim3
  blockDim : Dim3
  lmemSize : UInt32
  clusterDim : Dim3

/-- The launch descriptor of `launch_common`. -/
def launchInfo (k : KernelBinding) (grid block cluster : Dim3) (shared : UInt64) (args : Blob) :
    LaunchInfo where
  kernel := k.kernel
  args := args
  ndim := rankOf grid block
  gridDim := ⟨orOne grid.x, orOne grid.y, orOne grid.z⟩
  blockDim := ⟨orOne block.x, orOne block.y, orOne block.z⟩
  lmemSize := (shared + k.staticSmem.toUInt64).toUInt32
  clusterDim := ⟨orOne cluster.x, orOne cluster.y, orOne cluster.z⟩

/-- What the layers below answer to a launch. `armed` is the sanitizer's drain and arming. -/
structure LaunchReplies extends Replies where
  armed : Option GrxError := none

/-- `launch_common`, on a device with these properties, and the descriptor that the driver takes. -/
def launchCommon (P : Platform) (s : Streams) (prop : DeviceProp) (k : KernelBinding)
    (grid block cluster : Dim3) (shared : UInt64) (args : Blob) (device : ℕ) (stream : Option ℕ)
    (r : LaunchReplies) : Streams × Except GrxError LaunchInfo :=
  match r.acquire with
  | some e => (s, .error e)
  | none =>
    match validate prop k grid block shared with
    | some e => (s, .error e)
    | none =>
      match Streams.resolveStream P s stream device r.toReplies with
      | (s, .error e) => (s, .error e)
      | (s, .ok queue) =>
        match if P.sanitize then r.armed else none with
        | some e => (s, .error e)
        | none =>
          let info := launchInfo k grid block cluster shared args
          let waits := s.collectWaitEvents stream device
          match r.enqueue with
          | some x => (s, .error (mapResult x))
          | none =>
            let completion := s.board.log.length
            let s := s.enqueue ⟨queue, waits, .work (.launch k.kernel)⟩
            (s.setStreamLastEvent stream device completion, .ok info)

/-! ## Residency -/

/-- `resident_blocks_per_sm`. -/
def residentBlocksPerSm (prop : DeviceProp) (blockSize : Int32) (smemPerBlock : UInt64) : Int32 :=
  if blockSize ≤ 0 ∨ prop.warpSize ≤ 0 then 0
  else
    let warpsPerCta := (blockSize + prop.warpSize - 1) / prop.warpSize
    if warpsPerCta ≤ 0 then 0
    else
      let warpBound := prop.maxWarpsPerMultiProcessor / warpsPerCta
      let slotBound := prop.maxWarpsPerMultiProcessor
      let smemBound :=
        if 0 < smemPerBlock then
          let granule : UInt64 :=
            if 0 < prop.cacheLineSize then prop.cacheLineSize.toInt64.toUInt64 else 64
          let stride := (smemPerBlock + granule - 1) / granule * granule
          if stride = 0 then slotBound else toInt (prop.sharedMemPerMultiprocessor / stride)
        else slotBound
      let n := warpBound
      let n := if slotBound < n then slotBound else n
      let n := if smemBound < n then smemBound else n
      if n < 0 then 0 else n

/-- `check_cooperative`, and what it refuses a launch with. -/
def checkCooperative (prop : DeviceProp) (grid block : Dim3) (smemPerBlock : UInt64) :
    Option GrxError :=
  let perSm := residentBlocksPerSm prop (volume block).toInt32 smemPerBlock
  let blocks := (orOne grid.x).toUInt64 * (orOne grid.y).toUInt64 * (orOne grid.z).toUInt64
  if perSm ≤ 0 then some .launchOutOfResources
  else if perSm.toInt64.toUInt64 * prop.multiProcessorCount.toInt64.toUInt64 < blocks then
    some .launchOutOfResources
  else if blocks < prop.multiProcessorCount.toInt64.toUInt64 then some .launchOutOfResources
  else none

/-! ## The entry points -/

/-- `grxLaunchAttribute`. -/
inductive LaunchAttribute
  | clusterDimension (cluster : Dim3)
  | cooperative (on : Bool)
  | priority
  | sharedMemCarveout
deriving DecidableEq

/-- What the attributes of a configuration ask for: the cluster, and whether the launch is cooperative. -/
def readAttributes : List LaunchAttribute → Dim3 × Bool → Except GrxError (Dim3 × Bool)
  | [], x => .ok x
  | .clusterDimension cluster :: as, x => readAttributes as (cluster, x.2)
  | .cooperative on :: as, x => readAttributes as (x.1, on)
  | .priority :: as, x => readAttributes as x
  | .sharedMemCarveout :: _, _ => .error .notSupported

/-- `grxLaunchConfig_t`. -/
structure LaunchConfig where
  gridDim : Dim3
  blockDim : Dim3
  dynamicSharedMem : UInt64 := 0
  stream : Option ℕ := none
  attributes : List LaunchAttribute := []

/-- `grxLaunchKernelEx`, of a stub that is registered. -/
def grxLaunchKernelEx (P : Platform) (s : Streams) (prop : DeviceProp) (k : KernelBinding)
    (config : LaunchConfig) (args : Option (ℕ → Option (List UInt8))) (device : ℕ)
    (r : LaunchReplies) : Streams × Except GrxError LaunchInfo :=
  match readAttributes config.attributes ({}, false) with
  | .error e => (s, .error e)
  | .ok (cluster, cooperative) =>
    match r.acquire with
    | some e => (s, .error e)
    | none =>
      if cooperative ∧ prop.capabilities &&& GRX_CAP_COOPERATIVE_LAUNCH = 0 then
        (s, .error .notSupported)
      else
        match if cooperative then checkCooperative prop config.gridDim config.blockDim
            (config.dynamicSharedMem + k.staticSmem.toUInt64) else none with
        | some e => (s, .error e)
        | none =>
          match packArguments k args with
          | .error e => (s, .error e)
          | .ok blob =>
            launchCommon P s prop k config.gridDim config.blockDim cluster config.dynamicSharedMem blob
              device config.stream r

/-- `grxLaunchCooperativeFunction`, of a function that is there. -/
def grxLaunchCooperativeFunction (P : Platform) (s : Streams) (prop : DeviceProp) (k : KernelBinding)
    (grid block : Dim3) (args : Blob) (shared : UInt64) (stream : Option ℕ) (r : LaunchReplies) :
    Streams × Except GrxError LaunchInfo :=
  match r.acquire with
  | some e => (s, .error e)
  | none =>
    if prop.capabilities &&& GRX_CAP_COOPERATIVE_LAUNCH = 0 then (s, .error .notSupported)
    else
      match checkCooperative prop grid block (shared + k.staticSmem.toUInt64) with
      | some e => (s, .error e)
      | none => launchCommon P s prop k grid block {} shared args k.device stream r

/-- The loop of `grxOccupancyMaxPotentialBlockSize`, from block size `bs` on, with the best block so far
and its threads. -/
def searchBlocks (prop : DeviceProp) (smem : UInt64) (limit : Int32) :
    ℕ → Int32 → Int32 → Int32 → Option Int32
  | 0, _, _, _ => none
  | fuel + 1, bs, bestBlock, bestThreads =>
    if bs ≤ limit then
      let threads := residentBlocksPerSm prop bs smem * bs
      if bestThreads < threads then searchBlocks prop smem limit fuel (bs + prop.warpSize) bs threads
      else searchBlocks prop smem limit fuel (bs + prop.warpSize) bestBlock bestThreads
    else some bestBlock

/-- The block size that the search may go up to. -/
def searchLimit (prop : DeviceProp) (blockSizeLimit : Int32) : Int32 :=
  if 0 < blockSizeLimit ∧ blockSizeLimit < prop.maxThreadsPerBlock then blockSizeLimit
  else prop.maxThreadsPerBlock

/-- `grxOccupancyMaxPotentialBlockSize`, with `blockSize` and `minGridSize`. `k` is the kernel, where it
is known. No value is a search that has not come to its end. -/
def grxOccupancyMaxPotentialBlockSize (fuel : ℕ) (prop : DeviceProp) (k : Option KernelBinding)
    (dynamicSMemSize : UInt64) (blockSizeLimit : Int32) (out : Bool) (acquire : Option GrxError) :
    Option (Except GrxError (Int32 × Int32)) :=
  if out = false then some (.error .invalidValue)
  else
    match acquire with
    | some e => some (.error e)
    | none =>
      let staticSmem := (k.map fun k => k.staticSmem.toUInt64).getD 0
      let smem := dynamicSMemSize + staticSmem
      (searchBlocks prop smem (searchLimit prop blockSizeLimit) fuel prop.warpSize prop.warpSize 0).map
        fun block => .ok (block, residentBlocksPerSm prop block smem * prop.multiProcessorCount)

end Grxcp.Runtime
