import Grxcp.Runtime.TensorMap

/-!
# grxBLAS

The host side of `grxblas.cpp`: what a call asks of the devices and of its module, and what it launches
and programs. A launch is the kernel with the geometry and those fields of its arguments that another
call can see (the probe and the descriptor slots); the operands and scalars go to the kernel as they
come. A call on a null handle returns before it does anything and is left out.

The devices are a `Machine`. What the runtime answers on the way (the module's functions, what its shape
kernels report, and whether a launch is taken) is given with the call, and so is what the environment
says of `GRXBLAS_SGEMM_*`.
-/

namespace Grxcp.Blas

open Grxcp.Runtime

/-- `grxblasStatus_t`. -/
inductive Status
  | success
  | notInitialized
  | allocFailed
  | invalidValue
  | archMismatch
  | executionFailed
  | notSupported
  | internalError
deriving DecidableEq, Repr

/-- `from_grx`. -/
def fromGrx : Option GrxError → Status
  | none => .success
  | some .memoryAllocation => .allocFailed
  | some .invalidValue => .invalidValue
  | some .invalidDevicePointer => .invalidValue
  | some .notSupported => .notSupported
  | some _ => .executionFailed

/-! ## Devices -/

def GRX_CAP_TENSOR_CORE : UInt32 := 64

def GRX_CAP_ASYNC_COPY : UInt32 := 128

/-- What the libraries read of `grxDeviceProp_t`. -/
structure DeviceProp where
  deviceType : DeviceType := .gpu
  warpSize : Int32 := 4
  maxWarpsPerMultiProcessor : Int32 := 4
  multiProcessorCount : Int32 := 1
  maxThreadsPerBlock : Int32 := 16
  capabilities : UInt32 := 0
deriving DecidableEq

/-- The devices by index: `grxGetDeviceProperties`, and `grxTensorMapGetSlotCount`. -/
structure Machine where
  props : ℕ → Except GrxError DeviceProp
  slotCount : ℕ → Except GrxError Int32

/-! ## Launches -/

/-- The kernels of the library's module. -/
inductive BlasKernel
  | sgemm
  | sgemmRb
  | sgemm2d
  | sgemm2dI
  | sgemm4x2
  | sgemm4x4
  | sgemmShape
  | saxpy
  | sscal
  | sgemv
  | hgemmTcu
  | hgemmTcuShape
  | igemmTcu
  | igemmTcuShape
deriving DecidableEq, Repr

/-- `grxLaunchFunction`, on the device of the kernel's module, with the probe's address (null is off)
and the descriptor slots. `refused` is what it returns. -/
structure Launch where
  kernel : BlasKernel
  device : ℕ
  grid : UInt32 × UInt32
  block : UInt32
  sharedMem : UInt64 := 0
  stream : Option ℕ
  cycles : UInt64 := 0
  slots : Option (Int32 × Int32) := none
  refused : Option GrxError
deriving DecidableEq

/-- `grxTensorMapProgramAsync`, on the current device. -/
structure Program where
  desc : GrxTensorMapDesc
  device : ℕ
  stream : Option ℕ
  refused : Option GrxError

/-- What a call asks of the runtime's streams, in its order. -/
inductive Issue
  | launch (l : Launch)
  | program (p : Program)

/-- The launches among what was asked. -/
def launches (issued : List Issue) : List Launch :=
  issued.filterMap fun
    | .launch l => some l
    | .program _ => none

/-! ## The handle -/

/-- What the loaded module has, and the device that it was loaded on. -/
structure Module where
  device : ℕ
  rb : Bool := true
  twoD : Bool := true
  twoDI : Bool := true
  wide : Bool := true
  mid : Bool := true
  shape : Bool := true
  axpy : Bool := true
  scal : Bool := true
  gemv : Bool := true
  hgemm : Bool := true
  igemm : Bool := true
deriving DecidableEq

/-- `Context`. The functions of level 1 to 3 are those of the module. -/
structure Context where
  stream : Option ℕ := none
  module : Option Module := none
  rbRows : Int32 := 0
  tdRows : Int32 := 0
  tdCols : Int32 := 0
  wdRows : Int32 := 0
  wdCols : Int32 := 0
  mdRows : Int32 := 0
  mdCols : Int32 := 0
  probe : UInt64 := 0
  probeCapacity : Int32 := 0
  hgemmFn : Bool := false
  tileM : UInt32 := 0
  tileN : UInt32 := 0
  tileK : UInt32 := 0
  tileSmem : UInt32 := 0
  tcuTypes : UInt32 := 0
  igemmFn : Bool := false
  i8TileK : UInt32 := 0
  i8Smem : UInt32 := 0
  i8BlockM : UInt32 := 0
  i8BlockN : UInt32 := 0
  blockM : UInt32 := 0
  blockN : UInt32 := 0
  slotA : Int32 := 0
  slotB : Int32 := 1
deriving DecidableEq

/-- What a call leaves: the handle, what it asked for, and the status. -/
structure Outcome where
  ctx : Context
  issued : List Issue := []
  status : Status := .success

/-- Go on with a call unless it has failed. -/
def Outcome.andThen (o : Outcome) (f : Context → Outcome) : Outcome :=
  if o.status = .success then
    let next := f o.ctx
    { next with issued := o.issued ++ next.issued }
  else o

/-! ## The module -/

/-- What `sgemm_shape` reports. -/
structure SgemmShape where
  rbRm : UInt32 := 4
  twoDRm : UInt32 := 2
  twoDRn : UInt32 := 2
  wideRm : UInt32 := 4
  wideRn : UInt32 := 4
  midRm : UInt32 := 4
  midRn : UInt32 := 2
deriving DecidableEq

/-- What is answered while the module is loaded: the module, and for `sgemm_shape` the allocation, the
launch, and what the wait and the copy bring back. -/
structure LoadReplies where
  module : Option Module := none
  alloc : Bool := true
  launch : Option GrxError := none
  shape : Option SgemmShape := none
deriving DecidableEq

/-- A shape kernel's launch: one warp on the null stream. -/
def shapeLaunch (kernel : BlasKernel) (device : ℕ) (prop : DeviceProp) (refused : Option GrxError) :
    Launch where
  kernel := kernel
  device := device
  grid := (1, 1)
  block := prop.warpSize.toUInt32
  stream := none
  refused := refused

/-- The tiles that the module reports, as the handle keeps them. -/
def Context.withShape (ctx : Context) (shape : SgemmShape) : Context :=
  if shape.rbRm = 0 then ctx
  else
    let ctx := { ctx with rbRows := shape.rbRm.toInt32 }
    let ctx :=
      if shape.twoDRm ≠ 0 ∧ shape.twoDRn ≠ 0 then
        { ctx with tdRows := shape.twoDRm.toInt32, tdCols := shape.twoDRn.toInt32 }
      else ctx
    let ctx :=
      if shape.wideRm ≠ 0 ∧ shape.wideRn ≠ 0 then
        { ctx with wdRows := shape.wideRm.toInt32, wdCols := shape.wideRn.toInt32 }
      else ctx
    if shape.midRm ≠ 0 ∧ shape.midRn ≠ 0 then
      { ctx with mdRows := shape.midRm.toInt32, mdCols := shape.midRn.toInt32 }
    else ctx

/-- `read_sgemm_shape`, of a handle whose geometry is zero. -/
def readSgemmShape (M : Machine) (ctx : Context) (module : Module) (r : LoadReplies) : Outcome :=
  if module.shape = false then { ctx }
  else
    match M.props 0 with
    | .error _ => { ctx }
    | .ok prop =>
      if prop.warpSize ≤ 0 then { ctx }
      else if r.alloc = false then { ctx }
      else
        let launch := shapeLaunch .sgemmShape module.device prop r.launch
        match r.launch, r.shape with
        | none, some shape => { ctx := ctx.withShape shape, issued := [.launch launch] }
        | _, _ => { ctx, issued := [.launch launch] }

/-- `ensure_module_locked`. The module is loaded on the current device. -/
def ensureModule (M : Machine) (current : ℕ) (ctx : Context) (r : LoadReplies) : Outcome :=
  match ctx.module with
  | some _ => { ctx }
  | none =>
    match r.module with
    | none => { ctx, status := .notInitialized }
    | some module =>
      let module := { module with device := current }
      readSgemmShape M
        { ctx with
          module := some module, rbRows := 0, tdRows := 0, tdCols := 0, wdRows := 0, wdCols := 0
          mdRows := 0, mdCols := 0 } module r

/-- The module of a handle after `ensure_module_locked`. -/
def Context.loaded (ctx : Context) : Module :=
  ctx.module.getD ⟨0, false, false, false, false, false, false, false, false, false, false, false⟩

/-! ## Setters -/

/-- `grxblasSetStream`. -/
def grxblasSetStream (ctx : Context) (stream : Option ℕ) : Context :=
  { ctx with stream }

/-- `grxblasSetTensorMapSlots`. -/
def grxblasSetTensorMapSlots (M : Machine) (ctx : Context) (slotA slotB : Int32) : Outcome :=
  match M.slotCount 0 with
  | .error _ => { ctx, status := .internalError }
  | .ok slots =>
    if slotA < 0 ∨ slotB < 0 ∨ slots ≤ slotA ∨ slots ≤ slotB ∨ slotA = slotB then
      { ctx, status := .invalidValue }
    else { ctx := { ctx with slotA, slotB } }

/-- `grxblasSetCycleProbe`. -/
def grxblasSetCycleProbe (ctx : Context) (slots : UInt64) (capacity : Int32) : Outcome :=
  if slots ≠ 0 ∧ capacity ≤ 0 then { ctx, status := .invalidValue }
  else { ctx := { ctx with probe := slots, probeCapacity := if slots ≠ 0 then capacity else 0 } }

/-- `slots_for`. -/
def slotsFor (m n warpSize : Int32) : Int32 :=
  if m ≤ 0 ∨ n ≤ 0 ∨ warpSize ≤ 0 then 0
  else
    let total := m.toInt64 * n.toInt64
    ((total + warpSize.toInt64 - 1) / warpSize.toInt64).toInt32

/-- `grxblasCycleSlotsNeeded`. -/
def grxblasCycleSlotsNeeded (M : Machine) (m n : Int32) : Int32 :=
  match M.props 0 with
  | .error _ => 0
  | .ok prop => slotsFor m n prop.warpSize

/-! ## Level 1 and level 2 -/

/-- What the calls of level 1 and 2 launch when their arguments and module are in order: one warp to a
block, on a grid that the device's warp and the probe's capacity decide. -/
def launchFlat (M : Machine) (ctx : Context) (kernel : BlasKernel) (grid : DeviceProp → UInt32)
    (refused : Option GrxError) : Outcome :=
  match M.props 0 with
  | .error e => { ctx, status := fromGrx (some e) }
  | .ok prop =>
    let grid := grid prop
    if ctx.probe ≠ 0 ∧ ctx.probeCapacity < grid.toInt32 then { ctx, status := .invalidValue }
    else
      { ctx
        issued := [.launch
          { kernel, device := ctx.loaded.device, grid := (grid, 1), block := prop.warpSize.toUInt32
            stream := ctx.stream, cycles := ctx.probe, refused }]
        status := fromGrx refused }

/-- The blocks of one warp for `n` threads. -/
def flatGrid (n : UInt32) (prop : DeviceProp) : UInt32 :=
  (n + prop.warpSize.toUInt32 - 1) / prop.warpSize.toUInt32

/-- The arguments of a level-1 call that it checks. -/
structure VectorArgs where
  alpha : Bool := true
  n : Int32
  x : UInt64
  incx : Int32 := 1
  y : UInt64 := 0
  incy : Int32 := 1
deriving DecidableEq

/-- `grxblasSaxpy`. -/
def grxblasSaxpy (M : Machine) (current : ℕ) (ctx : Context) (a : VectorArgs) (r : LoadReplies)
    (refused : Option GrxError) : Outcome :=
  if a.alpha = false then { ctx, status := .invalidValue }
  else if a.n < 0 then { ctx, status := .invalidValue }
  else if a.n = 0 then { ctx }
  else if a.x = 0 ∨ a.y = 0 then { ctx, status := .invalidValue }
  else if a.incx = 0 ∨ a.incy = 0 then { ctx, status := .invalidValue }
  else
    (ensureModule M current ctx r).andThen fun ctx =>
      if ctx.loaded.axpy = false then { ctx, status := .notSupported }
      else launchFlat M ctx .saxpy (flatGrid a.n.toUInt32) refused

/-- `grxblasSscal`. -/
def grxblasSscal (M : Machine) (current : ℕ) (ctx : Context) (a : VectorArgs) (r : LoadReplies)
    (refused : Option GrxError) : Outcome :=
  if a.alpha = false then { ctx, status := .invalidValue }
  else if a.n < 0 then { ctx, status := .invalidValue }
  else if a.n = 0 then { ctx }
  else if a.x = 0 then { ctx, status := .invalidValue }
  else if a.incx ≤ 0 then { ctx, status := .invalidValue }
  else
    (ensureModule M current ctx r).andThen fun ctx =>
      if ctx.loaded.scal = false then { ctx, status := .notSupported }
      else launchFlat M ctx .sscal (flatGrid a.n.toUInt32) refused

/-- The arguments of `grxblasSgemv` that it checks. -/
structure GemvArgs where
  trans : Bool := false
  m : Int32
  n : Int32
  scalars : Bool := true
  a : UInt64
  lda : Int32
  x : UInt64
  incx : Int32 := 1
  y : UInt64
  incy : Int32 := 1
deriving DecidableEq

/-- `grxblasSgemv`. Transposed, it has a warp for each output. -/
def grxblasSgemv (M : Machine) (current : ℕ) (ctx : Context) (a : GemvArgs) (r : LoadReplies)
    (refused : Option GrxError) : Outcome :=
  if a.scalars = false then { ctx, status := .invalidValue }
  else if a.m < 0 ∨ a.n < 0 then { ctx, status := .invalidValue }
  else if a.m = 0 ∨ a.n = 0 then { ctx }
  else if a.a = 0 ∨ a.x = 0 ∨ a.y = 0 then { ctx, status := .invalidValue }
  else if a.incx = 0 ∨ a.incy = 0 then { ctx, status := .invalidValue }
  else if a.lda < a.m then { ctx, status := .invalidValue }
  else
    (ensureModule M current ctx r).andThen fun ctx =>
      if ctx.loaded.gemv = false then { ctx, status := .notSupported }
      else
        let rows := if a.trans then a.n.toUInt32 else a.m.toUInt32
        launchFlat M ctx .sgemv (if a.trans then fun _ => rows else flatGrid rows) refused

/-! ## Single-precision GEMM -/

/-- `env_forces` of the environment, for the index of the call. -/
structure Forced where
  naive : Bool := false
  mid : Bool := false
  wide : Bool := false
  twoD : Bool := false
  twoDI : Bool := false
  rb : Bool := false
deriving DecidableEq

/-- The kernel of the rule in `decide_sgemm_kernel`. -/
def ruleSgemmKernel (ctx : Context) (prop : DeviceProp) (m n batch : Int32) : BlasKernel :=
  let module := ctx.loaded
  let resident := prop.warpSize.toInt64 * prop.maxWarpsPerMultiProcessor.toInt64 *
    prop.multiProcessorCount.toInt64
  let outputs := m.toInt64 * n.toInt64 * batch.toInt64
  let have2d := module.twoD && (0 < ctx.tdRows && 0 < ctx.tdCols)
  let haveRb := module.rb && (0 < ctx.rbRows && ctx.rbRows ≤ m)
  let interior := have2d && (module.twoDI && (m % ctx.tdRows = 0 && n % ctx.tdCols = 0))
  if resident ≤ outputs ∧ have2d then if interior then .sgemm2dI else .sgemm2d
  else if 2 * resident ≤ outputs ∧ haveRb then .sgemmRb
  else .sgemm

/-- `decide_sgemm_kernel`. -/
def decideSgemmKernel (ctx : Context) (prop : DeviceProp) (m n batch : Int32) (force : Forced) :
    BlasKernel :=
  let module := ctx.loaded
  let have2d := module.twoD && (0 < ctx.tdRows && 0 < ctx.tdCols)
  if force.naive then .sgemm
  else if module.mid ∧ 0 < ctx.mdRows ∧ 0 < ctx.mdCols ∧ force.mid then .sgemm4x2
  else if module.wide ∧ 0 < ctx.wdRows ∧ 0 < ctx.wdCols ∧ force.wide then .sgemm4x4
  else if have2d ∧ force.twoD then .sgemm2d
  else if module.twoDI ∧ have2d ∧ force.twoDI then
    if m % ctx.tdRows ≠ 0 ∨ n % ctx.tdCols ≠ 0 then .sgemm2d else .sgemm2dI
  else if force.rb then
    if module.rb = false ∨ ctx.rbRows ≤ 0 ∨ m < ctx.rbRows then .sgemm else .sgemmRb
  else ruleSgemmKernel ctx prop m n batch

/-- `(x + rows - 1) / rows`, as `size_t`. -/
def tilesOf (x rows : Int32) : UInt64 :=
  ((x + rows - 1) / rows).toInt64.toUInt64

/-- The threads that a kernel needs. -/
def sgemmTiles (ctx : Context) (kernel : BlasKernel) (m n : Int32) : UInt64 :=
  match kernel with
  | .sgemmRb => tilesOf m ctx.rbRows * n.toInt64.toUInt64
  | .sgemm2d => tilesOf m ctx.tdRows * tilesOf n ctx.tdCols
  | .sgemm2dI => tilesOf m ctx.tdRows * tilesOf n ctx.tdCols
  | .sgemm4x2 => tilesOf m ctx.mdRows * tilesOf n ctx.mdCols
  | .sgemm4x4 => tilesOf m ctx.wdRows * tilesOf n ctx.wdCols
  | _ => m.toInt64.toUInt64 * n.toInt64.toUInt64

/-- The arguments of a single-precision GEMM that it checks. -/
structure SgemmArgs where
  transa : Bool := false
  transb : Bool := false
  m : Int32
  n : Int32
  k : Int32
  scalars : Bool := true
  a : UInt64
  lda : Int32
  b : UInt64
  ldb : Int32
  c : UInt64
  ldc : Int32
  batch : Int32 := 1
deriving DecidableEq

/-- `sgemm_batched`, once its module is there. -/
def launchSgemm (M : Machine) (ctx : Context) (s : SgemmArgs) (force : Forced)
    (refused : Option GrxError) : Outcome :=
  match M.props 0 with
  | .error e => { ctx, status := fromGrx (some e) }
  | .ok prop =>
    let kernel := decideSgemmKernel ctx prop s.m s.n s.batch force
    let outputs := (sgemmTiles ctx kernel s.m s.n).toUInt32
    let grid := flatGrid outputs prop
    if ctx.probe ≠ 0 ∧ ctx.probeCapacity < grid.toInt32 * s.batch then
      { ctx, status := .invalidValue }
    else
      { ctx
        issued := [.launch
          { kernel, device := ctx.loaded.device, grid := (grid, s.batch.toUInt32)
            block := prop.warpSize.toUInt32, stream := ctx.stream, cycles := ctx.probe, refused }]
        status := fromGrx refused }

/-- `sgemm_batched`: `grxblasSgemmStridedBatched`, and `grxblasSgemm` with a batch of one. -/
def sgemmBatched (M : Machine) (current : ℕ) (ctx : Context) (s : SgemmArgs) (r : LoadReplies)
    (force : Forced) (refused : Option GrxError) : Outcome :=
  if s.scalars = false then { ctx, status := .invalidValue }
  else if s.m < 0 ∨ s.n < 0 ∨ s.k < 0 then { ctx, status := .invalidValue }
  else if s.batch < 0 then { ctx, status := .invalidValue }
  else if s.m = 0 ∨ s.n = 0 ∨ s.batch = 0 then { ctx }
  else if 0 < s.k ∧ (s.a = 0 ∨ s.b = 0) then { ctx, status := .invalidValue }
  else if s.c = 0 then { ctx, status := .invalidValue }
  else if s.lda < (if s.transa then s.k else s.m) ∨ s.ldb < (if s.transb then s.n else s.k) ∨
      s.ldc < s.m then { ctx, status := .invalidValue }
  else
    (ensureModule M current ctx r).andThen fun ctx => launchSgemm M ctx s force refused

/-! ## Mixed-precision GEMM -/

/-- `grxblasEngine_t`. -/
inductive Engine
  | none
  | gpuTensor
  | npuC930
  | ptaChiplet
deriving DecidableEq, Repr

/-- The pairings of `grxDataType_t`. -/
inductive Pairing
  | fp16
  | int8
  | other
deriving DecidableEq, Repr

/-- `decide_gemm_engine`, about the current device. -/
def decideGemmEngine (M : Machine) (current : ℕ) (types : Pairing) : Engine :=
  match M.props current with
  | .error _ => .none
  | .ok prop =>
    match prop.deviceType with
    | .npu => if types = .int8 then .npuC930 else .none
    | .pta => if types = .int8 then .ptaChiplet else .none
    | .gpu => .gpuTensor

/-- What `hgemm_tcu_shape` and `igemm_tcu_shape` report. -/
structure TcuShape where
  m : UInt32 := 8
  n : UInt32 := 4
  k : UInt32 := 4
  smem : UInt32 := 256
  types : UInt32 := 0x11
  warp : UInt32 := 4
  blockM : UInt32 := 16
  blockN : UInt32 := 8
deriving DecidableEq

def GRXBLAS_TCU_INT8 : UInt32 := 0x10

/-- What is answered while a tensor kernel reports its shape: the allocation, the launch, and what the
wait and the copy bring back. -/
structure ShapeReplies where
  alloc : Bool := true
  launch : Option GrxError := none
  shape : Except GrxError TcuShape := .ok {}
deriving DecidableEq

/-- The int8 half of `ensure_hgemm`. -/
def ensureIgemm (ctx : Context) (prop : DeviceProp) (i8 : ShapeReplies) : Outcome :=
  if ctx.tcuTypes &&& GRXBLAS_TCU_INT8 = 0 then { ctx }
  else if ctx.loaded.igemm = false then { ctx }
  else if i8.alloc = false then { ctx }
  else
    let issued := [.launch (shapeLaunch .igemmTcuShape ctx.loaded.device prop i8.launch)]
    match i8.launch, i8.shape with
    | none, .ok shape =>
      if shape.k ≠ 0 ∧ shape.m = ctx.tileM ∧ shape.n = ctx.tileN then
        { ctx := { ctx with
            igemmFn := true, i8TileK := shape.k, i8Smem := shape.smem, i8BlockM := shape.blockM
            i8BlockN := shape.blockN }
          issued }
      else { ctx, issued }
    | _, _ => { ctx, issued }

/-- `ensure_hgemm`. -/
def ensureHgemm (M : Machine) (current : ℕ) (ctx : Context) (r : LoadReplies)
    (h i8 : ShapeReplies) : Outcome :=
  if ctx.hgemmFn then { ctx }
  else
    match M.props 0 with
    | .error _ => { ctx, status := .internalError }
    | .ok prop =>
      if prop.capabilities &&& GRX_CAP_TENSOR_CORE = 0 ∨
          prop.capabilities &&& GRX_CAP_ASYNC_COPY = 0 then { ctx, status := .archMismatch }
      else
        (ensureModule M current ctx r).andThen fun ctx =>
          if ctx.loaded.hgemm = false then { ctx, status := .archMismatch }
          else if h.alloc = false then { ctx, status := .allocFailed }
          else
            let issued := [.launch (shapeLaunch .hgemmTcuShape ctx.loaded.device prop h.launch)]
            match h.launch, h.shape with
            | some e, _ => { ctx, issued, status := fromGrx (some e) }
            | none, .error e => { ctx, issued, status := fromGrx (some e) }
            | none, .ok shape =>
              if shape.m = 0 ∨ shape.n = 0 ∨ shape.k = 0 then
                { ctx, issued, status := .internalError }
              else if shape.warp ≠ prop.warpSize.toUInt32 then
                { ctx, issued, status := .archMismatch }
              else
                let ctx := { ctx with
                  hgemmFn := true, tileM := shape.m, tileN := shape.n, tileK := shape.k
                  tileSmem := shape.smem, tcuTypes := shape.types, blockM := shape.blockM
                  blockN := shape.blockN }
                if shape.blockM = 0 ∨ shape.blockN = 0 then
                  { ctx, issued, status := .internalError }
                else { ctx, issued : Outcome }.andThen fun ctx => ensureIgemm ctx prop i8

/-- `grxblasGetTensorTypes`, and the mask that it gives out. -/
def grxblasGetTensorTypes (M : Machine) (current : ℕ) (ctx : Context) (r : LoadReplies)
    (h i8 : ShapeReplies) : Outcome × UInt32 :=
  let o := ensureHgemm M current ctx r h i8
  (o, if o.status = .success then o.ctx.tcuTypes else 0)

/-- The arguments of `grxblasGemmEx` that it checks or programs. `scalars` says that they are there,
`integral` that they are integers, and `types` what is paired. -/
structure GemmExArgs where
  transa : Bool := false
  transb : Bool := false
  m : Int32
  n : Int32
  k : Int32
  scalars : Bool := true
  integral : Bool := true
  a : UInt64
  lda : Int32
  b : UInt64
  ldb : Int32
  c : UInt64
  ldc : Int32
  types : Pairing := .int8
deriving DecidableEq

/-- What is answered to `grxblasGemmEx` besides its module: the paths of the other engines, the two
programmings, and the launch. -/
structure GemmReplies where
  npu : Status := .success
  pta : Status := .success
  programA : Option GrxError := none
  programB : Option GrxError := none
  launch : Option GrxError := none
deriving DecidableEq

/-- A descriptor of an operand of `rows x cols` as it is stored, with a tile of `tr x tc`. -/
def operandDesc (slot : Int32) (base : UInt64) (ld elemBytes rows cols tr tc : UInt32)
    (layout : GrxTensorMapLayout) : GrxTensorMapDesc where
  slot := slot.toInt
  base := base.toNat
  rank := 2
  size := fun i => if i.val = 0 then rows else if i.val = 1 then cols else 0
  strideBytes := fun i => if i.val = 0 then ld * elemBytes else 0
  tile := fun i => if i.val = 0 then tr else if i.val = 1 then tc else 0
  elementBytes := elemBytes
  layout := layout

/-- The descriptors of a call: `da` and `db`. -/
def gemmDescs (ctx : Context) (s : GemmExArgs) (elemBytes bm bn tk : UInt32) :
    GrxTensorMapDesc × GrxTensorMapDesc :=
  let m := s.m.toUInt32
  let n := s.n.toUInt32
  let k := if s.k = 0 then 1 else s.k.toUInt32
  let lda := s.lda.toUInt32
  let ldb := s.ldb.toUInt32
  (if s.transa then operandDesc ctx.slotA s.a lda elemBytes k m tk bm .rowMajor
    else operandDesc ctx.slotA s.a lda elemBytes m k bm tk .kMajor,
   if s.transb then operandDesc ctx.slotB s.b ldb elemBytes n k bn tk .kMajor
    else operandDesc ctx.slotB s.b ldb elemBytes k n tk bn .rowMajor)

/-- The launch at the end of `grxblasGemmEx`: one block, with a warp for each tile as far as the device
goes. -/
def launchGemmEx (ctx : Context) (prop : DeviceProp) (s : GemmExArgs) (bm bn : UInt32)
    (refused : Option GrxError) : Outcome :=
  let mTiles := (s.m.toUInt32 + bm - 1) / bm
  let nTiles := (s.n.toUInt32 + bn - 1) / bn
  let tiles := mTiles * nTiles
  let warps := (prop.maxThreadsPerBlock / prop.warpSize).toUInt32
  let warps := if warps = 0 then 1 else warps
  let warps := if tiles < warps then tiles else warps
  if ctx.probe ≠ 0 ∧ ctx.probeCapacity.toUInt32 < warps then { ctx, status := .invalidValue }
  else
    let int8 := s.types = .int8
    { ctx
      issued := [.launch
        { kernel := if int8 then .igemmTcu else .hgemmTcu, device := ctx.loaded.device, grid := (1, 1)
          block := warps * prop.warpSize.toUInt32
          sharedMem := (if int8 then ctx.i8Smem else ctx.tileSmem).toUInt64 * warps.toUInt64
          stream := ctx.stream, cycles := ctx.probe, slots := some (ctx.slotA, ctx.slotB), refused }]
      status := fromGrx refused }

/-- The tensor path of `grxblasGemmEx`, once the module is up. -/
def tensorGemm (M : Machine) (current : ℕ) (ctx : Context) (s : GemmExArgs) (g : GemmReplies) :
    Outcome :=
  let int8 := s.types = .int8
  if ¬ (s.types = .fp16 ∨ int8 ∧ ctx.igemmFn) then { ctx, status := .notSupported }
  else if int8 ∧ s.integral = false then { ctx, status := .invalidValue }
  else
    match M.props 0 with
    | .error e => { ctx, status := fromGrx (some e) }
    | .ok prop =>
      let tk := if int8 then ctx.i8TileK else ctx.tileK
      let bm := if int8 then ctx.i8BlockM else ctx.blockM
      let bn := if int8 then ctx.i8BlockN else ctx.blockN
      let descs := gemmDescs ctx s (if int8 then 1 else 2) bm bn tk
      let program := fun (desc : GrxTensorMapDesc) (refused : Option GrxError) (ctx : Context) =>
        { ctx
          issued := [.program { desc, device := current, stream := ctx.stream, refused }]
          status := fromGrx refused : Outcome }
      let programmed :=
        if 0 < s.k then (program descs.1 g.programA ctx).andThen (program descs.2 g.programB)
        else { ctx }
      programmed.andThen fun ctx => launchGemmEx ctx prop s bm bn g.launch

/-- `grxblasGemmEx`. -/
def grxblasGemmEx (M : Machine) (current : ℕ) (ctx : Context) (s : GemmExArgs) (r : LoadReplies)
    (h i8 : ShapeReplies) (g : GemmReplies) : Outcome :=
  if s.scalars = false then { ctx, status := .invalidValue }
  else if s.m < 0 ∨ s.n < 0 ∨ s.k < 0 then { ctx, status := .invalidValue }
  else if s.m = 0 ∨ s.n = 0 then { ctx }
  else if 0 < s.k ∧ (s.a = 0 ∨ s.b = 0) then { ctx, status := .invalidValue }
  else if s.c = 0 then { ctx, status := .invalidValue }
  else if s.lda < (if s.transa then s.k else s.m) ∨ s.ldb < (if s.transb then s.n else s.k) ∨
      s.ldc < s.m then { ctx, status := .invalidValue }
  else
    match decideGemmEngine M current s.types with
    | .none => { ctx, status := .notSupported }
    | .npuC930 => { ctx, status := g.npu }
    | .ptaChiplet =>
      if s.transa ∨ s.transb then { ctx, status := .notSupported }
      else { ctx, status := g.pta }
    | .gpuTensor =>
      (ensureHgemm M current ctx r h i8).andThen fun ctx => tensorGemm M current ctx s g

end Grxcp.Blas
