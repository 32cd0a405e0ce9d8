import Grxcp.Runtime.Memory
import Grxcp.Runtime.Stream

/-!
# The calls of one thread

The entry points of `context.cpp`, `memory.cpp`, `stream.cpp`, `event.cpp`, `module.cpp` and
`launch.cpp` that allocate, copy, launch and order work, over the tables of the runtime
(`Context.call`), and the driver's completing a command between them (`Context.step`).

Copies, memsets and launches find out first what to enqueue and on which device (`Plan`), and then all
enqueue alike. The blocking calls are the asynchronous ones and a wait that changes no table, so they
are not calls of their own. What the driver, the loader and the checks of arguments and geometry
answer is given with the call.
-/

namespace Grxcp.Runtime

/-! ## Modules -/

/-- A module on a device (`vx_module_h`). -/
structure Module where
  device : ℕ
  id : ℕ
deriving DecidableEq

/-- `Registration`: the fat binary of a host stub, and its kernel on each device it was launched
on. -/
structure Registration where
  fatbin : ℕ
  resolved : OrdMap ℕ Kernel := .empty

/-- `ModuleState`. -/
structure ModuleState where
  module : Module
  device : ℕ
deriving DecidableEq

/-- `FunctionState`, with the device of its owner. -/
structure FunctionState where
  kernel : Kernel
  device : ℕ
deriving DecidableEq

/-- `g_registry`, the modules of each `FatBinary` by device, `g_modules` and `g_functions`. `fresh` is
the next handle. -/
structure Modules where
  registry : OrdMap ℕ Registration := .empty
  fatbins : OrdMap ℕ (OrdMap ℕ Module) := .empty
  modules : OrdMap ℕ ModuleState := .empty
  functions : OrdMap ℕ FunctionState := .empty
  fresh : ℕ := 1

/-- What is answered on the way to a launch: `load_module`, `vx_module_get_kernel`, `pack_arguments`,
and `validate`. -/
structure LoadReplies where
  load : Option GrxError := none
  kernel : Option VxError := none
  args : Option GrxError := none
  fits : Option GrxError := none
deriving DecidableEq

namespace Modules

/-- The module of a fat binary on a device, loaded if it is not yet. -/
def moduleOn (m : Modules) (fatbin device : ℕ) (l : LoadReplies) : Modules × Option Module :=
  match m.fatbins.find? fatbin with
  | none => (m, none)
  | some modules =>
      match modules.find? device with
      | some module => (m, some module)
      | none =>
          match l.load with
          | some _ => (m, none)
          | none =>
              let module : Module := ⟨device, m.fresh⟩
              ({ m with
                  fatbins := m.fatbins.insert fatbin (modules.insert device module)
                  fresh := m.fresh + 1 }, some module)

/-- `lookup_registration`, with `resolve_registration`. -/
def lookupRegistration (m : Modules) (stub device : ℕ) (acquire : Option GrxError)
    (l : LoadReplies) : Modules × Option Kernel :=
  match m.registry.find? stub with
  | none => (m, none)
  | some reg =>
      match reg.resolved.find? device with
      | some kernel => (m, some kernel)
      | none =>
          match acquire with
          | some _ => (m, none)
          | none =>
              match m.moduleOn reg.fatbin device l with
              | (m, none) => (m, none)
              | (m, some module) =>
                  match l.kernel with
                  | some _ => (m, none)
                  | none =>
                      let kernel : Kernel := ⟨module.device, m.fresh⟩
                      let reg := { reg with resolved := reg.resolved.insert device kernel }
                      ({ m with registry := m.registry.insert stub reg, fresh := m.fresh + 1 },
                        some kernel)

/-- `__grxRegisterFatBinary`. -/
def registerFatBinary (m : Modules) : Modules × ℕ :=
  ({ m with fatbins := m.fatbins.insert m.fresh .empty, fresh := m.fresh + 1 }, m.fresh)

/-- `__grxRegisterFunction`. A stub that is registered again keeps its kernels. -/
def registerFunction (m : Modules) (fatbin stub : ℕ) : Modules :=
  let reg := (m.registry.find? stub).getD { fatbin }
  { m with registry := m.registry.insert stub { reg with fatbin } }

/-- `grxModuleLoad`, of an image that is not resident. -/
def moduleLoad (P : Platform) (m : Modules) (device : ℕ) (acquire : Option GrxError)
    (l : LoadReplies) : Modules × Except GrxError ℕ :=
  match acquire with
  | some e => (m, .error e)
  | none =>
      if (P.device device).capabilities &&& GRX_CAP_KERNEL_LAUNCH = 0 then (m, .error .notSupported)
      else
        match l.load with
        | some e => (m, .error e)
        | none =>
            let module : Module := ⟨device, m.fresh⟩
            ({ m with
                modules := m.modules.insert m.fresh { module, device }
                fresh := m.fresh + 1 }, .ok m.fresh)

/-- `grxModuleGetFunction`. -/
def moduleGetFunction (m : Modules) (module : ℕ) (l : LoadReplies) : Modules × Except GrxError ℕ :=
  match m.modules.find? module with
  | none => (m, .error .invalidResourceHandle)
  | some owner =>
      match l.kernel with
      | some _ => (m, .error .invalidDeviceFunction)
      | none =>
          let kernel : Kernel := ⟨owner.module.device, m.fresh⟩
          ({ m with
              functions := m.functions.insert m.fresh { kernel, device := owner.device }
              fresh := m.fresh + 1 }, .ok m.fresh)

end Modules

/-! ## The tables -/

/-- The tables of the runtime: the current device of the thread, the device memory, `g_host` as the
sizes of the pinned ranges by address, the modules, and the streams. -/
structure Context where
  current : ℕ := 0
  heap : Heap := {}
  host : OrdMap ℕ ℕ := .empty
  modules : Modules := {}
  streams : Streams := {}

/-! ## What to enqueue -/

/-- What a copy, a memset or a launch comes to before it looks at its stream: it fails, there is
nothing to do on a device, the copy is made at once on an NPU, or there is work to enqueue. -/
inductive Plan
  | fail (e : GrxError)
  | finish
  | copied (device : ℕ)
  | enqueue (device : ℕ) (work : Work)
deriving DecidableEq

/-- `grxMemcpyKind`, and what is none. -/
inductive MemcpyKind
  | hostToHost
  | hostToDevice
  | deviceToHost
  | deviceToDevice
  | default
  | other
deriving DecidableEq

/-- `check_kind`. -/
def checkKind (kind : MemcpyKind) (dst src : Bool) : Option GrxError :=
  match kind with
  | .default => none
  | .hostToHost => if !dst && !src then none else some .invalidMemcpyDirection
  | .hostToDevice => if dst && !src then none else some .invalidMemcpyDirection
  | .deviceToHost => if !dst && src then none else some .invalidMemcpyDirection
  | .deviceToDevice => if dst && src then none else some .invalidMemcpyDirection
  | .other => some .invalidValue

/-- `Endpoint`. -/
structure Endpoint where
  isDevice : Bool := false
  foreign : Option ℕ := none
  map : Mapping := {}

/-- `owner_device_of`. -/
def ownerDeviceOf (s : Heap) (address : ℕ) : Option ℕ :=
  (s.live.entries.find? fun kv =>
    kv.2.base ≤ address && address < add64 kv.2.base kv.2.size).map fun kv => (ofLex kv.1).1

/-- `lookup_host_pointer`. -/
def lookupHostPointer (host : OrdMap ℕ ℕ) (address : ℕ) : Bool :=
  match host.atMost address with
  | none => false
  | some (base, size) => address < base + size

/-- The range that a mapped pointer names. -/
def Mapping.operand (m : Mapping) (address count : ℕ) : Operand where
  buffer := m.buffer
  offset := m.offset
  address := address
  size := count

/-- The device of a copy: that of the destination, or of the source if the destination is the host. -/
def copyDevice (d s : Endpoint) : ℕ :=
  if d.isDevice then d.map.device else s.map.device

/-- The command of a copy. -/
def copyWork (d s : Endpoint) (dst src count : ℕ) : Work :=
  if d.isDevice ∧ s.isDevice then .copy (d.map.operand dst count) (s.map.operand src count)
  else if d.isDevice then .write (d.map.operand dst count)
  else .read (s.map.operand src count)

namespace Context

/-- `lookup_device_pointer`. -/
def lookupDevicePointer (x : Context) (address : ℕ) : Option Mapping :=
  lookupDevicePointerOn x.heap x.current address

/-- `classify`. -/
def classify (x : Context) (address : ℕ) : Endpoint :=
  match x.lookupDevicePointer address with
  | some map => { isDevice := true, map }
  | none =>
      if lookupHostPointer x.host address then {}
      else { foreign := ownerDeviceOf x.heap address }

/-- `enqueue_copy`, up to its stream. `npu` is what the synchronous copy of an NPU returns. -/
def copyPlan (P : Platform) (x : Context) (dst src count : ℕ) (kind : MemcpyKind)
    (npu : Option GrxError) (acquire : Option GrxError) : Plan :=
  if count = 0 then .finish
  else if dst = 0 ∨ src = 0 then .fail .invalidValue
  else
    let d := x.classify dst
    let s := x.classify src
    if d.foreign.isSome ∨ s.foreign.isSome then .fail .invalidDevicePointer
    else
      match checkKind kind d.isDevice s.isDevice with
      | some e => .fail e
      | none =>
          if d.isDevice = false ∧ s.isDevice = false then .finish
          else if d.isDevice ∧ d.map.size < count then .fail .invalidValue
          else if s.isDevice ∧ s.map.size < count then .fail .invalidValue
          else
            let device := copyDevice d s
            if acquire.isNone ∧ (P.device device).type = .npu then
              match npu with
              | some e => .fail e
              | none => .copied device
            else .enqueue device (copyWork d s dst src count)

/-- `grxMemsetAsync`, up to its stream. -/
def memsetPlan (x : Context) (dst count : ℕ) : Plan :=
  if count = 0 then .finish
  else
    match x.lookupDevicePointer dst with
    | none => .fail .invalidDevicePointer
    | some m =>
        if m.size < count then .fail .invalidValue
        else .enqueue m.device (.fill (m.operand dst count))

/-- `launch_common`, up to its stream. -/
def launchPlan (kernel : Kernel) (device : ℕ) (acquire fits : Option GrxError) : Plan :=
  match acquire with
  | some e => .fail e
  | none =>
      match fits with
      | some e => .fail e
      | none => .enqueue device (.launch kernel)

/-- Carry out a plan on a stream. -/
def carryOut (P : Platform) (x : Context) (plan : Plan) (stream : Option ℕ) (r : Replies) :
    Context × Except GrxError Unit :=
  match plan with
  | .fail e => (x, .error e)
  | .finish => (x, .ok ())
  | .copied _ => (x, .ok ())
  | .enqueue device work =>
      match Streams.submit P x.streams stream device (.work work) r fun s _ => s with
      | (streams, res) => ({ x with streams }, res)

/-! ## The entry points -/

/-- `grxSetDevice`. -/
def grxSetDevice (x : Context) (device : ℕ) (acquire : Option GrxError) :
    Context × Except GrxError Unit :=
  match acquire with
  | some e => (x, .error e)
  | none => ({ x with current := device }, .ok ())

/-- `grxMallocHost`, with the address that the driver maps it at. -/
def grxMallocHost (P : Platform) (x : Context) (out : Bool) (size : ℕ) (acquire : Option GrxError)
    (mapped : Except VxError ℕ) : Context × Except GrxError ℕ :=
  if out = false ∨ size = 0 then (x, .error .invalidValue)
  else
    match acquire with
    | some e => (x, .error e)
    | none =>
        if (P.device x.current).type = .npu ∨ (P.device x.current).type = .pta then
          (x, .error .notSupported)
        else
          match mapped with
          | .error r => (x, .error (mapResult r))
          | .ok address => ({ x with host := x.host.insert address size }, .ok address)

/-- `grxFreeHost`. -/
def grxFreeHost (x : Context) (address : ℕ) : Context × Except GrxError Unit :=
  if address = 0 then (x, .ok ())
  else
    match x.host.find? address with
    | none => (x, .error .invalidValue)
    | some _ => ({ x with host := x.host.erase address }, .ok ())

/-- `grxMemcpyAsync`. -/
def grxMemcpyAsync (P : Platform) (x : Context) (dst src count : ℕ) (kind : MemcpyKind)
    (stream : Option ℕ) (npu : Option GrxError) (r : Replies) : Context × Except GrxError Unit :=
  carryOut P x (copyPlan P x dst src count kind npu r.acquire) stream r

/-- `grxMemsetAsync`. -/
def grxMemsetAsync (P : Platform) (x : Context) (dst count : ℕ) (stream : Option ℕ) (r : Replies) :
    Context × Except GrxError Unit :=
  carryOut P x (x.memsetPlan dst count) stream r

/-- `grxLaunchKernel`, by the host stub, on the current device; `grxLaunchKernelEx` differs in its
checks. -/
def grxLaunchKernel (P : Platform) (x : Context) (stub : ℕ) (stream : Option ℕ) (l : LoadReplies)
    (r : Replies) : Context × Except GrxError Unit :=
  match x.modules.lookupRegistration stub x.current r.acquire l with
  | (modules, none) => ({ x with modules }, .error .invalidDeviceFunction)
  | (modules, some kernel) =>
      match l.args with
      | some e => ({ x with modules }, .error e)
      | none => carryOut P { x with modules } (launchPlan kernel x.current r.acquire l.fits) stream r

/-- `grxLaunchFunction`, on the device of the function's module. -/
def grxLaunchFunction (P : Platform) (x : Context) (func : ℕ) (stream : Option ℕ) (l : LoadReplies)
    (r : Replies) : Context × Except GrxError Unit :=
  match x.modules.functions.find? func with
  | none => (x, .error .invalidResourceHandle)
  | some f => carryOut P x (launchPlan f.kernel f.device r.acquire l.fits) stream r

/-- A call of the allocator, by the current device. -/
def allocator (P : Platform) (x : Context) (op : Op) : Context × Except GrxError ℕ :=
  match x.heap.call P ⟨x.current, op⟩ with
  | (heap, res) => ({ x with heap }, res)

end Context

/-- A call of the thread. -/
inductive ApiCall
  | setDevice (device : ℕ) (acquire : Option GrxError)
  | malloc (r : Request)
  | mallocPhysical (r : Request)
  | mallocManaged (r : Request)
  | free (address : ℕ)
  | mallocHost (out : Bool) (size : ℕ) (acquire : Option GrxError) (mapped : Except VxError ℕ)
  | freeHost (address : ℕ)
  | registerFatBinary
  | registerFunction (fatbin stub : ℕ)
  | moduleLoad (acquire : Option GrxError) (l : LoadReplies)
  | moduleGetFunction (module : ℕ) (l : LoadReplies)
  | streamCreate (out : Bool) (flags : UInt32) (r : Replies)
  | eventCreate (out : Bool) (r : Replies)
  | eventRecord (event : ℕ) (stream : Option ℕ) (r : Replies)
  | streamWaitEvent (stream : Option ℕ) (event : ℕ) (r : Replies)
  | memcpyAsync (dst src count : ℕ) (kind : MemcpyKind) (stream : Option ℕ) (npu : Option GrxError)
      (r : Replies)
  | memsetAsync (dst count : ℕ) (stream : Option ℕ) (r : Replies)
  | launchKernel (stub : ℕ) (stream : Option ℕ) (l : LoadReplies) (r : Replies)
  | launchFunction (func : ℕ) (stream : Option ℕ) (l : LoadReplies) (r : Replies)

/-- What happens next: the thread makes a call, or the driver completes a command. -/
inductive Move
  | call (c : ApiCall)
  | complete (i : ℕ)

namespace Context

/-- The tables after something was done to the streams. -/
def onStreams {α : Type} (x : Context) (res : Streams × Except GrxError α) :
    Context × Except GrxError α :=
  ({ x with streams := res.1 }, res.2)

/-- A call that stores no handle returns null here. -/
def noHandle (res : Context × Except GrxError Unit) : Context × Except GrxError ℕ :=
  (res.1, res.2.map fun _ => 0)

/-- What a call does, and the pointer or handle it stores. -/
def call (P : Platform) (x : Context) : ApiCall → Context × Except GrxError ℕ
  | .setDevice device acquire => noHandle (x.grxSetDevice device acquire)
  | .malloc r => allocator P x (.malloc r)
  | .mallocPhysical r => allocator P x (.mallocPhysical r)
  | .mallocManaged r => allocator P x (.mallocManaged r)
  | .free address => allocator P x (.free address)
  | .mallocHost out size acquire mapped => grxMallocHost P x out size acquire mapped
  | .freeHost address => noHandle (x.grxFreeHost address)
  | .registerFatBinary =>
      match x.modules.registerFatBinary with
      | (modules, fatbin) => ({ x with modules }, .ok fatbin)
  | .registerFunction fatbin stub =>
      ({ x with modules := x.modules.registerFunction fatbin stub }, .ok 0)
  | .moduleLoad acquire l =>
      match Modules.moduleLoad P x.modules x.current acquire l with
      | (modules, res) => ({ x with modules }, res)
  | .moduleGetFunction module l =>
      match x.modules.moduleGetFunction module l with
      | (modules, res) => ({ x with modules }, res)
  | .streamCreate out flags r => x.onStreams (Streams.grxStreamCreate P x.streams x.current out flags r)
  | .eventCreate out r => x.onStreams (Streams.grxEventCreate P x.streams x.current out r)
  | .eventRecord event stream r => noHandle (x.onStreams (Streams.grxEventRecord P x.streams event stream r))
  | .streamWaitEvent stream event r =>
      noHandle (x.onStreams (Streams.grxStreamWaitEvent P x.streams x.current stream event r))
  | .memcpyAsync dst src count kind stream npu r =>
      noHandle (grxMemcpyAsync P x dst src count kind stream npu r)
  | .memsetAsync dst count stream r => noHandle (grxMemsetAsync P x dst count stream r)
  | .launchKernel stub stream l r => noHandle (grxLaunchKernel P x stub stream l r)
  | .launchFunction func stream l r => noHandle (grxLaunchFunction P x func stream l r)

/-- The tables after a move. -/
def step (P : Platform) (x : Context) : Move → Context
  | .call c => (x.call P c).1
  | .complete i =>
      { x with streams := { x.streams with board := x.streams.board.complete i } }

end Context

end Grxcp.Runtime
