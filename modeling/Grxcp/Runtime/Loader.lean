import Grxcp.Lib.OrdMap
import Grxcp.Runtime.Launch

/-!
# The module loader

The module path of `module.cpp`, with the sanitizer off: a module is loaded once for each device and image,
counts its loads, and is released, with the functions that were resolved from it, when an unload takes the
last of them. Handles are addresses, and `refs` is an `int`, which wraps as the machine's does.

What `acquire_device`, `select_image`, `new` and the driver answer comes with the call. The provenance of
a module is kept for the sanitizer only, and is left out.
-/

namespace Grxcp.Loader

open Runtime

/-- `ModuleState`. -/
structure ModuleState where
  module : ℕ
  device : ℕ
  refs : Int32 := 1
  bytes : List UInt8
deriving DecidableEq

/-- `FunctionState`. -/
structure FunctionState where
  kernel : Kernel
  owner : ℕ
  staticSmem : UInt32 := 0
  maxThreadsPerBlock : UInt32 := 0
deriving DecidableEq

/-- `g_modules` and `g_functions`. -/
structure Tables where
  modules : OrdMap ℕ ModuleState := .empty
  functions : OrdMap ℕ FunctionState := .empty

/-- What a load is answered: the current device with its capabilities, the error of `select_image`, the
module of the driver, and the address of the new state. -/
structure LoadReplies where
  acquire : Except GrxError (ℕ × UInt32) := .ok (0, GRX_CAP_KERNEL_LAUNCH)
  select : Option GrxError := none
  load : Except VxError ℕ := .ok 0
  handle : ℕ := 1

/-- What a look-up of a function is answered: the kernel of the driver with its greatest block, and the
address of the new state. -/
structure FunctionReplies where
  kernel : Except VxError Kernel := .ok ⟨0, 0⟩
  maxBlock : Option Dim3 := none
  handle : ℕ := 1

namespace Tables

/-- The module that has these bytes on the device. -/
def resident (s : Tables) (device : ℕ) (image : List UInt8) : Option (ℕ × ModuleState) :=
  s.modules.entries.find? fun kv => decide (kv.2.device = device ∧ kv.2.bytes = image)

/-- `load_module_tracked`, with the load that the driver is asked for, if it is. -/
def loadModuleTracked (s : Tables) (out : Bool) (image : Option (List UInt8)) (r : LoadReplies) :
    Tables × Except GrxError ℕ × Option (ℕ × List UInt8) :=
  match image with
  | none => (s, .error .invalidValue, none)
  | some image =>
    if out = false ∨ image = [] then (s, .error .invalidValue, none)
    else
      match r.acquire with
      | .error e => (s, .error e, none)
      | .ok (device, capabilities) =>
        if capabilities &&& GRX_CAP_KERNEL_LAUNCH = 0 then (s, .error .notSupported, none)
        else
          match s.resident device image with
          | some (handle, m) =>
            ({ s with modules := s.modules.insert handle { m with refs := m.refs + 1 } }, .ok handle, none)
          | none =>
            match r.select with
            | some e => (s, .error e, none)
            | none =>
              match r.load with
              | .error e => (s, .error (mapResult e), some (device, image))
              | .ok module =>
                ({ s with modules := s.modules.insert r.handle { module, device, bytes := image } },
                  .ok r.handle, some (device, image))

/-- `grxModuleLoadData`. -/
def grxModuleLoadData (s : Tables) (out : Bool) (image : Option (List UInt8)) (r : LoadReplies) :
    Tables × Except GrxError ℕ × Option (ℕ × List UInt8) :=
  s.loadModuleTracked out image r

/-- `grxModuleLoad`, of the file as it is read: it is not there, or cannot be read in full, or has
bytes. -/
def grxModuleLoad (s : Tables) (args : Bool) (file : Except GrxError (List UInt8)) (r : LoadReplies) :
    Tables × Except GrxError ℕ × Option (ℕ × List UInt8) :=
  if args = false then (s, .error .invalidValue, none)
  else
    match file with
    | .error e => (s, .error e, none)
    | .ok bytes =>
      if bytes = [] then (s, .error .invalidKernelImage, none)
      else s.loadModuleTracked true (some bytes) r

/-- `grxModuleUnload`, with the module and the kernels that the driver is asked to release. -/
def grxModuleUnload (s : Tables) (module : ℕ) :
    Tables × Option GrxError × Option ℕ × List Kernel :=
  match s.modules.find? module with
  | none => (s, some .invalidResourceHandle, none, [])
  | some m =>
    if 0 < m.refs - 1 then
      ({ s with modules := s.modules.insert module { m with refs := m.refs - 1 } }, none, none, [])
    else
      ({ s with
          modules := s.modules.erase module
          functions := s.functions.filter fun _ f => f.owner ≠ module },
        none, some m.module,
        (s.functions.entries.filter fun kv => kv.2.owner = module).map fun kv => kv.2.kernel)

/-- The threads of a block that the driver reports. -/
def threadsOf (d : Dim3) : UInt32 :=
  d.x * orOne d.y * orOne d.z

/-- `grxModuleGetFunction`. -/
def grxModuleGetFunction (s : Tables) (args : Bool) (module : ℕ) (r : FunctionReplies) :
    Tables × Except GrxError ℕ :=
  if args = false then (s, .error .invalidValue)
  else
    match s.modules.find? module with
    | none => (s, .error .invalidResourceHandle)
    | some _ =>
      match r.kernel with
      | .error _ => (s, .error .invalidDeviceFunction)
      | .ok kernel =>
        let f : FunctionState :=
          { kernel, owner := module, maxThreadsPerBlock := (r.maxBlock.map threadsOf).getD 0 }
        ({ s with functions := s.functions.insert r.handle f }, .ok r.handle)

/-- `lookup_function`. -/
def lookupFunction (s : Tables) (func : ℕ) : Option KernelBinding :=
  (s.functions.find? func).map fun f =>
    { kernel := f.kernel
      staticSmem := f.staticSmem
      maxThreadsPerBlock := f.maxThreadsPerBlock
      hasLayout := false
      device := ((s.modules.find? f.owner).map (·.device)).getD 0 }

end Tables

/-! ## Calls -/

/-- A call of the module path. -/
inductive ModuleCall
  | loadData (out : Bool) (image : Option (List UInt8)) (r : LoadReplies)
  | load (args : Bool) (file : Except GrxError (List UInt8)) (r : LoadReplies)
  | unload (module : ℕ)
  | getFunction (args : Bool) (module : ℕ) (r : FunctionReplies)

/-- What a call comes to: a load of a module, an unload of one, a function of one, or an error. -/
inductive ModuleEvent
  | loaded (module : ℕ)
  | unloaded (module : ℕ)
  | resolved (func module : ℕ)
  | failed (e : GrxError)
deriving DecidableEq, Repr

/-- A call's effect: the tables, what it comes to, and what it asks of the driver. -/
structure ModuleEffect where
  state : Tables
  event : ModuleEvent
  asked : Option (ℕ × List UInt8) := none
  released : Option ℕ := none
  kernels : List Kernel := []

namespace ModuleCall

/-- The effect of a load. -/
def ofLoad : Tables × Except GrxError ℕ × Option (ℕ × List UInt8) → ModuleEffect
  | (s, .ok module, asked) => { state := s, event := .loaded module, asked }
  | (s, .error e, asked) => { state := s, event := .failed e, asked }

def effect (s : Tables) : ModuleCall → ModuleEffect
  | .loadData out image r => ofLoad (s.grxModuleLoadData out image r)
  | .load args file r => ofLoad (s.grxModuleLoad args file r)
  | .unload module =>
    match s.grxModuleUnload module with
    | (s, none, released, kernels) => { state := s, event := .unloaded module, released, kernels }
    | (s, some e, released, kernels) => { state := s, event := .failed e, released, kernels }
  | .getFunction args module r =>
    match s.grxModuleGetFunction args module r with
    | (s, .ok func) => { state := s, event := .resolved func module }
    | (s, .error e) => { state := s, event := .failed e }

/-- A call on the tables, and on what came before it. -/
def step (x : Tables × List ModuleEvent) (c : ModuleCall) : Tables × List ModuleEvent :=
  ((c.effect x.1).state, x.2 ++ [(c.effect x.1).event])

end ModuleCall

end Grxcp.Loader
