import Grxcp.Lib.Runs
import Grxcp.Runtime.Context
import Grxcp.Runtime.SelectImage

/-!
# Registered images and device variables

The registration half of `module.cpp`: fat binaries that a program's static initializers register,
the modules that `resolve_registration` loads of them, one a device, and the symbol copies, which
patch the runtime's own copy of the fat binary and drop what was loaded from it. Where `Context` has
only handles, here are the bytes: what a module was loaded from, and what its memory holds.

The loader of the driver is the parameter `Loader`. A read or a write outside the copy of a fat binary
leaves the call without a result.
-/

namespace Grxcp.Runtime.Symbols

/-! ## The tables -/

/-- A module of the driver's (`vx_module_h`): which, on which device, and the image it was loaded
from. -/
structure VxModule where
  id : ℕ
  device : ℕ
  image : List UInt8
deriving DecidableEq

/-- `vx_kernel_h`. -/
structure VxKernel where
  module : VxModule
  name : String
deriving DecidableEq

/-- What the `image` of a `FatBinary` points at. -/
inductive ImagePointer
  | null
  | shadow
  | array (bytes : Blob)

/-- `FatBinary`. -/
structure FatBinary where
  shadow : Blob := ⟨[], Nat.two_pow_pos 64⟩
  image : ImagePointer := .null
  modules : ℕ → Option VxModule := fun _ => none

/-- `Variable`. The address of the stand-in is its key. -/
structure Variable where
  fatbin : Option ℕ := none
  deviceName : String := ""
  vma : ℕ := 0
  size : ℕ := 0
  isConstant : Bool := false

/-- `Registration`, but for the argument layout, which only the launch reads. -/
structure Registration where
  deviceName : String
  fatbin : Option ℕ := none
  resolved : ℕ → Option VxKernel := fun _ => none

/-- `g_fatbins` by their handles, `g_registry`, `g_variables`, the number of modules that the driver
was asked for, and the memory of each. -/
structure Tables where
  fatbins : ℕ → FatBinary
  registry : ℕ → Option Registration
  symbols : ℕ → Option Variable
  loads : ℕ := 0
  memory : ℕ → ℕ → UInt8 := fun _ _ => 0

/-- The driver: `acquire_device`, the query of the ISA flags, `vx_module_load_bytes` of the `n`-th
module, `vx_module_get_kernel`, and what a module's memory holds when its image is loaded. -/
structure Loader where
  acquire : ℕ → Option GrxError := fun _ => none
  isaFlags : ℕ → Except VxError ℕ
  load : ℕ → ℕ → List UInt8 → Option VxError := fun _ _ _ => none
  kernel : List UInt8 → String → Option VxError := fun _ _ => none
  place : List UInt8 → ℕ → UInt8

/-! ## Registration -/

/-- `__grxRegisterFatBinary`, of the array it is given. The array is never shorter than a header. -/
def registerFatBinary (fatCubin : Option Blob) : FatBinary :=
  match fatCubin with
  | none => {}
  | some array =>
    match array.header with
    | none => { image := .array array }
    | some header =>
      let size := if header.magic = GRX_FATBIN_MAGIC then header.totalSize else 0
      match array.first size with
      | none => { image := .array array }
      | some copy => if headerBytes ≤ size then { shadow := copy, image := .shadow }
          else { image := .array array }

/-- What a program's static initializers hand over: the arrays of its fat binaries, the kernels by
their host stubs, and the variables by their stand-ins. -/
structure Program where
  arrays : ℕ → Option Blob
  kernels : ℕ → Option (String × ℕ)
  symbols : ℕ → Option Variable

/-- The tables when `main` begins. -/
def Program.tables (p : Program) : Tables where
  fatbins f := registerFatBinary (p.arrays f)
  registry stub := (p.kernels stub).map fun k => { deviceName := k.1, fatbin := some k.2 }
  symbols := p.symbols

/-! ## Loading -/

/-- Write an entry of a table. -/
def update {α : Type*} (t : ℕ → α) (i : ℕ) (x : α) : ℕ → α :=
  fun j => if j = i then x else t j

@[simp] theorem update_same {α : Type*} (t : ℕ → α) (i : ℕ) (x : α) : update t i x i = x :=
  if_pos rfl

theorem update_ne {α : Type*} (t : ℕ → α) {i j : ℕ} (x : α) (h : j ≠ i) : update t i x j = t j :=
  if_neg h

/-- The bytes that `select_image` gets of a registered image: as many as its header says. -/
def imageBlob (fb : FatBinary) : Option (Except GrxError Blob) :=
  match fb.image with
  | .null => some (.error .invalidDeviceFunction)
  | .shadow => sized fb.shadow
  | .array bytes => sized bytes
where
  /-- The container's own header carries its size. -/
  sized (b : Blob) : Option (Except GrxError Blob) :=
    match b.header with
    | none => none
    | some header =>
      if header.magic ≠ GRX_FATBIN_MAGIC ∨ header.totalSize = 0 then some (.error .invalidKernelImage)
      else (b.first header.totalSize).map .ok

/-- The image that `load_module` hands to the loader for a device. -/
def imageFor (L : Loader) (fb : FatBinary) (device : ℕ) : Option (Except GrxError (List UInt8)) :=
  match imageBlob fb with
  | none => none
  | some (.error e) => some (.error e)
  | some (.ok blob) =>
    match selectImage blob (L.isaFlags device) with
    | none => none
    | some (.error e) => some (.error e)
    | some (.ok image) => (blob.read image.offset image.size).map .ok

/-- The fat binary with a module on a device. -/
def FatBinary.withModule (fb : FatBinary) (device : ℕ) (module : VxModule) : FatBinary :=
  { fb with modules := update fb.modules device (some module) }

@[simp] theorem FatBinary.withModule_shadow (fb : FatBinary) (device : ℕ) (module : VxModule) :
    (fb.withModule device module).shadow = fb.shadow := rfl

@[simp] theorem FatBinary.withModule_image (fb : FatBinary) (device : ℕ) (module : VxModule) :
    (fb.withModule device module).image = fb.image := rfl

@[simp] theorem FatBinary.withModule_modules (fb : FatBinary) (device : ℕ) (module : VxModule) :
    (fb.withModule device module).modules = update fb.modules device (some module) := rfl

/-- The registration with a kernel on a device. -/
def Registration.withKernel (reg : Registration) (device : ℕ) (kernel : VxKernel) : Registration :=
  { reg with resolved := update reg.resolved device (some kernel) }

@[simp] theorem Registration.withKernel_fatbin (reg : Registration) (device : ℕ)
    (kernel : VxKernel) : (reg.withKernel device kernel).fatbin = reg.fatbin := rfl

@[simp] theorem Registration.withKernel_resolved (reg : Registration) (device : ℕ)
    (kernel : VxKernel) :
    (reg.withKernel device kernel).resolved = update reg.resolved device (some kernel) := rfl

/-- The module of a fat binary on a device, loaded if it is not yet. -/
def moduleOn (L : Loader) (s : Tables) (f device : ℕ) : Option (Tables × Except GrxError VxModule) :=
  match (s.fatbins f).modules device with
  | some module => some (s, .ok module)
  | none =>
    match imageFor L (s.fatbins f) device with
    | none => none
    | some (.error e) => some (s, .error e)
    | some (.ok image) =>
      match L.load s.loads device image with
      | some r => some ({ s with loads := s.loads + 1 }, .error (mapResult r))
      | none =>
        let module : VxModule := ⟨s.loads, device, image⟩
        some ({ s with
          fatbins := update s.fatbins f ((s.fatbins f).withModule device module)
          loads := s.loads + 1
          memory := update s.memory s.loads (L.place image) }, .ok module)

/-- `resolve_registration`, of the registration that `lookup_registration` finds. -/
def resolveRegistration (L : Loader) (s : Tables) (stub device : ℕ) :
    Option (Tables × Except GrxError VxKernel) :=
  match s.registry stub with
  | none => some (s, .error .invalidDeviceFunction)
  | some reg =>
    match reg.resolved device with
    | some kernel => some (s, .ok kernel)
    | none =>
      match L.acquire device with
      | some e => some (s, .error e)
      | none =>
        match reg.fatbin with
        | none => some (s, .error .invalidDeviceFunction)
        | some f =>
          match moduleOn L s f device with
          | none => none
          | some (s, .error e) => some (s, .error e)
          | some (s, .ok module) =>
            match L.kernel module.image reg.deviceName with
            | some r => some (s, .error (mapResult r))
            | none =>
              let kernel : VxKernel := ⟨module, reg.deviceName⟩
              some ({ s with
                registry := update s.registry stub (some (reg.withKernel device kernel)) }, .ok kernel)

/-! ## Symbol copies -/

/-- `(size_t)-1`. -/
def npos : ℕ := 2 ^ 64 - 1

/-- `symbol_offset`. -/
def symbolOffset (b : Blob) (vma size : ℕ) : Option ℕ :=
  if b.size < headerBytes then some npos
  else do
    let header ← b.header
    if header.magic ≠ GRX_FATBIN_MAGIC ∨ header.numEntries = 0 then return npos
    let entry ← b.entry 0
    if entry.kind ≠ GRX_IMAGE_VXBIN ∨ b.size < add64 entry.offset 16 then return npos
    let minVma ← b.uint entry.offset 8
    let maxVma ← b.uint (entry.offset + 8) 8
    if vma < minVma ∨ maxVma < add64 vma size then return npos
    let off := add64 (add64 entry.offset 16) (sub64 vma minVma)
    if b.size < add64 off size then return npos
    return off

/-- The tables with another content of a fat binary's copy. -/
def Tables.withShadow (s : Tables) (f : ℕ) (shadow : Blob) : Tables :=
  { s with fatbins := update s.fatbins f { s.fatbins f with shadow } }

/-- `invalidate_fatbin`. -/
def invalidateFatbin (s : Tables) (f : ℕ) : Tables :=
  let fb := s.fatbins f
  { s with
    registry := fun stub => (s.registry stub).map fun reg =>
      if reg.fatbin = some f then { reg with resolved := fun _ => none } else reg
    fatbins := update s.fatbins f { fb with modules := fun _ => none } }

/-- `find_symbol`: the variable, its fat binary, and where its window is in the copy. -/
def findSymbol (s : Tables) (symbol count offset : ℕ) :
    Option (Except GrxError (Variable × ℕ × ℕ)) :=
  if symbol = 0 then some (.error .invalidValue)
  else
    match s.symbols symbol with
    | none => some (.error .invalidSymbol)
    | some v =>
      if v.size < offset ∨ v.size - offset < count then some (.error .invalidValue)
      else
        match v.fatbin with
        | none => some (.error .invalidKernelImage)
        | some f =>
          match symbolOffset (s.fatbins f).shadow v.vma v.size with
          | none => none
          | some base =>
            if base = npos then some (.error .invalidKernelImage)
            else some (.ok (v, f, add64 base offset))

/-- `grxMemcpyToSymbol`, of the `count` bytes at `src`. -/
def grxMemcpyToSymbol (s : Tables) (symbol : ℕ) (src : Option (List UInt8)) (offset : ℕ)
    (kind : MemcpyKind) : Option (Tables × Except GrxError Unit) :=
  match src with
  | none => some (s, .error .invalidValue)
  | some src =>
    if kind ≠ .hostToDevice ∧ kind ≠ .default then some (s, .error .invalidMemcpyDirection)
    else if src.length = 0 then some (s, .ok ())
    else
      match findSymbol s symbol src.length offset with
      | none => none
      | some (.error e) => some (s, .error e)
      | some (.ok (_, f, off)) =>
        match (s.fatbins f).shadow.patch off src with
        | none => none
        | some shadow => some (invalidateFatbin (s.withShadow f shadow) f, .ok ())

/-- `grxMemcpyFromSymbol`, with the bytes it stores at `dst`. -/
def grxMemcpyFromSymbol (s : Tables) (dst : Bool) (symbol count offset : ℕ) (kind : MemcpyKind) :
    Option (Except GrxError (List UInt8)) :=
  if dst = false then some (.error .invalidValue)
  else if kind ≠ .deviceToHost ∧ kind ≠ .default then some (.error .invalidMemcpyDirection)
  else if count = 0 then some (.ok [])
  else
    match findSymbol s symbol count offset with
    | none => none
    | some (.error e) => some (.error e)
    | some (.ok (v, f, off)) =>
      if v.isConstant = false then some (.error .notSupported)
      else ((s.fatbins f).shadow.read off count).map .ok

/-! ## Runs -/

/-- What happens next: a launch looks its kernel up, a kernel writes a byte of a module's memory, or
the program copies to a symbol. A copy from a symbol changes no table. -/
inductive Call
  | launch (stub device : ℕ)
  | store (module address : ℕ) (x : UInt8)
  | copyTo (symbol : ℕ) (src : Option (List UInt8)) (offset : ℕ) (kind : MemcpyKind)

/-- The tables after a call. -/
def step (L : Loader) (s : Tables) : Call → Tables
  | .launch stub device => ((resolveRegistration L s stub device).map Prod.fst).getD s
  | .store module address x =>
      { s with memory := update s.memory module (update (s.memory module) address x) }
  | .copyTo symbol src offset kind => ((grxMemcpyToSymbol s symbol src offset kind).map Prod.fst).getD s

end Grxcp.Runtime.Symbols
