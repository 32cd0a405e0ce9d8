import Grxcp.Libs.Grxblas

/-!
# grxDNN

The host side of `grxdnn.cpp`: what a call launches, and where in the cycle probe each launch may write.
A handle has a grxBLAS handle of its own for the two GEMMs of attention, made on first use. As in
grxBLAS, a launch is its kernel, its geometry and the probe's address, and a call on a null handle is
left out.
-/

namespace Grxcp.Dnn

open Grxcp.Runtime Grxcp.Blas

/-- `grxdnnStatus_t`. -/
inductive Status
  | success
  | notInitialized
  | allocFailed
  | invalidValue
  | archMismatch
  | executionFailed
  | notSupported
  | kernelNotFound
deriving DecidableEq, Repr

/-- `map_launch`. -/
def mapLaunch : Option GrxError → Status
  | none => .success
  | some _ => .executionFailed

/-- `grxdnnCycleRegion_t`. -/
structure Region where
  offset : Int32
  slots : Int32
  name : String
deriving DecidableEq, Repr

/-- What the loaded module has besides softmax and layer norm, and the device it was loaded on. -/
structure Module where
  device : ℕ
  causalMask : Bool := true
  addBias : Bool := true
  gelu : Bool := true
deriving DecidableEq

/-- `Context`. -/
structure Context where
  stream : Option ℕ := none
  module : Option Module := none
  blas : Option Blas.Context := none
  probe : UInt64 := 0
  probeCapacity : Int32 := 0
  regions : List Region := []
deriving DecidableEq

/-- The kernels of the library's module. -/
inductive DnnKernel
  | softmax
  | layernorm
  | causalMask
  | addBias
  | gelu
deriving DecidableEq, Repr

/-- `Shape`. -/
structure Shape where
  grid : UInt32
  block : UInt32
deriving DecidableEq

/-- A launch, of a kernel of the library's or of its grxBLAS handle's. -/
inductive Launch
  | dnn (kernel : DnnKernel) (device : ℕ) (shape : Shape) (stream : Option ℕ) (cycles : UInt64)
      (refused : Option GrxError)
  | blas (l : Blas.Launch)
deriving DecidableEq

/-- The address of the probe that a launch is given. -/
def Launch.cycles : Launch → UInt64
  | .dnn _ _ _ _ cycles _ => cycles
  | .blas l => l.cycles

/-- What a call leaves: the handle, its launches, the regions that it reserved, and the status. -/
structure Outcome where
  ctx : Context
  launched : List Launch := []
  reserved : List Region := []
  status : Status := .success

/-- Go on with a call unless it has failed. -/
def Outcome.andThen (o : Outcome) (f : Context → Outcome) : Outcome :=
  if o.status = .success then
    let next := f o.ctx
    { next with
      launched := o.launched ++ next.launched
      reserved := o.reserved ++ next.reserved }
  else o

/-- `ensure_module_locked`. The module is loaded on the current device. -/
def ensureModule (current : ℕ) (ctx : Context) (loaded : Option Module) : Outcome :=
  match ctx.module with
  | some _ => { ctx }
  | none =>
    match loaded with
    | none => { ctx, status := .notInitialized }
    | some module => { ctx := { ctx with module := some { module with device := current } } }

/-- The module of a handle after `ensure_module_locked`. -/
def Context.loaded (ctx : Context) : Module :=
  ctx.module.getD ⟨0, false, false, false⟩

/-! ## Geometry -/

/-- The warps of a block: four, halved while the device's block does not have room for them. -/
def warpsPerBlock (prop : DeviceProp) : UInt32 :=
  let warp := prop.warpSize.toUInt32
  let limit := prop.maxThreadsPerBlock.toUInt32
  if warp * 4 ≤ limit then 4 else if warp * 2 ≤ limit then 2 else 1

/-- `launch_shape`, once the device is known. -/
def shapeFor (rows : UInt32) (prop : DeviceProp) : Shape :=
  let warps := warpsPerBlock prop
  let needed := (rows + warps - 1) / warps
  { grid := if needed = 0 then 1 else needed, block := prop.warpSize.toUInt32 * warps }

/-- `launch_shape`. -/
def launchShape (M : Machine) (current : ℕ) (rows : UInt32) : Except Status Shape :=
  match M.props current with
  | .error _ => .error .notInitialized
  | .ok prop => if prop.warpSize ≤ 0 then .error .archMismatch else .ok (shapeFor rows prop)

/-- `warps_in`. -/
def warpsIn (shape : Shape) (warpSize : UInt32) : UInt32 :=
  if warpSize = 0 then 0 else shape.grid * (shape.block / warpSize)

/-! ## The probe -/

/-- `sizeof(grxCycleSlot)`. -/
def sizeofSlot : UInt64 := 24

/-- `ctx.probe + base`. -/
def slotAddress (probe : UInt64) (base : Int32) : UInt64 :=
  probe + base.toInt64.toUInt64 * sizeofSlot

/-- A region of the probe: the address for the launch, and the offset of the next one. -/
structure Reserved where
  region : Region
  cycles : UInt64
  next : Int32
deriving DecidableEq

/-- `attach_probe`, up to what it stores: `offset` is where the regions of a call of several launches
have got to. Nothing is reserved if no probe is attached. -/
def attachProbe (M : Machine) (current : ℕ) (ctx : Context) (shape : Shape) (name : String)
    (offset : Option Int32) : Except Status (Option Reserved) :=
  if ctx.probe = 0 then .ok none
  else
    match M.props current with
    | .error _ => .error .notInitialized
    | .ok prop =>
      if prop.warpSize ≤ 0 then .error .notInitialized
      else
        let base := offset.getD 0
        let warps := (warpsIn shape prop.warpSize.toUInt32).toInt32
        if ctx.probeCapacity < base + warps then .error .invalidValue
        else .ok (some ⟨⟨base, warps, name⟩, slotAddress ctx.probe base, base + warps⟩)

/-- `grxdnnSetCycleProbe`. -/
def grxdnnSetCycleProbe (ctx : Context) (slots : UInt64) (capacity : Int32) : Outcome :=
  if slots ≠ 0 ∧ capacity ≤ 0 then { ctx, status := .invalidValue }
  else { ctx := { ctx with probe := slots, probeCapacity := if slots ≠ 0 then capacity else 0 } }

/-! ## One launch -/

/-- The rows of a tensor and what the calls of one launch check of their arguments. -/
structure RowArgs where
  rows : Int32
  cols : Int32
  ldx : Int32
  ldy : Int32
  x : UInt64
  y : UInt64
  bias : UInt64 := 1
  epsOk : Bool := true
  modeOk : Bool := true
deriving DecidableEq

/-- A launch over rows, with the probe, and where its regions have got to. Without an offset the call is
this one launch, and its regions start over. -/
def launchRows (M : Machine) (current : ℕ) (ctx : Context) (kernel : DnnKernel) (name : String)
    (rows : UInt32) (offset : Option Int32) (refused : Option GrxError) : Outcome × Int32 :=
  let base := offset.getD 0
  match launchShape M current rows with
  | .error status => ({ ctx, status }, base)
  | .ok shape =>
    match attachProbe M current ctx shape name offset with
    | .error status => ({ ctx, status }, base)
    | .ok none =>
      ({ ctx
         launched := [.dnn kernel ctx.loaded.device shape ctx.stream 0 refused]
         status := mapLaunch refused }, base)
    | .ok (some reserved) =>
      let regions := if offset.isNone then [] else ctx.regions
      ({ ctx := { ctx with regions := regions ++ [reserved.region] }
         launched := [.dnn kernel ctx.loaded.device shape ctx.stream reserved.cycles refused]
         reserved := [reserved.region]
         status := mapLaunch refused }, reserved.next)

/-- The calls of one launch: their checks, then their launch, if the module has the kernel. -/
def forwardRows (M : Machine) (current : ℕ) (ctx : Context) (kernel : DnnKernel) (name : String)
    (a : RowArgs) (ok : Bool) (has : Module → Bool) (loaded : Option Module)
    (refused : Option GrxError) : Outcome :=
  if a.x = 0 ∨ a.y = 0 then { ctx, status := .invalidValue }
  else if a.rows ≤ 0 ∨ a.cols ≤ 0 then { ctx, status := .invalidValue }
  else if a.ldx < a.cols ∨ a.ldy < a.cols then { ctx, status := .invalidValue }
  else if ok = false then { ctx, status := .invalidValue }
  else
    (ensureModule current ctx loaded).andThen fun ctx =>
      if has ctx.loaded = false then { ctx, status := .kernelNotFound }
      else (launchRows M current ctx kernel name a.rows.toUInt32 none refused).1

/-- `grxdnnSoftmaxForward`. -/
def grxdnnSoftmaxForward (M : Machine) (current : ℕ) (ctx : Context) (a : RowArgs)
    (loaded : Option Module) (refused : Option GrxError) : Outcome :=
  forwardRows M current ctx .softmax "softmax" a true (fun _ => true) loaded refused

/-- `grxdnnLayerNormForward`. -/
def grxdnnLayerNormForward (M : Machine) (current : ℕ) (ctx : Context) (a : RowArgs)
    (loaded : Option Module) (refused : Option GrxError) : Outcome :=
  forwardRows M current ctx .layernorm "layernorm" a a.epsOk (fun _ => true) loaded refused

/-- `grxdnnAddBiasForward`. -/
def grxdnnAddBiasForward (M : Machine) (current : ℕ) (ctx : Context) (a : RowArgs)
    (loaded : Option Module) (refused : Option GrxError) : Outcome :=
  forwardRows M current ctx .addBias "add bias" a (a.bias ≠ 0) (·.addBias) loaded refused

/-- `grxdnnGeluForward`. -/
def grxdnnGeluForward (M : Machine) (current : ℕ) (ctx : Context) (a : RowArgs)
    (loaded : Option Module) (refused : Option GrxError) : Outcome :=
  forwardRows M current ctx .gelu "gelu" a a.modeOk (·.gelu) loaded refused

/-! ## Attention -/

/-- `grxdnnAttentionWorkspaceSize`. -/
def grxdnnAttentionWorkspaceSize (batch heads seqLen headDim : Int32) : Option UInt64 :=
  if batch ≤ 0 ∨ heads ≤ 0 ∨ seqLen ≤ 0 ∨ headDim ≤ 0 then none
  else
    let headsTotal := batch.toInt64.toUInt64 * heads.toInt64.toUInt64
    let perHead := seqLen.toInt64.toUInt64 * seqLen.toInt64.toUInt64
    if perHead ≠ 0 ∧ 0xffffffffffffffff / perHead < headsTotal then none
    else
      let elems := headsTotal * perHead
      if 0xffffffffffffffff / 4 < elems then none else some (elems * 4)

/-- The arguments of `grxdnnAttentionForward`. `mask` is the causal mask, and `maskOk` says that it is
one of the two. -/
structure AttentionArgs where
  batch : Int32
  heads : Int32
  seqLen : Int32
  headDim : Int32
  q : UInt64
  k : UInt64
  v : UInt64
  mask : Bool := false
  maskOk : Bool := true
  workspace : UInt64
  workspaceBytes : UInt64
  out : UInt64
deriving DecidableEq

/-- The checks of the arguments that refuse a call. -/
def AttentionArgs.refused (a : AttentionArgs) : Bool :=
  a.q = 0 || a.k = 0 || a.v = 0 || a.out = 0 ||
    (a.batch ≤ 0 || a.heads ≤ 0 || a.seqLen ≤ 0 || a.headDim ≤ 0) || !a.maskOk ||
    (a.out = a.q || a.out = a.k || a.out = a.v) ||
    match grxdnnAttentionWorkspaceSize a.batch a.heads a.seqLen a.headDim with
    | none => true
    | some need => a.workspace = 0 || a.workspaceBytes < need

/-- What is answered to `grxdnnAttentionForward`: its module, `grxblasCreate`, what the GEMMs are
answered, and the launches of the mask and the softmax. -/
structure AttentionReplies where
  loaded : Option Module := none
  created : Bool := true
  blas : Blas.LoadReplies := {}
  force : Forced := {}
  force' : Forced := {}
  gemm : Option GrxError := none
  gemm' : Option GrxError := none
  mask : Option GrxError := none
  softmax : Option GrxError := none
deriving DecidableEq

/-- Set the probe of the grxBLAS handle for a GEMM, and reserve its region. -/
def reserveGemm (ctx : Context) (blas : Blas.Context) (need base : Int32) (name : String) :
    Except Status (Context × Blas.Context × List Region × Int32) :=
  if ctx.probe = 0 then .ok (ctx, blas, [], base)
  else if ctx.probeCapacity < base + need then .error .invalidValue
  else
    -- the status of the setter is not looked at
    let blas := (Blas.grxblasSetCycleProbe blas (slotAddress ctx.probe base)
      (ctx.probeCapacity - base)).ctx
    let region : Region := ⟨base, need, name⟩
    .ok ({ ctx with regions := ctx.regions ++ [region] }, blas, [region], base + need)

/-- A GEMM of attention, on the grxBLAS handle. -/
def attentionGemm (M : Machine) (current : ℕ) (ctx : Context) (blas : Blas.Context)
    (reserved : List Region) (s : SgemmArgs) (r : Blas.LoadReplies) (force : Forced)
    (refused : Option GrxError) : Outcome :=
  let o := sgemmBatched M current blas s r force refused
  { ctx := { ctx with blas := some o.ctx }
    launched := (launches o.issued).map .blas
    reserved := reserved
    status := if o.status = .success then .success else .executionFailed }

/-- `scores = Q K^T`, column-major. -/
def scoresGemm (a : AttentionArgs) (nheads : Int32) : SgemmArgs where
  transa := true
  m := a.seqLen
  n := a.seqLen
  k := a.headDim
  a := a.k
  lda := a.headDim
  b := a.q
  ldb := a.headDim
  c := a.workspace
  ldc := a.seqLen
  batch := nheads

/-- `out = P V`, column-major. -/
def outGemm (a : AttentionArgs) (nheads : Int32) : SgemmArgs where
  m := a.headDim
  n := a.seqLen
  k := a.seqLen
  a := a.v
  lda := a.headDim
  b := a.workspace
  ldb := a.seqLen
  c := a.out
  ldc := a.headDim
  batch := nheads

/-- The first half of `grxdnnAttentionForward`'s launches: the scores and their mask. With the offset
that the regions have got to. -/
def attentionScores (M : Machine) (current : ℕ) (ctx : Context) (blas : Blas.Context)
    (a : AttentionArgs) (r : AttentionReplies) : Outcome × Int32 :=
  let nheads := a.batch * a.heads
  let need := grxblasCycleSlotsNeeded M a.seqLen a.seqLen * nheads
  match reserveGemm ctx blas need 0 "scores GEMM" with
  | .error status => ({ ctx := { ctx with blas := some blas }, status }, 0)
  | .ok (ctx, blas, reserved, base) =>
    let gemm := attentionGemm M current ctx blas reserved (scoresGemm a nheads) r.blas r.force r.gemm
    if gemm.status = .success ∧ a.mask then
      let masked := launchRows M current gemm.ctx .causalMask "causal mask"
        (nheads.toUInt32 * a.seqLen.toUInt32) (some base) r.mask
      (gemm.andThen fun _ => masked.1, masked.2)
    else (gemm, base)

/-- The second half: the softmax and the output. -/
def attentionOut (M : Machine) (current : ℕ) (ctx : Context) (base : Int32) (a : AttentionArgs)
    (r : AttentionReplies) : Outcome :=
  let nheads := a.batch * a.heads
  let softmax := launchRows M current ctx .softmax "softmax"
    (nheads.toUInt32 * a.seqLen.toUInt32) (some base) r.softmax
  softmax.1.andThen fun ctx =>
    let blas := ctx.blas.getD {}
    let need := grxblasCycleSlotsNeeded M a.headDim a.seqLen * nheads
    match reserveGemm ctx blas need softmax.2 "out GEMM" with
    | .error status => { ctx, status }
    | .ok (ctx, blas, reserved, _) =>
      attentionGemm M current ctx blas reserved (outGemm a nheads) r.blas r.force' r.gemm'

/-- `grxdnnAttentionForward`. -/
def grxdnnAttentionForward (M : Machine) (current : ℕ) (ctx : Context) (a : AttentionArgs)
    (r : AttentionReplies) : Outcome :=
  if a.refused then { ctx, status := .invalidValue }
  else
    (ensureModule current ctx r.loaded).andThen fun ctx =>
      if a.mask ∧ ctx.loaded.causalMask = false then { ctx, status := .kernelNotFound }
      else
        match ctx.blas, r.created with
        | none, false => { ctx, status := .notInitialized }
        | blas, _ =>
          let blas := Blas.grxblasSetStream (blas.getD {}) ctx.stream
          let ctx := { ctx with blas := some blas, regions := [] }
          let scores := attentionScores M current ctx blas a r
          scores.1.andThen fun ctx => attentionOut M current ctx scores.2 a r

/-! ## Calls -/

/-- A call on a handle. -/
inductive Call
  | setCycleProbe (slots : UInt64) (capacity : Int32)
  | setStream (stream : Option ℕ)
  | softmax (current : ℕ) (a : RowArgs) (loaded : Option Module) (refused : Option GrxError)
  | layerNorm (current : ℕ) (a : RowArgs) (loaded : Option Module) (refused : Option GrxError)
  | addBias (current : ℕ) (a : RowArgs) (loaded : Option Module) (refused : Option GrxError)
  | gelu (current : ℕ) (a : RowArgs) (loaded : Option Module) (refused : Option GrxError)
  | attention (current : ℕ) (a : AttentionArgs) (r : AttentionReplies)

/-- What a call does. -/
def Context.call (M : Machine) (ctx : Context) : Call → Outcome
  | .setCycleProbe slots capacity => grxdnnSetCycleProbe ctx slots capacity
  | .setStream stream => { ctx := { ctx with stream } }
  | .softmax current a loaded refused => grxdnnSoftmaxForward M current ctx a loaded refused
  | .layerNorm current a loaded refused => grxdnnLayerNormForward M current ctx a loaded refused
  | .addBias current a loaded refused => grxdnnAddBiasForward M current ctx a loaded refused
  | .gelu current a loaded refused => grxdnnGeluForward M current ctx a loaded refused
  | .attention current a r => grxdnnAttentionForward M current ctx a r

/-- The handle after a call. -/
def Context.step (M : Machine) (ctx : Context) (c : Call) : Context :=
  (ctx.call M c).ctx

end Grxcp.Dnn
