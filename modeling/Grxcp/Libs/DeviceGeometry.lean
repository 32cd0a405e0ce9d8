import Grxcp.Lib.Runs
import Grxcp.Libs.Grxblas

/-!
# The device whose properties a call asks for

A kernel is launched on the device of its module, which is the device that was current when the handle
loaded it. The geometry, the slots and the capabilities are asked of device 0. `Machine.as d` answers
every question with device `d`, so a call that does on it what it does on the devices as they are has
gone by the properties of `d` (`FromLaunchDevice`). It does along every run in which device 0 agrees with
the device of the launch in what the call reads (`calls_from_launchDevice`).
-/

namespace Grxcp.Blas

open Grxcp.Runtime

/-! ## Calls -/

/-- A call on a handle. -/
inductive Call
  | setStream (stream : Option ℕ)
  | setTensorMapSlots (slotA slotB : Int32)
  | setCycleProbe (slots : UInt64) (capacity : Int32)
  | cycleSlotsNeeded (m n : Int32)
  | tensorTypes (r : LoadReplies) (h i8 : ShapeReplies)
  | saxpy (a : VectorArgs) (r : LoadReplies) (refused : Option GrxError)
  | sscal (a : VectorArgs) (r : LoadReplies) (refused : Option GrxError)
  | sgemv (a : GemvArgs) (r : LoadReplies) (refused : Option GrxError)
  | sgemm (s : SgemmArgs) (r : LoadReplies) (force : Forced) (refused : Option GrxError)
  | gemmEx (s : GemmExArgs) (r : LoadReplies) (h i8 : ShapeReplies) (g : GemmReplies)

/-- What a call does, and the number that it gives out. -/
structure Answer where
  outcome : Outcome
  count : Int32 := 0
  types : UInt32 := 0

/-- What a call does with `current` as the current device. -/
def Context.call (M : Machine) (current : ℕ) (ctx : Context) : Call → Answer
  | .setStream stream => { outcome := { ctx := grxblasSetStream ctx stream } }
  | .setTensorMapSlots slotA slotB => { outcome := grxblasSetTensorMapSlots M ctx slotA slotB }
  | .setCycleProbe slots capacity => { outcome := grxblasSetCycleProbe ctx slots capacity }
  | .cycleSlotsNeeded m n => { outcome := { ctx }, count := grxblasCycleSlotsNeeded M m n }
  | .tensorTypes r h i8 =>
    let (outcome, types) := grxblasGetTensorTypes M current ctx r h i8
    { outcome, types }
  | .saxpy a r refused => { outcome := grxblasSaxpy M current ctx a r refused }
  | .sscal a r refused => { outcome := grxblasSscal M current ctx a r refused }
  | .sgemv a r refused => { outcome := grxblasSgemv M current ctx a r refused }
  | .sgemm s r force refused => { outcome := sgemmBatched M current ctx s r force refused }
  | .gemmEx s r h i8 g => { outcome := grxblasGemmEx M current ctx s r h i8 g }

/-- The current device, and the handles. -/
structure Session where
  current : ℕ := 0
  handles : ℕ → Context := fun _ => {}

/-- What a program does. -/
inductive Action
  | setDevice (device : ℕ)
  | create (handle : ℕ)
  | call (handle : ℕ) (c : Call)

/-- What a call answers in a session. -/
def Session.answer (M : Machine) (s : Session) (handle : ℕ) (c : Call) : Answer :=
  (s.handles handle).call M s.current c

/-- The session after an action. -/
def Session.step (M : Machine) (s : Session) : Action → Session
  | .setDevice device => { s with current := device }
  | .create handle => { s with handles := Function.update s.handles handle {} }
  | .call handle c =>
    { s with handles := Function.update s.handles handle (s.answer M handle c).outcome.ctx }

/-! ## Statements -/

/-- Every question about a device is answered with device `d`. -/
def Machine.as (M : Machine) (d : ℕ) : Machine where
  props := fun _ => M.props d
  slotCount := fun _ => M.slotCount d

/-- The device that a handle's kernels are launched on. -/
def Context.device (ctx : Context) (current : ℕ) : ℕ :=
  match ctx.module with
  | some module => module.device
  | none => current

/-- The device that a call's work is on. A mixed-precision GEMM that is not for the tensor unit is the
current device's. -/
def launchDevice (M : Machine) (current : ℕ) (ctx : Context) : Call → ℕ
  | .gemmEx s _ _ _ _ =>
    if decideGemmEngine M current s.types = .gpuTensor then ctx.device current else current
  | _ => ctx.device current

/-- What a call would do if it went by the device of its launch. -/
def Session.ideal (M : Machine) (s : Session) (handle : ℕ) (c : Call) : Answer :=
  s.answer (M.as (launchDevice M s.current (s.handles handle) c)) handle c

/-- The call goes by the properties of the device that its kernels are launched on. -/
structure FromLaunchDevice (M : Machine) (s : Session) (handle : ℕ) (c : Call) : Prop where
  same : s.answer M handle c = s.ideal M handle c
  device : ∀ l ∈ launches (s.answer M handle c).outcome.issued,
    l.device = launchDevice M s.current (s.handles handle) c

/-- The threads that fill a device. -/
def DeviceProp.resident (prop : DeviceProp) : Int64 :=
  prop.warpSize.toInt64 * prop.maxWarpsPerMultiProcessor.toInt64 * prop.multiProcessorCount.toInt64

/-- The device has what the tensor path needs. -/
def DeviceProp.tensor (prop : DeviceProp) : Bool :=
  ¬ (prop.capabilities &&& GRX_CAP_TENSOR_CORE = 0 ∨ prop.capabilities &&& GRX_CAP_ASYNC_COPY = 0)

/-- Device 0 agrees with device `d` in a property. -/
def Machine.Agrees {α : Type} (M : Machine) (d : ℕ) (f : DeviceProp → α) : Prop :=
  (M.props 0).map f = (M.props d).map f

/-- Device 0 agrees with device `d` in what the call reads. -/
def Agrees (M : Machine) (current : ℕ) (ctx : Context) : Call → Prop
  | .setStream _ => True
  | .setCycleProbe _ _ => True
  | .setTensorMapSlots _ _ => M.slotCount 0 = M.slotCount (ctx.device current)
  | .cycleSlotsNeeded m n => 0 < m → 0 < n → M.Agrees (ctx.device current) (·.warpSize)
  | .tensorTypes _ _ _ => ctx.hgemmFn = false →
      M.Agrees (ctx.device current) fun prop => (prop.warpSize, prop.tensor)
  | .saxpy a _ _ => 0 < a.n → M.Agrees (ctx.device current) (·.warpSize)
  | .sscal a _ _ => 0 < a.n → M.Agrees (ctx.device current) (·.warpSize)
  | .sgemv a _ _ => 0 < a.m → 0 < a.n → M.Agrees (ctx.device current) (·.warpSize)
  | .sgemm s _ _ _ => 0 < s.m → 0 < s.n → 0 < s.batch →
      M.Agrees (ctx.device current) fun prop => (prop.warpSize, prop.resident)
  | .gemmEx s _ _ _ _ => 0 < s.m → 0 < s.n → decideGemmEngine M current s.types = .gpuTensor →
      decideGemmEngine M (ctx.device current) s.types = .gpuTensor ∧
      (ctx.hgemmFn = false →
        M.Agrees (ctx.device current) fun prop => (prop.warpSize, prop.tensor)) ∧
      M.Agrees (ctx.device current) fun prop => (prop.warpSize, prop.maxThreadsPerBlock)

/-! ## Two machines that agree -/

section TwoMachines

variable {M N : Machine} {current : ℕ} {ctx : Context}

/-- Two answers about a device that agree in a property. -/
theorem agree_cases {α : Type} {f : DeviceProp → α} {p q : Except GrxError DeviceProp}
    (h : p.map f = q.map f) :
    (∃ e, p = .error e ∧ q = .error e) ∨ ∃ a b, p = .ok a ∧ q = .ok b ∧ f a = f b := by
  cases p with
  | error e =>
    cases q with
    | error e' => exact .inl ⟨e, rfl, by rw [Except.error.inj h]⟩
    | ok b => cases h
  | ok a =>
    cases q with
    | error e' => cases h
    | ok b => exact .inr ⟨a, b, rfl, rfl, Except.ok.inj h⟩

/-- What agrees in a property agrees in what is computed from it. -/
theorem agree_comp {α β : Type} {f : DeviceProp → α} {p q : Except GrxError DeviceProp}
    (h : p.map f = q.map f) (g : α → β) : p.map (fun prop => g (f prop)) = q.map fun prop => g (f prop) := by
  rcases agree_cases h with ⟨e, rfl, rfl⟩ | ⟨a, b, rfl, rfl, hab⟩
  · rfl
  · exact congrArg Except.ok (congrArg g hab)

theorem shapeLaunch_congr {a b : DeviceProp} (h : a.warpSize = b.warpSize) (kernel : BlasKernel)
    (device : ℕ) (refused : Option GrxError) :
    shapeLaunch kernel device a refused = shapeLaunch kernel device b refused := by
  unfold shapeLaunch
  rw [h]

theorem readSgemmShape_congr (h : (M.props 0).map (·.warpSize) = (N.props 0).map (·.warpSize))
    (module : Module) (r : LoadReplies) :
    readSgemmShape M ctx module r = readSgemmShape N ctx module r := by
  unfold readSgemmShape
  rcases agree_cases h with ⟨e, hM, hN⟩ | ⟨a, b, hM, hN, hab⟩
  · rw [hM, hN]
  · rw [hM, hN]
    dsimp only
    rw [shapeLaunch_congr hab]
    simp only [hab]

theorem ensureModule_congr (h : (M.props 0).map (·.warpSize) = (N.props 0).map (·.warpSize))
    (r : LoadReplies) : ensureModule M current ctx r = ensureModule N current ctx r := by
  unfold ensureModule
  simp only [readSgemmShape_congr h]

theorem flatGrid_congr {a b : DeviceProp} (h : a.warpSize = b.warpSize) (n : UInt32) :
    flatGrid n a = flatGrid n b := by
  unfold flatGrid
  rw [h]

theorem launchFlat_congr (h : (M.props 0).map (·.warpSize) = (N.props 0).map (·.warpSize))
    (kernel : BlasKernel) {grid : DeviceProp → UInt32}
    (hgrid : ∀ a b : DeviceProp, a.warpSize = b.warpSize → grid a = grid b)
    (refused : Option GrxError) :
    launchFlat M ctx kernel grid refused = launchFlat N ctx kernel grid refused := by
  unfold launchFlat
  rcases agree_cases h with ⟨e, hM, hN⟩ | ⟨a, b, hM, hN, hab⟩
  · rw [hM, hN]
  · rw [hM, hN]
    dsimp only
    rw [hgrid a b hab]
    simp only [show a.warpSize = b.warpSize from hab]

theorem cycleSlotsNeeded_congr {m n : Int32}
    (h : 0 < m → 0 < n → (M.props 0).map (·.warpSize) = (N.props 0).map (·.warpSize)) :
    grxblasCycleSlotsNeeded M m n = grxblasCycleSlotsNeeded N m n := by
  have hnone : ∀ L : Machine, m ≤ 0 ∨ n ≤ 0 → grxblasCycleSlotsNeeded L m n = 0 := by
    intro L hmn
    unfold grxblasCycleSlotsNeeded slotsFor
    cases L.props 0 with
    | error e => rfl
    | ok prop => exact if_pos (hmn.imp_right .inl)
  by_cases hmn : m ≤ 0 ∨ n ≤ 0
  · rw [hnone M hmn, hnone N hmn]
  · rw [not_or, Int32.not_le, Int32.not_le] at hmn
    unfold grxblasCycleSlotsNeeded
    rcases agree_cases (h hmn.1 hmn.2) with ⟨e, hM, hN⟩ | ⟨a, b, hM, hN, hab⟩
    · rw [hM, hN]
    · rw [hM, hN]
      exact congrArg (slotsFor m n) hab

theorem saxpy_congr {a : VectorArgs}
    (h : 0 < a.n → (M.props 0).map (·.warpSize) = (N.props 0).map (·.warpSize))
    (r : LoadReplies) (refused : Option GrxError) :
    grxblasSaxpy M current ctx a r refused = grxblasSaxpy N current ctx a r refused := by
  unfold grxblasSaxpy
  split
  · rfl
  split
  · rfl
  split
  · rfl
  next hneg hzero =>
    have hw := h (Int32.lt_of_le_of_ne (Int32.not_lt.mp hneg) (Ne.symm hzero))
    simp only [ensureModule_congr hw, launchFlat_congr hw _ fun _ _ hab => flatGrid_congr hab _]

theorem sscal_congr {a : VectorArgs}
    (h : 0 < a.n → (M.props 0).map (·.warpSize) = (N.props 0).map (·.warpSize))
    (r : LoadReplies) (refused : Option GrxError) :
    grxblasSscal M current ctx a r refused = grxblasSscal N current ctx a r refused := by
  unfold grxblasSscal
  split
  · rfl
  split
  · rfl
  split
  · rfl
  next hneg hzero =>
    have hw := h (Int32.lt_of_le_of_ne (Int32.not_lt.mp hneg) (Ne.symm hzero))
    simp only [ensureModule_congr hw, launchFlat_congr hw _ fun _ _ hab => flatGrid_congr hab _]

theorem sgemv_congr {a : GemvArgs}
    (h : 0 < a.m → 0 < a.n → (M.props 0).map (·.warpSize) = (N.props 0).map (·.warpSize))
    (r : LoadReplies) (refused : Option GrxError) :
    grxblasSgemv M current ctx a r refused = grxblasSgemv N current ctx a r refused := by
  unfold grxblasSgemv
  split
  · rfl
  split
  · rfl
  split
  · rfl
  next hneg hzero =>
    rw [not_or, Int32.not_lt, Int32.not_lt] at hneg
    rw [not_or] at hzero
    have hw := h (Int32.lt_of_le_of_ne hneg.1 (Ne.symm hzero.1))
      (Int32.lt_of_le_of_ne hneg.2 (Ne.symm hzero.2))
    have hgrid : ∀ p q : DeviceProp, p.warpSize = q.warpSize →
        (if a.trans = true then fun _ => if a.trans = true then a.n.toUInt32 else a.m.toUInt32
          else flatGrid (if a.trans = true then a.n.toUInt32 else a.m.toUInt32)) p =
        (if a.trans = true then fun _ => if a.trans = true then a.n.toUInt32 else a.m.toUInt32
          else flatGrid (if a.trans = true then a.n.toUInt32 else a.m.toUInt32)) q := by
      intro p q hpq
      split
      · rfl
      · exact flatGrid_congr hpq _
    simp only [ensureModule_congr hw, launchFlat_congr hw _ hgrid]

theorem decideSgemmKernel_congr {p q : DeviceProp} (h : p.resident = q.resident) (m n batch : Int32)
    (force : Forced) :
    decideSgemmKernel ctx p m n batch force = decideSgemmKernel ctx q m n batch force := by
  have hrule : ruleSgemmKernel ctx p m n batch = ruleSgemmKernel ctx q m n batch := by
    unfold ruleSgemmKernel
    unfold DeviceProp.resident at h
    rw [h]
  unfold decideSgemmKernel
  rw [hrule]

theorem launchSgemm_congr
    (h : (M.props 0).map (fun p => (p.warpSize, p.resident)) =
      (N.props 0).map fun p => (p.warpSize, p.resident))
    (s : SgemmArgs) (force : Forced) (refused : Option GrxError) :
    launchSgemm M ctx s force refused = launchSgemm N ctx s force refused := by
  unfold launchSgemm
  rcases agree_cases h with ⟨e, hM, hN⟩ | ⟨p, q, hM, hN, hpq⟩
  · rw [hM, hN]
  · obtain ⟨hw, hr⟩ := Prod.mk.inj hpq
    rw [hM, hN]
    dsimp only
    simp only [decideSgemmKernel_congr hr, flatGrid_congr hw, hw]

theorem sgemm_congr {s : SgemmArgs}
    (h : 0 < s.m → 0 < s.n → 0 < s.batch →
      (M.props 0).map (fun p => (p.warpSize, p.resident)) =
        (N.props 0).map fun p => (p.warpSize, p.resident))
    (r : LoadReplies) (force : Forced) (refused : Option GrxError) :
    sgemmBatched M current ctx s r force refused = sgemmBatched N current ctx s r force refused := by
  unfold sgemmBatched
  split
  · rfl
  split
  · rfl
  split
  · rfl
  split
  · rfl
  next hneg hbatch hzero =>
    simp only [not_or, Int32.not_lt] at hneg hbatch hzero
    have hw := h (Int32.lt_of_le_of_ne hneg.1 (Ne.symm hzero.1))
      (Int32.lt_of_le_of_ne hneg.2.1 (Ne.symm hzero.2.1))
      (Int32.lt_of_le_of_ne hbatch (Ne.symm hzero.2.2))
    simp only [ensureModule_congr (agree_comp hw Prod.fst), launchSgemm_congr hw]

theorem ensureIgemm_congr {p q : DeviceProp} (h : p.warpSize = q.warpSize) (i8 : ShapeReplies) :
    ensureIgemm ctx p i8 = ensureIgemm ctx q i8 := by
  unfold ensureIgemm
  rw [shapeLaunch_congr h]

theorem ensureHgemm_congr
    (h : ctx.hgemmFn = false → (M.props 0).map (fun p => (p.warpSize, p.tensor)) =
      (N.props 0).map fun p => (p.warpSize, p.tensor))
    (r : LoadReplies) (h' i8 : ShapeReplies) :
    ensureHgemm M current ctx r h' i8 = ensureHgemm N current ctx r h' i8 := by
  unfold ensureHgemm
  split
  · rfl
  next hfn =>
    have hprops := h (by simpa using hfn)
    have hwarp := agree_comp hprops Prod.fst
    rw [ensureModule_congr hwarp]
    rcases agree_cases hprops with ⟨e, hM, hN⟩ | ⟨p, q, hM, hN, hpq⟩
    · rw [hM, hN]
    · obtain ⟨hw, ht⟩ := Prod.mk.inj hpq
      rw [hM, hN]
      dsimp only
      have hcaps : (p.capabilities &&& GRX_CAP_TENSOR_CORE = 0 ∨
          p.capabilities &&& GRX_CAP_ASYNC_COPY = 0) ↔
          (q.capabilities &&& GRX_CAP_TENSOR_CORE = 0 ∨
          q.capabilities &&& GRX_CAP_ASYNC_COPY = 0) := by
        unfold DeviceProp.tensor at ht
        simpa only [decide_eq_decide, not_iff_not] using ht
      simp only [hcaps, shapeLaunch_congr hw, ensureIgemm_congr hw, hw]

theorem launchGemmEx_congr {p q : DeviceProp} (hw : p.warpSize = q.warpSize)
    (hb : p.maxThreadsPerBlock = q.maxThreadsPerBlock) (s : GemmExArgs) (bm bn : UInt32)
    (refused : Option GrxError) :
    launchGemmEx ctx p s bm bn refused = launchGemmEx ctx q s bm bn refused := by
  unfold launchGemmEx
  rw [hw, hb]

theorem tensorGemm_congr
    (h : (M.props 0).map (fun p => (p.warpSize, p.maxThreadsPerBlock)) =
      (N.props 0).map fun p => (p.warpSize, p.maxThreadsPerBlock))
    (s : GemmExArgs) (g : GemmReplies) :
    tensorGemm M current ctx s g = tensorGemm N current ctx s g := by
  unfold tensorGemm
  rcases agree_cases h with ⟨e, hM, hN⟩ | ⟨p, q, hM, hN, hpq⟩
  · rw [hM, hN]
  · obtain ⟨hw, hb⟩ := Prod.mk.inj hpq
    rw [hM, hN]
    dsimp only
    simp only [launchGemmEx_congr hw hb]

theorem gemmEx_congr {s : GemmExArgs}
    (hengine : 0 < s.m → 0 < s.n →
      decideGemmEngine M current s.types = decideGemmEngine N current s.types)
    (h : 0 < s.m → 0 < s.n → decideGemmEngine M current s.types = .gpuTensor →
      (ctx.hgemmFn = false → (M.props 0).map (fun p => (p.warpSize, p.tensor)) =
        (N.props 0).map fun p => (p.warpSize, p.tensor)) ∧
      (M.props 0).map (fun p => (p.warpSize, p.maxThreadsPerBlock)) =
        (N.props 0).map fun p => (p.warpSize, p.maxThreadsPerBlock))
    (r : LoadReplies) (h' i8 : ShapeReplies) (g : GemmReplies) :
    grxblasGemmEx M current ctx s r h' i8 g = grxblasGemmEx N current ctx s r h' i8 g := by
  unfold grxblasGemmEx
  split
  · rfl
  split
  · rfl
  split
  · rfl
  next hneg hzero =>
    simp only [not_or, Int32.not_lt] at hneg hzero
    have hm := Int32.lt_of_le_of_ne hneg.1 (Ne.symm hzero.1)
    have hn := Int32.lt_of_le_of_ne hneg.2.1 (Ne.symm hzero.2)
    rw [← hengine hm hn]
    cases hM : decideGemmEngine M current s.types with
    | gpuTensor =>
      obtain ⟨htypes, hlaunch⟩ := h hm hn hM
      simp only [ensureHgemm_congr htypes, tensorGemm_congr hlaunch]
    | _ => rfl

theorem setTensorMapSlots_congr (h : M.slotCount 0 = N.slotCount 0) (slotA slotB : Int32) :
    grxblasSetTensorMapSlots M ctx slotA slotB = grxblasSetTensorMapSlots N ctx slotA slotB := by
  unfold grxblasSetTensorMapSlots
  rw [h]

end TwoMachines

/-- Where device 0 agrees with the device of the launch, the call goes by that device. -/
theorem call_as {M : Machine} {current : ℕ} {ctx : Context} {c : Call} (h : Agrees M current ctx c) :
    ctx.call M current c = ctx.call (M.as (launchDevice M current ctx c)) current c := by
  -- the machine of the launch
  let N := M.as (ctx.device current)
  cases c with
  | setStream stream => rfl
  | setCycleProbe slots capacity => rfl
  | setTensorMapSlots slotA slotB =>
    have hsame : grxblasSetTensorMapSlots M ctx slotA slotB =
        grxblasSetTensorMapSlots N ctx slotA slotB := setTensorMapSlots_congr (M := M) (N := N) h slotA slotB
    exact congrArg (fun o => (⟨o, 0, 0⟩ : Answer)) hsame
  | cycleSlotsNeeded m n =>
    have hsame := cycleSlotsNeeded_congr (M := M) (N := N) h
    exact congrArg (fun count => (⟨{ ctx }, count, 0⟩ : Answer)) hsame
  | tensorTypes r h' i8 =>
    have hsame : ensureHgemm M current ctx r h' i8 = ensureHgemm N current ctx r h' i8 :=
      ensureHgemm_congr (M := M) (N := N) h r h' i8
    exact congrArg
      (fun o : Outcome => (⟨o, 0, if o.status = .success then o.ctx.tcuTypes else 0⟩ : Answer)) hsame
  | saxpy a r refused =>
    refine congrArg (fun o => (⟨o, 0, 0⟩ : Answer)) ?_
    exact saxpy_congr (M := M) (N := N) h r refused
  | sscal a r refused =>
    refine congrArg (fun o => (⟨o, 0, 0⟩ : Answer)) ?_
    exact sscal_congr (M := M) (N := N) h r refused
  | sgemv a r refused =>
    refine congrArg (fun o => (⟨o, 0, 0⟩ : Answer)) ?_
    exact sgemv_congr (M := M) (N := N) h r refused
  | sgemm s r force refused =>
    refine congrArg (fun o => (⟨o, 0, 0⟩ : Answer)) ?_
    exact sgemm_congr (M := M) (N := N) h r force refused
  | gemmEx s r h' i8 g =>
    by_cases hengine : decideGemmEngine M current s.types = .gpuTensor
    · -- the tensor unit's work is on the device of the module
      have hon : launchDevice M current ctx (.gemmEx s r h' i8 g) = ctx.device current :=
        if_pos hengine
      rw [hon]
      have hsame : grxblasGemmEx M current ctx s r h' i8 g = grxblasGemmEx N current ctx s r h' i8 g :=
        gemmEx_congr (fun hm hn => by rw [hengine]; exact (h hm hn hengine).1.symm)
          (fun hm hn _ => (h hm hn hengine).2) r h' i8 g
      exact congrArg (fun o => (⟨o, 0, 0⟩ : Answer)) hsame
    · have hon : launchDevice M current ctx (.gemmEx s r h' i8 g) = current := if_neg hengine
      rw [hon]
      have hsame : grxblasGemmEx M current ctx s r h' i8 g =
          grxblasGemmEx (M.as current) current ctx s r h' i8 g :=
        gemmEx_congr (M := M) (N := M.as current) (fun _ _ => rfl)
          (fun _ _ heq => absurd heq hengine) r h' i8 g
      exact congrArg (fun o => (⟨o, 0, 0⟩ : Answer)) hsame

/-! ## The device of a launch -/

/-- A handle with tensor functions has their module. -/
def Context.Ok (ctx : Context) : Prop :=
  ctx.hgemmFn = true → ctx.module ≠ none

/-- The module is on device `d`. -/
def Context.On (ctx : Context) (d : ℕ) : Prop :=
  ∃ module, ctx.module = some module ∧ module.device = d

/-- A part of a call launches on device `d`, and if it succeeds, `P` holds of the handle. -/
structure OnDevice (d : ℕ) (P : Context → Prop) (o : Outcome) : Prop where
  launched : ∀ l ∈ launches o.issued, l.device = d
  ok : o.ctx.Ok
  success : o.status = .success → P o.ctx

section OnDevice

variable {M : Machine} {current d : ℕ} {ctx : Context} {o : Outcome} {P Q : Context → Prop}

theorem Context.On.loaded (h : ctx.On d) : ctx.loaded.device = d := by
  obtain ⟨module, hmodule, hdevice⟩ := h
  unfold Context.loaded
  rw [hmodule]
  exact hdevice

theorem Context.On.ok (h : ctx.On d) : ctx.Ok := by
  intro _ hnone
  obtain ⟨module, hmodule, -⟩ := h
  rw [hmodule] at hnone
  cases hnone

theorem OnDevice.idle (h : ctx.Ok) (status : Status) (hP : status = .success → P ctx) :
    OnDevice d P { ctx, status } :=
  ⟨by simp [launches], h, hP⟩

/-- A failure has nothing to say of the handle. -/
theorem OnDevice.refuse (h : ctx.Ok) {status : Status} (hs : status ≠ .success) :
    OnDevice d P { ctx, status } :=
  .idle h status fun h => absurd h hs

theorem OnDevice.issue (h : ctx.On d) {issued : List Issue}
    (hl : ∀ l ∈ launches issued, l.device = d) (status : Status) (hP : P ctx) :
    OnDevice d P { ctx, issued, status } :=
  ⟨hl, h.ok, fun _ => hP⟩

theorem OnDevice.ite {c : Prop} [Decidable c] {o' : Outcome} (h : OnDevice d P o)
    (h' : OnDevice d P o') : OnDevice d P (if c then o else o') := by
  split
  · exact h
  · exact h'

theorem OnDevice.andThen {f : Context → Outcome} (h : OnDevice d P o)
    (hf : ∀ ctx, P ctx → OnDevice d Q (f ctx)) : OnDevice d Q (o.andThen f) := by
  unfold Outcome.andThen
  split
  next hs =>
    have hnext := hf o.ctx (h.success hs)
    refine ⟨fun l hl => ?_, hnext.ok, hnext.success⟩
    unfold launches at hl
    rw [List.filterMap_append, List.mem_append] at hl
    exact hl.elim (h.launched l) (hnext.launched l)
  next hs => exact ⟨h.launched, h.ok, fun hno => absurd hno hs⟩

theorem onDevice_readSgemmShape {module : Module} (hon : ctx.On d) (hmodule : module.device = d)
    (r : LoadReplies) : OnDevice d (·.On d) (readSgemmShape M ctx module r) := by
  have hidle : OnDevice d (·.On d) { ctx } := .idle hon.ok _ fun _ => hon
  unfold readSgemmShape
  split
  · exact hidle
  split
  · exact hidle
  split
  · exact hidle
  split
  · exact hidle
  dsimp only
  split
  next shape _ _ =>
    have hshape : (ctx.withShape shape).On d := by
      unfold Context.withShape
      dsimp only
      split_ifs <;> exact hon
    exact ⟨by simp [launches, shapeLaunch, hmodule], hshape.ok, fun _ => hshape⟩
  · exact ⟨by simp [launches, shapeLaunch, hmodule], hon.ok, fun _ => hon⟩

theorem onDevice_ensureModule (h : ctx.Ok) (hd : ctx.device current = d) (r : LoadReplies) :
    OnDevice d (·.On d) (ensureModule M current ctx r) := by
  unfold Context.device at hd
  unfold ensureModule
  cases hmodule : ctx.module with
  | some module =>
    rw [hmodule] at hd
    exact .idle h _ fun _ => ⟨module, hmodule, hd⟩
  | none =>
    rw [hmodule] at hd
    dsimp only at hd ⊢
    split
    · exact .refuse h nofun
    · exact onDevice_readSgemmShape ⟨_, rfl, hd⟩ hd r

theorem onDevice_launchFlat (h : ctx.On d) (kernel : BlasKernel) (grid : DeviceProp → UInt32)
    (refused : Option GrxError) :
    OnDevice d (fun _ => True) (launchFlat M ctx kernel grid refused) := by
  unfold launchFlat
  split
  · exact .idle h.ok _ fun _ => trivial
  dsimp only
  split
  · exact .idle h.ok _ fun _ => trivial
  · exact ⟨by simp [launches, h.loaded], h.ok, fun _ => trivial⟩

theorem onDevice_launchSgemm (h : ctx.On d) (s : SgemmArgs) (force : Forced)
    (refused : Option GrxError) :
    OnDevice d (fun _ => True) (launchSgemm M ctx s force refused) := by
  unfold launchSgemm
  split
  · exact .idle h.ok _ fun _ => trivial
  dsimp only
  split
  · exact .idle h.ok _ fun _ => trivial
  · exact ⟨by simp [launches, h.loaded], h.ok, fun _ => trivial⟩

theorem onDevice_ensureIgemm (h : ctx.On d) (prop : DeviceProp) (i8 : ShapeReplies) :
    OnDevice d (·.On d) (ensureIgemm ctx prop i8) := by
  have hidle : OnDevice d (·.On d) { ctx } := .idle h.ok _ fun _ => h
  unfold ensureIgemm
  split
  · exact hidle
  split
  · exact hidle
  split
  · exact hidle
  dsimp only
  split
  · split
    · refine ⟨by simp [launches, shapeLaunch, h.loaded], ?_, fun _ => h⟩
      exact h.ok
    · exact ⟨by simp [launches, shapeLaunch, h.loaded], h.ok, fun _ => h⟩
  · exact ⟨by simp [launches, shapeLaunch, h.loaded], h.ok, fun _ => h⟩

theorem onDevice_ensureHgemm (h : ctx.Ok) (hd : ctx.device current = d) (r : LoadReplies)
    (h' i8 : ShapeReplies) : OnDevice d (·.On d) (ensureHgemm M current ctx r h' i8) := by
  unfold ensureHgemm
  split
  next hfn =>
    -- the functions are those of the module that is there
    refine .idle h _ fun _ => ?_
    unfold Context.device at hd
    cases hmodule : ctx.module with
    | none => exact absurd hmodule (h hfn)
    | some module =>
      rw [hmodule] at hd
      exact ⟨module, hmodule, hd⟩
  split
  · exact .refuse h nofun
  next prop _ =>
  split
  · exact .refuse h nofun
  apply (onDevice_ensureModule h hd r).andThen
  intro ctx hon
  split
  · exact .refuse hon.ok nofun
  split
  · exact .refuse hon.ok nofun
  have hlaunch : ∀ l ∈ launches [Issue.launch
      (shapeLaunch .hgemmTcuShape ctx.loaded.device prop h'.launch)], l.device = d := by
    simp [launches, shapeLaunch, hon.loaded]
  dsimp only
  split
  · exact .issue hon hlaunch _ hon
  · exact .issue hon hlaunch _ hon
  next shape _ _ =>
    split
    · exact .issue hon hlaunch _ hon
    split
    · exact .issue hon hlaunch _ hon
    have hon' : ∀ {ctx' : Context}, ctx'.module = ctx.module → ctx'.On d := by
      intro ctx' hsame
      obtain ⟨module, hmodule, hdevice⟩ := hon
      exact ⟨module, hsame.trans hmodule, hdevice⟩
    split
    · refine OnDevice.issue (P := (·.On d)) ?_ hlaunch _ ?_ <;> exact hon' rfl
    · apply OnDevice.andThen (P := (·.On d))
      · refine OnDevice.issue (P := (·.On d)) ?_ hlaunch _ ?_ <;> exact hon' rfl
      · exact fun ctx hctx => onDevice_ensureIgemm hctx prop i8

theorem onDevice_tensorGemm (h : ctx.On d) (s : GemmExArgs) (g : GemmReplies) :
    OnDevice d (fun _ => True) (tensorGemm M current ctx s g) := by
  unfold tensorGemm
  dsimp only
  split
  · exact .idle h.ok _ fun _ => trivial
  split
  · exact .idle h.ok _ fun _ => trivial
  split
  · exact .idle h.ok _ fun _ => trivial
  next prop _ =>
  apply OnDevice.andThen (P := (·.On d))
  · -- a descriptor is no launch, and the handle is as it was
    apply OnDevice.ite
    · apply OnDevice.andThen (P := (·.On d))
      · exact .issue h (by simp [launches]) _ h
      · exact fun ctx hctx => .issue hctx (by simp [launches]) _ hctx
    · exact .idle h.ok _ fun _ => h
  · intro ctx hctx
    unfold launchGemmEx
    dsimp only
    apply OnDevice.ite
    · exact .idle hctx.ok _ fun _ => trivial
    · exact .issue hctx (by simp [launches, hctx.loaded]) _ trivial

/-- A call without launches. -/
theorem onDevice_setter (ho : launches o.issued = []) (hok : o.ctx.Ok) :
    OnDevice d (fun _ => True) o :=
  ⟨by simp [ho], hok, fun _ => trivial⟩

theorem onDevice_sgemm (h : ctx.Ok) (hd : ctx.device current = d) (s : SgemmArgs) (r : LoadReplies)
    (force : Forced) (refused : Option GrxError) :
    OnDevice d (fun _ => True) (sgemmBatched M current ctx s r force refused) := by
  have hidle : ∀ status, OnDevice d (fun _ => True) { ctx, status } :=
    fun status => .idle h status fun _ => trivial
  unfold sgemmBatched
  iterate 7 apply OnDevice.ite (hidle _)
  exact (onDevice_ensureModule h hd r).andThen
    fun ctx hon => onDevice_launchSgemm hon s force refused

theorem onDevice_gemmEx (h : ctx.Ok) (s : GemmExArgs) (r : LoadReplies) (h' i8 : ShapeReplies)
    (g : GemmReplies) :
    OnDevice (launchDevice M current ctx (.gemmEx s r h' i8 g)) (fun _ => True)
      (grxblasGemmEx M current ctx s r h' i8 g) := by
  have hidle : ∀ status,
      OnDevice (launchDevice M current ctx (.gemmEx s r h' i8 g)) (fun _ => True) { ctx, status } :=
    fun status => .idle h status fun _ => trivial
  unfold grxblasGemmEx
  iterate 6 apply OnDevice.ite (hidle _)
  cases hengine : decideGemmEngine M current s.types with
  | none => exact hidle _
  | npuC930 => exact hidle _
  | ptaChiplet => exact .ite (hidle _) (hidle _)
  | gpuTensor =>
    have hon : launchDevice M current ctx (.gemmEx s r h' i8 g) = ctx.device current := if_pos hengine
    exact (onDevice_ensureHgemm h hon.symm r h' i8).andThen fun ctx hctx => onDevice_tensorGemm hctx s g

/-- Every call launches on the device of its work. -/
theorem onDevice_call (h : ctx.Ok) (c : Call) :
    OnDevice (launchDevice M current ctx c) (fun _ => True) (ctx.call M current c).outcome := by
  have hidle : ∀ status, OnDevice (ctx.device current) (fun _ => True) { ctx, status } :=
    fun status => .idle h status fun _ => trivial
  have hflat : ∀ (kernel : BlasKernel) (grid : DeviceProp → UInt32) (refused : Option GrxError)
      (has : Module → Bool) (r : LoadReplies),
      OnDevice (ctx.device current) (fun _ => True)
        ((ensureModule M current ctx r).andThen fun ctx =>
          if has ctx.loaded = false then { ctx, status := .notSupported }
          else launchFlat M ctx kernel grid refused) := by
    intro kernel grid refused has r
    refine (onDevice_ensureModule h rfl r).andThen fun ctx hon => ?_
    apply OnDevice.ite
    · exact .idle hon.ok _ fun _ => trivial
    · exact onDevice_launchFlat hon kernel grid refused
  cases c with
  | setStream stream => exact onDevice_setter rfl h
  | setTensorMapSlots slotA slotB =>
    show OnDevice _ _ (grxblasSetTensorMapSlots M ctx slotA slotB)
    unfold grxblasSetTensorMapSlots
    split
    · exact hidle _
    · exact .ite (hidle _) (onDevice_setter rfl h)
  | setCycleProbe slots capacity => exact .ite (hidle _) (onDevice_setter rfl h)
  | cycleSlotsNeeded m n => exact onDevice_setter rfl h
  | tensorTypes r h' i8 =>
    obtain ⟨hl, hok, -⟩ := onDevice_ensureHgemm (M := M) h rfl r h' i8
    exact ⟨hl, hok, fun _ => trivial⟩
  | saxpy a r refused =>
    show OnDevice _ _ (grxblasSaxpy M current ctx a r refused)
    unfold grxblasSaxpy
    iterate 5 apply OnDevice.ite (hidle _)
    exact hflat .saxpy (flatGrid a.n.toUInt32) refused (·.axpy) r
  | sscal a r refused =>
    show OnDevice _ _ (grxblasSscal M current ctx a r refused)
    unfold grxblasSscal
    iterate 5 apply OnDevice.ite (hidle _)
    exact hflat .sscal (flatGrid a.n.toUInt32) refused (·.scal) r
  | sgemv a r refused =>
    show OnDevice _ _ (grxblasSgemv M current ctx a r refused)
    unfold grxblasSgemv
    iterate 6 apply OnDevice.ite (hidle _)
    exact hflat .sgemv _ refused (·.gemv) r
  | sgemm s r force refused => exact onDevice_sgemm h rfl s r force refused
  | gemmEx s r h' i8 g => exact onDevice_gemmEx h s r h' i8 g

end OnDevice

/-! ## Runs -/

/-- The session after an action, if every call went by the device of its launch. -/
def Session.idealStep (M : Machine) (s : Session) : Action → Session
  | .call handle c =>
    { s with handles := Function.update s.handles handle (s.ideal M handle c).outcome.ctx }
  | a => s.step M a

/-- In every call of the run, device 0 agrees with the device of the launch in what the call reads. -/
def AllAgree (M : Machine) (as : List Action) : Prop :=
  Runs.Along (Session.step M) (fun s a => match a with
    | .call handle c => Agrees M s.current (s.handles handle) c
    | _ => True) {} as

theorem Session.ok_step {M : Machine} {s : Session} (h : ∀ handle, (s.handles handle).Ok) (a : Action) :
    ∀ handle, ((s.step M a).handles handle).Ok := by
  intro handle
  cases a with
  | setDevice device => exact h handle
  | create handle' =>
    show (Function.update s.handles handle' {} handle).Ok
    rw [Function.update_apply]
    split
    · exact nofun
    · exact h handle
  | call handle' c =>
    show (Function.update s.handles handle' (s.answer M handle' c).outcome.ctx handle).Ok
    rw [Function.update_apply]
    split
    · exact (onDevice_call (h handle') c).ok
    · exact h handle

/-- A run whose calls go by the device of their launch is the run where they do so by definition. -/
theorem after_ideal {M : Machine} {s : Session} {as : List Action}
    (h : Runs.Along (Session.step M) (fun s a => match a with
      | .call handle c => Agrees M s.current (s.handles handle) c
      | _ => True) s as) :
    Runs.after (Session.step M) s as = Runs.after (Session.idealStep M) s as := by
  induction as generalizing s with
  | nil => rfl
  | cons a as ih =>
    obtain ⟨ha, hrest⟩ := h
    have hsame : s.step M a = s.idealStep M a := by
      cases a with
      | call handle c =>
        have hcall : s.answer M handle c = s.ideal M handle c := call_as ha
        show { s with handles := _ } = { s with handles := _ }
        rw [hcall]
      | _ => rfl
    rw [Runs.after_cons, Runs.after_cons, ← hsame]
    exact ih hrest

/-- Every call of such a run goes by the device that its kernels are launched on, and the run is the one
where every call does. -/
theorem calls_from_launchDevice (M : Machine) (before : List Action) (handle : ℕ) (c : Call)
    (h : AllAgree M (before ++ [.call handle c])) :
    FromLaunchDevice M (Runs.after (Session.step M) {} before) handle c ∧
      Runs.after (Session.step M) {} before = Runs.after (Session.idealStep M) {} before := by
  obtain ⟨hbefore, hc, -⟩ := (Runs.along_append _ _ _).mp h
  have hok : ∀ handle, ((Runs.after (Session.step M) {} before).handles handle).Ok :=
    Runs.invariant_always (I := fun s : Session => ∀ handle, (s.handles handle).Ok)
      (fun _ a hs => Session.ok_step hs a) {} before fun _ => nofun
  exact ⟨⟨call_as hc, (onDevice_call (hok handle) c).launched⟩, after_ideal hbefore⟩

/-- Two devices, of which the second has warps twice as wide. -/
def twoWarps : Machine where
  props := fun i => if i = 1 then .ok { warpSize := 8 } else .ok {}
  slotCount := fun _ => .ok 16

/-- A call over ten elements. -/
def tenElements : Call :=
  .saxpy { n := 10, x := 0x1000, y := 0x2000 } { module := some { device := 0, shape := false } } none

theorem calls_from_launchDevice_first :
    let before := [Action.setDevice 0, .create 3, .call 3 tenElements]
    FromLaunchDevice twoWarps (Runs.after (Session.step twoWarps) {} before) 3 tenElements ∧
      Runs.after (Session.step twoWarps) {} before =
        Runs.after (Session.idealStep twoWarps) {} before :=
  calls_from_launchDevice twoWarps _ 3 tenElements
    ⟨trivial, trivial, fun _ => rfl, fun _ => rfl, trivial⟩

/-- With the second device current, a launch has blocks as wide as a warp of the first. -/
theorem calls_from_launchDevice_not :
    ¬ ∀ (M : Machine) (before : List Action) (handle : ℕ) (c : Call),
      FromLaunchDevice M (Runs.after (Session.step M) {} before) handle c := by
  intro h
  have hsame := (h twoWarps [.setDevice 1] 0 tenElements).same
  have hblocks : (launches (Session.answer twoWarps { current := 1 } 0
      tenElements).outcome.issued).map (·.block) ≠
    (launches (Session.ideal twoWarps { current := 1 } 0 tenElements).outcome.issued).map
      (·.block) := by
    decide
  exact hblocks (congrArg (fun a : Answer => (launches a.outcome.issued).map (·.block)) hsame)

end Grxcp.Blas
