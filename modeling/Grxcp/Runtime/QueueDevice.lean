import Grxcp.Lib.Runs
import Grxcp.Runtime.DeviceCalls
import Grxcp.Runtime.HeapCalls
import Grxcp.Runtime.StreamCalls

/-!
# The device of a queue and of what its commands name

Buffers and kernels come from tables that keep the device they belong to, so all that one command
names is of one device. But `resolve_stream` returns the queue of a stream without a look at that
device. Every command is of its queue's device, and a call with a stream of another device is refused,
in exactly the runs in which each call names a stream of the device of its operands
(`queue_devices`).
-/

namespace Grxcp.Runtime

/-- The range is of a buffer of the device. -/
def Operand.On (o : Operand) (d : ℕ) : Prop :=
  ∀ b, o.buffer = some b → b.device = d

/-- The buffers and the kernel that the work names are of the device. A register write names none. -/
def Work.On (d : ℕ) : Work → Prop
  | .copy dst src => dst.On d ∧ src.On d
  | .write dst => dst.On d
  | .read src => src.On d
  | .fill dst => dst.On d
  | .launch kernel => kernel.device = d
  | .program _ => True

/-- The driver makes the buffers that a call asks it for on the device. -/
def Driver.Homes (drv : Driver) (e : ℕ) : Prop :=
  ∀ n buffer base, drv n = .made buffer base → buffer.device = e

/-! ## Device memory -/

/-- Slabs and allocations have buffers of their own device. -/
structure Heap.Homed (s : Heap) : Prop where
  slab : ∀ (i : ℕ) (w : Slab) b, s.slabs[i]? = some w → w.buffer = some b → b.device = w.device
  key : ∀ e b a, s.live.Has (toLex (e, b)) a → a.device = e
  live : ∀ k a b, s.live.Has k a → a.buffer = some b → b.device = a.device

namespace Heap.Homed

variable {P : Platform} {s s' : Heap} {e : ℕ}

theorem empty : ({} : Heap).Homed where
  slab := by
    intro i w b h
    cases h
  key := by
    intro e b a h
    cases h
  live := by
    intro k a b h
    cases h

theorem push (h : s.Homed) {w : Slab} (hw : ∀ b, w.buffer = some b → b.device = w.device) :
    (s.push w).Homed where
  slab := by
    intro i w' b hi hb
    simp only [Heap.push, List.getElem?_append, List.getElem?_singleton] at hi
    split at hi
    · exact h.slab i w' b hi hb
    · split at hi
      · cases hi
        exact hw b hb
      · cases hi
  key := h.key
  live := h.live

theorem place (h : s.Homed) {a : Allocation} (ha : ∀ b, a.buffer = some b → b.device = a.device) :
    (s.place a).Homed where
  slab := h.slab
  key := by
    intro e b a' h'
    rcases OrdMap.has_insert.mp h' with ⟨hk, rfl⟩ | ⟨-, h'⟩
    · cases hk
      rfl
    · exact h.key e b a' h'
  live := by
    intro k a' b h' hb
    rcases OrdMap.has_insert.mp h' with ⟨-, rfl⟩ | ⟨-, h'⟩
    · exact ha b hb
    · exact h.live k a' b h' hb

/-- Only what the free list has changes, and the slab found is one of the device's. -/
theorem take (h : s.Homed) {bytes align base slab : ℕ}
    (ht : takeBestFit s e bytes align = some (base, slab, s')) :
    s'.Homed ∧ ∃ w, s'.slabs[slab]? = some w ∧ w.device = e := by
  unfold takeBestFit at ht
  split at ht
  · cases ht
  rename_i best size hf
  simp only [Option.some.injEq, Prod.mk.injEq] at ht
  obtain ⟨-, rfl, rfl⟩ := ht
  obtain ⟨-, htest, -⟩ := OrdMap.firstLeast_eq_some_iff.mp hf
  rw [Bool.and_eq_true, Heap.ownedBy, Option.any_eq_true] at htest
  obtain ⟨⟨w, hw, hdev⟩, -⟩ := htest
  exact ⟨⟨h.slab, h.key, h.live⟩, w, hw, of_decide_eq_true hdev⟩

/-- An allocation that is cut from a slab has the slab's buffer. -/
theorem carved (h : s.Homed) {slab : ℕ} (hw : ∃ w, s.slabs[slab]? = some w ∧ w.device = e)
    (base size : ℕ) (managed : Bool) :
    (s.place (s.carved e base size slab managed)).Homed := by
  obtain ⟨w, hw, rfl⟩ := hw
  refine h.place fun b hb => h.slab slab w b hw ?_
  rw [← hb, Heap.carved, List.getD_eq_getElem?_getD, hw]
  rfl

theorem allocateNpu (h : s.Homed) (align need : ℕ) (managed : Bool) :
    (allocateNpu P s e align need managed).1.Homed := by
  unfold Runtime.allocateNpu
  split
  · exact h
  rename_i s₁ hwin
  have h₁ : s₁.Homed := by
    unfold ensureNpuWindow at hwin
    simp only [] at hwin
    split at hwin
    · cases hwin
      exact h
    · split at hwin
      · cases hwin
      · cases hwin
        exact h.push fun b hb => by cases hb
  split
  · exact h₁
  · next base slab s₂ ht => exact (h₁.take ht).1.place fun b hb => by cases hb

theorem allocateDirect (h : s.Homed) (need : ℕ) (managed physical : Bool) {drv : Driver}
    (hd : drv.Homes e) : (allocateDirect s e need managed physical drv).1.Homed := by
  unfold Runtime.allocateDirect
  split
  · exact h
  · next buffer base hc =>
    refine h.place fun b hb => ?_
    cases hb
    exact hd need buffer base (DeviceHeap.Driver.create_ok hc)

theorem allocateSlab (h : s.Homed) (need : ℕ) (managed : Bool) {drv : Driver} (hd : drv.Homes e) :
    (allocateSlab P s e need managed drv).1.Homed := by
  unfold Runtime.allocateSlab
  simp only []
  split
  · next base slab s₁ ht =>
    obtain ⟨h₁, hw⟩ := h.take ht
    exact h₁.carved hw base need managed
  · split
    · exact h
    · next s₁ hadd =>
      have h₁ : s₁.Homed := by
        unfold addSlab at hadd
        split at hadd
        · cases hadd
        · next buffer base hc =>
          cases hadd
          refine h.push fun b hb => ?_
          cases hb
          exact hd _ buffer base (DeviceHeap.Driver.create_ok hc)
      split
      · next base slab s₂ ht =>
        obtain ⟨h₂, hw⟩ := h₁.take ht
        exact h₂.carved hw base need managed
      · exact h₁

theorem allocateDevice (h : s.Homed) (bytes : ℕ) (managed : Bool) (acquire : Option GrxError)
    {drv : Driver} (hd : drv.Homes e) :
    (allocateDevice P s e bytes managed acquire drv).1.Homed := by
  unfold Runtime.allocateDevice
  split
  · exact h
  · split
    · exact h
    · exact h.allocateNpu _ _ managed
    · split
      · exact h.allocateDirect _ managed false hd
      · exact h.allocateSlab _ managed hd

theorem allocateDevicePhysical (h : s.Homed) (bytes : ℕ) (acquire : Option GrxError)
    {drv : Driver} (hd : drv.Homes e) :
    (allocateDevicePhysical P s e bytes acquire drv).1.Homed := by
  unfold Runtime.allocateDevicePhysical
  split
  · exact h
  · split
    · exact h
    · exact h.allocateNpu _ _ false
    · exact h.allocateDirect _ false true hd

theorem free (h : s.Homed) (address : ℕ) : (grxFree P s e address).1.Homed := by
  have hdrop : ∀ k, ∀ quarantine free, Heap.Homed
      { s with live := s.live.erase k, quarantine, free } := by
    intro k quarantine free
    refine ⟨h.slab, fun e b a ha => ?_, fun k' a b ha => ?_⟩
    · exact h.key e b a (OrdMap.has_erase.mp ha).1
    · exact h.live k' a b (OrdMap.has_erase.mp ha).1
  unfold grxFree
  split
  · exact h
  · split
    · exact h
    · simp only []
      split
      · exact hdrop _ _ _
      · split
        · exact hdrop _ _ _
        · exact hdrop _ _ _

/-- A call of the allocator that is not a reset. -/
theorem call (h : s.Homed) {c : Call} (hreset : ∀ sync, c.op ≠ .reset sync)
    (hd : ∀ r, c.op.request = some r → r.driver.Homes c.device) : (s.call P c).1.Homed := by
  unfold Heap.call
  cases hop : c.op with
  | malloc r =>
    have hd := hd r (by rw [hop, Op.request])
    simp only [grxMalloc]
    split
    · exact h
    · split
      · exact h
      · exact h.allocateDevice _ _ _ hd
  | mallocPhysical r =>
    have hd := hd r (by rw [hop, Op.request])
    simp only [grxMallocPhysical]
    split
    · exact h
    · split
      · exact h
      · exact h.allocateDevicePhysical _ _ hd
  | mallocManaged r =>
    have hd := hd r (by rw [hop, Op.request])
    simp only [grxMallocManaged]
    split
    · exact h
    · split
      · exact h
      · split
        · exact h
        · exact h.allocateDevice _ _ _ hd
  | free address => exact h.free address
  | reset sync => exact absurd hop (hreset sync)

/-- What an address maps to is of the device it is looked up on. -/
theorem lookup (h : s.Homed) {address : ℕ} {m : Mapping}
    (hm : lookupDevicePointerOn s e address = some m) :
    m.device = e ∧ ∀ count, (m.operand address count).On e := by
  obtain ⟨a, ha, rfl⟩ := Option.map_eq_some_iff.mp hm
  unfold findLocked at ha
  split at ha
  · cases ha
  rename_i k a' hat
  split at ha
  · cases ha
  rename_i hk
  split at ha
  · cases ha
  · cases ha
    rw [ne_eq, not_not] at hk
    have hhas : s.live.Has (toLex (e, (ofLex k).2)) a := by
      rw [← hk]
      exact (OrdMap.atMost_eq_some_iff.mp hat).1
    have hdev := h.key e _ a hhas
    refine ⟨hdev, fun count b hb => ?_⟩
    exact (h.live _ a b hhas hb).trans hdev

end Heap.Homed

/-! ## Modules -/

/-- Modules and kernels are of the device they are kept for. -/
structure Modules.Homed (m : Modules) : Prop where
  resolved : ∀ stub reg d kernel, m.registry.Has stub reg → reg.resolved.Has d kernel →
    kernel.device = d
  loaded : ∀ fatbin modules d (module : Module), m.fatbins.Has fatbin modules →
    modules.Has d module → module.device = d
  module : ∀ h st, m.modules.Has h st → st.module.device = st.device
  function : ∀ h f, m.functions.Has h f → f.kernel.device = f.device

namespace Modules.Homed

variable {P : Platform} {m : Modules} {e : ℕ} {l : LoadReplies}

theorem empty : ({} : Modules).Homed where
  resolved := by
    intro stub reg d kernel h
    cases h
  loaded := by
    intro fatbin modules d module h
    cases h
  module := by
    intro h st hst
    cases hst
  function := by
    intro h f hf
    cases hf

theorem moduleOn (h : m.Homed) (fatbin : ℕ) :
    (m.moduleOn fatbin e l).1.Homed ∧
      ∀ module, (m.moduleOn fatbin e l).2 = some module → module.device = e := by
  unfold Modules.moduleOn
  split
  · exact ⟨h, fun _ hm => by cases hm⟩
  rename_i modules hfat
  have hfat := OrdMap.find?_eq_some_iff.mp hfat
  split
  · next module hmod =>
    refine ⟨h, fun _ hm => ?_⟩
    cases hm
    exact h.loaded fatbin modules e module hfat (OrdMap.find?_eq_some_iff.mp hmod)
  · split
    · exact ⟨h, fun _ hm => by cases hm⟩
    · refine ⟨⟨h.resolved, fun fatbin' modules' d module hm hd => ?_, h.module, h.function⟩,
        fun _ hm => by cases hm; rfl⟩
      rcases OrdMap.has_insert.mp hm with ⟨-, rfl⟩ | ⟨-, hm⟩
      · rcases OrdMap.has_insert.mp hd with ⟨rfl, rfl⟩ | ⟨-, hd⟩
        · rfl
        · exact h.loaded fatbin modules d module hfat hd
      · exact h.loaded fatbin' modules' d module hm hd

/-- A host stub's kernel is of the device it is launched on. -/
theorem lookupRegistration (h : m.Homed) (stub : ℕ) (acquire : Option GrxError) :
    (m.lookupRegistration stub e acquire l).1.Homed ∧
      ∀ kernel, (m.lookupRegistration stub e acquire l).2 = some kernel → kernel.device = e := by
  unfold Modules.lookupRegistration
  split
  · exact ⟨h, fun _ hk => by cases hk⟩
  rename_i reg hreg
  have hreg := OrdMap.find?_eq_some_iff.mp hreg
  split
  · next kernel hres =>
    refine ⟨h, fun _ hk => ?_⟩
    cases hk
    exact h.resolved stub reg e kernel hreg (OrdMap.find?_eq_some_iff.mp hres)
  · split
    · exact ⟨h, fun _ hk => by cases hk⟩
    · obtain ⟨h₁, hdev⟩ := h.moduleOn (e := e) (l := l) reg.fatbin
      have hregistry : (m.moduleOn reg.fatbin e l).1.registry = m.registry := by
        unfold Modules.moduleOn
        repeat' split
        all_goals rfl
      rcases hmod : m.moduleOn reg.fatbin e l with ⟨m₁, _ | module⟩ <;>
        rw [hmod] at h₁ hdev hregistry
      · exact ⟨h₁, fun _ hk => by cases hk⟩
      · simp only []
        split
        · exact ⟨h₁, fun _ hk => by cases hk⟩
        · have hmodule := hdev module rfl
          refine ⟨⟨fun stub' reg' d kernel hm hd => ?_, h₁.loaded, h₁.module, h₁.function⟩,
            fun _ hk => by cases hk; exact hmodule⟩
          rcases OrdMap.has_insert.mp hm with ⟨-, rfl⟩ | ⟨-, hm⟩
          · rcases OrdMap.has_insert.mp hd with ⟨rfl, rfl⟩ | ⟨-, hd⟩
            · exact hmodule
            · exact h.resolved stub reg d kernel hreg hd
          · exact h₁.resolved stub' reg' d kernel hm hd

theorem registerFatBinary (h : m.Homed) : m.registerFatBinary.1.Homed := by
  refine ⟨h.resolved, fun fatbin modules d module hm hd => ?_, h.module, h.function⟩
  rcases OrdMap.has_insert.mp hm with ⟨-, rfl⟩ | ⟨-, hm⟩
  · cases hd
  · exact h.loaded fatbin modules d module hm hd

theorem registerFunction (h : m.Homed) (fatbin stub : ℕ) :
    (m.registerFunction fatbin stub).Homed := by
  refine ⟨fun stub' reg d kernel hm hd => ?_, h.loaded, h.module, h.function⟩
  rcases OrdMap.has_insert.mp hm with ⟨-, rfl⟩ | ⟨-, hm⟩
  · cases hreg : m.registry.find? stub with
    | none =>
      rw [hreg] at hd
      cases hd
    | some reg =>
      rw [hreg] at hd
      exact h.resolved stub reg d kernel (OrdMap.find?_eq_some_iff.mp hreg) hd
  · exact h.resolved stub' reg d kernel hm hd

theorem moduleLoad (h : m.Homed) (acquire : Option GrxError) :
    (Modules.moduleLoad P m e acquire l).1.Homed := by
  unfold Modules.moduleLoad
  split
  · exact h
  · split
    · exact h
    · split
      · exact h
      · refine ⟨h.resolved, h.loaded, fun id st hst => ?_, h.function⟩
        rcases OrdMap.has_insert.mp hst with ⟨-, rfl⟩ | ⟨-, hst⟩
        · rfl
        · exact h.module id st hst

theorem moduleGetFunction (h : m.Homed) (module : ℕ) : (m.moduleGetFunction module l).1.Homed := by
  unfold Modules.moduleGetFunction
  split
  · exact h
  · next owner howner =>
    split
    · exact h
    · refine ⟨h.resolved, h.loaded, h.module, fun id f hf => ?_⟩
      rcases OrdMap.has_insert.mp hf with ⟨-, rfl⟩ | ⟨-, hf⟩
      · exact h.module module owner (OrdMap.find?_eq_some_iff.mp howner)
      · exact h.function id f hf

end Modules.Homed

/-! ## Plans -/

/-- What an allocating call is given. -/
def ApiCall.request : ApiCall → Option Request
  | .malloc r => some r
  | .mallocPhysical r => some r
  | .mallocManaged r => some r
  | _ => none

/-- The device of what a plan is for. -/
def Plan.device? : Plan → Option ℕ
  | .fail _ => none
  | .finish => none
  | .copied d => some d
  | .enqueue d _ => some d

namespace Context

variable {P : Platform} {x : Context} {c : ApiCall}

/-- The buffers and kernels of the tables are of the devices the tables keep them for. -/
structure Homed (x : Context) : Prop where
  heap : x.heap.Homed
  modules : x.modules.Homed

/-- The driver makes the buffers that the move asks it for on the current device. -/
def DriverHomes (x : Context) (m : Move) : Prop :=
  ∀ c r, m = .call c → c.request = some r → r.driver.Homes x.current

theorem Homed.classify (h : x.Homed) {address : ℕ} (hd : (x.classify address).isDevice = true) :
    (x.classify address).map.device = x.current ∧
      ∀ count, ((x.classify address).map.operand address count).On x.current := by
  unfold Context.classify at hd ⊢
  cases hm : x.lookupDevicePointer address with
  | some m => exact h.heap.lookup hm
  | none =>
    rw [hm] at hd
    simp only [] at hd
    split at hd
    · cases hd
    · cases hd

/-- What a copy comes to where it is to be enqueued: it has an end on a device, and fits in what is mapped
there. -/
theorem copyPlan_enqueue {dst src count : ℕ} {kind : MemcpyKind} {npu acquire : Option GrxError} {d : ℕ} {w : Work}
    (hp : copyPlan P x dst src count kind npu acquire = .enqueue d w) :
    ((x.classify dst).isDevice = true ∨ (x.classify src).isDevice = true) ∧
      d = copyDevice (x.classify dst) (x.classify src) ∧
      w = copyWork (x.classify dst) (x.classify src) dst src count ∧
      ((x.classify dst).isDevice = true → count ≤ (x.classify dst).map.size) ∧
      ((x.classify src).isDevice = true → count ≤ (x.classify src).map.size) := by
  have hskip : ∀ {p : Prop} [Decidable p] {plan other : Plan}, plan ≠ .enqueue d w →
      (if p then plan else other) = .enqueue d w → ¬p ∧ other = .enqueue d w := by
    intro p _ plan other hne hif
    by_cases h : p
    · rw [if_pos h] at hif
      exact absurd hif hne
    · rw [if_neg h] at hif
      exact ⟨h, hif⟩
  unfold copyPlan at hp
  dsimp only at hp
  obtain ⟨-, hp⟩ := hskip (fun h => by cases h) hp
  obtain ⟨-, hp⟩ := hskip (fun h => by cases h) hp
  obtain ⟨-, hp⟩ := hskip (fun h => by cases h) hp
  cases hkind : checkKind kind (x.classify dst).isDevice (x.classify src).isDevice with
  | some e =>
    rw [hkind] at hp
    cases hp
  | none =>
    rw [hkind] at hp
    obtain ⟨hhost, hp⟩ := hskip (fun h => by cases h) hp
    obtain ⟨hdst, hp⟩ := hskip (fun h => by cases h) hp
    obtain ⟨hsrc, hp⟩ := hskip (fun h => by cases h) hp
    by_cases hnpu : acquire.isNone ∧
        (P.device (copyDevice (x.classify dst) (x.classify src))).type = .npu
    · rw [if_pos hnpu] at hp
      cases npu with
      | some e => cases hp
      | none => cases hp
    rw [if_neg hnpu] at hp
    obtain ⟨rfl, rfl⟩ := Plan.enqueue.inj hp
    refine ⟨?_, rfl, rfl, fun h => not_lt.mp fun hlt => hdst ⟨h, hlt⟩,
      fun h => not_lt.mp fun hlt => hsrc ⟨h, hlt⟩⟩
    by_contra hnone
    push Not at hnone
    exact hhost ⟨by simpa using hnone.1, by simpa using hnone.2⟩

theorem Homed.copyPlan (h : x.Homed) {dst src count : ℕ} {kind : MemcpyKind} {npu acquire : Option GrxError}
    {d : ℕ} {w : Work} (hp : Context.copyPlan P x dst src count kind npu acquire = .enqueue d w) : w.On d := by
  obtain ⟨hsome, rfl, rfl, -⟩ := copyPlan_enqueue hp
  unfold copyDevice copyWork
  by_cases hdst : (x.classify dst).isDevice = true
  · obtain ⟨hd, hon⟩ := h.classify hdst
    rw [if_pos hdst, hd]
    by_cases hsrc : (x.classify src).isDevice = true
    · rw [if_pos ⟨hdst, hsrc⟩]
      exact ⟨hon count, (h.classify hsrc).2 count⟩
    · rw [if_neg fun hboth => hsrc hboth.2, if_pos hdst]
      exact hon count
  · obtain ⟨hd, hon⟩ := h.classify (hsome.resolve_left hdst)
    rw [if_neg hdst, if_neg fun hboth => hdst hboth.1, if_neg hdst, hd]
    exact hon count

theorem Homed.memsetPlan (h : x.Homed) {dst count d : ℕ} {w : Work} (hp : x.memsetPlan dst count = .enqueue d w) :
    w.On d := by
  unfold Context.memsetPlan at hp
  split_ifs at hp
  split at hp
  · cases hp
  next m hm =>
    split_ifs at hp
    obtain ⟨rfl, rfl⟩ := Plan.enqueue.inj hp
    obtain ⟨hdev, hon⟩ := h.heap.lookup hm
    rw [hdev]
    exact hon count

theorem launchPlan_enqueue {kernel : Kernel} {device d : ℕ} {acquire fits : Option GrxError} {w : Work}
    (hp : launchPlan kernel device acquire fits = .enqueue d w) : d = device ∧ w = .launch kernel := by
  unfold launchPlan at hp
  split at hp
  · cases hp
  · split at hp
    · cases hp
    · obtain ⟨rfl, rfl⟩ := Plan.enqueue.inj hp
      exact ⟨rfl, rfl⟩

/-- All that a plan names is of its device. -/
theorem Homed.plan (h : x.Homed) {stream : Option ℕ} {r : Replies} {d : ℕ} {w : Work}
    (hp : x.plan P c = some (.enqueue d w, stream, r)) : w.On d := by
  cases c with
  | memcpyAsync dst src count kind stream npu r =>
    exact h.copyPlan (Prod.mk.inj (Option.some.inj hp)).1
  | memsetAsync dst count stream r => exact h.memsetPlan (Prod.mk.inj (Option.some.inj hp)).1
  | launchKernel stub stream l r =>
    have hkernel := (h.modules.lookupRegistration (e := x.current) (l := l) stub r.acquire).2
    simp only [Context.plan] at hp
    split at hp
    · cases hp
    next kernel hk =>
      split at hp
      · cases hp
      · obtain ⟨rfl, rfl⟩ := launchPlan_enqueue (Prod.mk.inj (Option.some.inj hp)).1
        exact hkernel kernel hk
  | launchFunction func stream l r =>
    simp only [Context.plan] at hp
    split at hp
    · cases hp
    next f hf =>
      obtain ⟨rfl, rfl⟩ := launchPlan_enqueue (Prod.mk.inj (Option.some.inj hp)).1
      exact h.modules.function func f (OrdMap.find?_eq_some_iff.mp hf)
  | _ => cases hp

/-- A copy, a memset or a launch carries out its plan, with what it has looked up. -/
theorem call_plan {plan : Plan} {stream : Option ℕ} {r : Replies} (hp : x.plan P c = some (plan, stream, r)) :
    ∃ x' : Context, x'.streams = x.streams ∧ x.call P c = noHandle (carryOut P x' plan stream r) := by
  cases c with
  | memcpyAsync dst src count kind stream npu r =>
    obtain ⟨rfl, rfl, rfl⟩ : _ ∧ _ ∧ _ := by simpa [Context.plan] using hp
    exact ⟨x, rfl, rfl⟩
  | memsetAsync dst count stream r =>
    obtain ⟨rfl, rfl, rfl⟩ : _ ∧ _ ∧ _ := by simpa [Context.plan] using hp
    exact ⟨x, rfl, rfl⟩
  | launchKernel stub stream l r =>
    simp only [Context.plan] at hp
    rcases hk : x.modules.lookupRegistration stub x.current r.acquire l with ⟨modules, _ | kernel⟩
    · rw [hk] at hp
      cases hp
    · rw [hk] at hp
      dsimp only at hp
      cases hargs : l.args with
      | some e =>
        rw [hargs] at hp
        cases hp
      | none =>
        rw [hargs] at hp
        obtain ⟨rfl, rfl, rfl⟩ : _ ∧ _ ∧ _ := by simpa using hp
        refine ⟨{ x with modules }, rfl, ?_⟩
        simp only [call, grxLaunchKernel, hk, hargs]
  | launchFunction func stream l r =>
    simp only [Context.plan] at hp
    cases hf : x.modules.functions.find? func with
    | none =>
      rw [hf] at hp
      cases hp
    | some f =>
      rw [hf] at hp
      obtain ⟨rfl, rfl, rfl⟩ : _ ∧ _ ∧ _ := by simpa using hp
      refine ⟨x, rfl, ?_⟩
      simp only [call, grxLaunchFunction, hf]
  | _ => cases hp

/-! ## Runs -/

theorem carryOut_heap (P : Platform) (x : Context) (plan : Plan) (stream : Option ℕ) (r : Replies) :
    (carryOut P x plan stream r).1.heap = x.heap ∧ (carryOut P x plan stream r).1.modules = x.modules := by
  cases plan with
  | fail e => exact ⟨rfl, rfl⟩
  | finish => exact ⟨rfl, rfl⟩
  | copied d => exact ⟨rfl, rfl⟩
  | enqueue d w => exact ⟨rfl, rfl⟩

theorem Homed.carryOut (h : x.Homed) (plan : Plan) (stream : Option ℕ) (r : Replies) :
    (carryOut P x plan stream r).1.Homed := by
  obtain ⟨hheap, hmodules⟩ := carryOut_heap P x plan stream r
  exact ⟨hheap ▸ h.heap, hmodules ▸ h.modules⟩

theorem Homed.allocator (h : x.Homed) {op : Op} (hreset : ∀ sync, op ≠ .reset sync)
    (hd : ∀ r, op.request = some r → r.driver.Homes x.current) : (allocator P x op).1.Homed :=
  ⟨h.heap.call (c := ⟨x.current, op⟩) hreset hd, h.modules⟩

theorem Homed.call (h : x.Homed) (hd : ∀ r, c.request = some r → r.driver.Homes x.current) :
    (x.call P c).1.Homed := by
  cases c with
  | malloc r => exact h.allocator (fun _ h => by cases h) hd
  | mallocPhysical r => exact h.allocator (fun _ h => by cases h) hd
  | mallocManaged r => exact h.allocator (fun _ h => by cases h) hd
  | free address => exact h.allocator (fun _ h => by cases h) (fun _ h => by cases h)
  | setDevice device acquire =>
    cases acquire with
    | some e => exact h
    | none => exact ⟨h.heap, h.modules⟩
  | mallocHost out size acquire mapped =>
    have hkeep : (grxMallocHost P x out size acquire mapped).1.heap = x.heap ∧
        (grxMallocHost P x out size acquire mapped).1.modules = x.modules := by
      unfold grxMallocHost
      repeat' split
      all_goals exact ⟨rfl, rfl⟩
    exact ⟨hkeep.1 ▸ h.heap, hkeep.2 ▸ h.modules⟩
  | freeHost address =>
    have hkeep : (x.grxFreeHost address).1.heap = x.heap ∧ (x.grxFreeHost address).1.modules = x.modules := by
      unfold grxFreeHost
      repeat' split
      all_goals exact ⟨rfl, rfl⟩
    exact ⟨hkeep.1 ▸ h.heap, hkeep.2 ▸ h.modules⟩
  | registerFatBinary => exact ⟨h.heap, h.modules.registerFatBinary⟩
  | registerFunction fatbin stub => exact ⟨h.heap, h.modules.registerFunction fatbin stub⟩
  | moduleLoad acquire l => exact ⟨h.heap, h.modules.moduleLoad acquire⟩
  | moduleGetFunction module l => exact ⟨h.heap, h.modules.moduleGetFunction module⟩
  | streamCreate out flags r => exact ⟨h.heap, h.modules⟩
  | eventCreate out r => exact ⟨h.heap, h.modules⟩
  | eventRecord event stream r => exact ⟨h.heap, h.modules⟩
  | streamWaitEvent stream event r => exact ⟨h.heap, h.modules⟩
  | memcpyAsync dst src count kind stream npu r => exact h.carryOut _ stream r
  | memsetAsync dst count stream r => exact h.carryOut _ stream r
  | launchKernel stub stream l r =>
    obtain ⟨hmodules, -⟩ := h.modules.lookupRegistration (e := x.current) (l := l) stub r.acquire
    simp only [Context.call, grxLaunchKernel]
    rcases hk : x.modules.lookupRegistration stub x.current r.acquire l with ⟨modules, _ | kernel⟩
    · rw [hk] at hmodules
      exact ⟨h.heap, hmodules⟩
    · rw [hk] at hmodules
      have hx : ({ x with modules } : Context).Homed := ⟨h.heap, hmodules⟩
      cases hargs : l.args with
      | some e => exact hx
      | none => exact hx.carryOut _ stream r
  | launchFunction func stream l r =>
    simp only [Context.call, grxLaunchFunction]
    cases hf : x.modules.functions.find? func with
    | none => exact h
    | some f => exact h.carryOut _ stream r

theorem Homed.step (h : x.Homed) {m : Move} (hd : x.DriverHomes m) : (x.step P m).Homed := by
  cases m with
  | complete i => exact ⟨h.heap, h.modules⟩
  | call c => exact h.call fun r hr => hd c r rfl hr

end Context

/-- All that the commands of the driver's queues name is of their queue's device. -/
def Streams.Matched (s : Streams) : Prop :=
  ∀ c ∈ s.board.log, ∀ w, c.body = .work w → w.On c.queue.device

/-- A stream is the null stream, or one of the device. -/
def Streams.OfDevice (s : Streams) (stream : Option ℕ) (device : ℕ) : Prop :=
  ∀ id t, stream = some id → s.state? (.user id) = some t → t.device = device

namespace Context

variable {P : Platform} {x : Context}

/-- A call whose stream is of another device than what its plan is for is refused, and enqueues nothing. -/
def RefusesForeign (P : Platform) (x : Context) (m : Move) : Prop :=
  ∀ c plan stream r d, m = .call c → x.plan P c = some (plan, stream, r) → plan.device? = some d →
    ¬x.streams.OfDevice stream d →
      (∃ e, (x.call P c).2 = .error e) ∧ (x.call P c).1.streams.board.log = x.streams.board.log

/-- A copy, a memset or a launch names a stream of the device that it is for, unless the driver refuses its
command. A copy that the runtime makes itself has no command. -/
def MindsStream (P : Platform) (x : Context) (m : Move) : Prop :=
  ∀ c plan stream r d, m = .call c → x.plan P c = some (plan, stream, r) → plan.device? = some d →
    r.enqueue = none ∨ plan = .copied d → x.streams.OfDevice stream d

theorem not_ofDevice {s : Streams} {stream : Option ℕ} {device : ℕ} (h : ¬s.OfDevice stream device) :
    ∃ id t, stream = some id ∧ s.state? (.user id) = some t ∧ t.device ≠ device := by
  unfold Streams.OfDevice at h
  push Not at h
  exact h

/-- On a stream that is there, an enqueue fails only where the driver refuses it. -/
theorem submit_user {s : Streams} {id : ℕ} {t : StreamState} (ht : s.state? (.user id) = some t) (device : ℕ)
    (body : Queues.Body ℕ Work) (r : Replies) :
    (∀ e, r.enqueue = some e →
        (Streams.submit P s (some id) device body r fun s _ => s) = (s, .error (mapResult e))) ∧
      (r.enqueue = none → (Streams.submit P s (some id) device body r fun s _ => s).2 = .ok ()) := by
  have hfind : s.streams.find? id = some t := ht
  constructor
  · intro e he
    simp only [Streams.submit, Streams.resolveStream, Streams.stateOf, hfind, he]
  · intro he
    simp only [Streams.submit, Streams.resolveStream, Streams.stateOf, hfind, he]

/-- Calls with a stream of another device are refused where there are none but those the driver refuses. -/
theorem refusesForeign_iff (m : Move) : x.RefusesForeign P m ↔ x.MindsStream P m := by
  constructor
  · intro hrefuses c plan stream r d hm hplan hd htaken
    by_contra hforeign
    obtain ⟨⟨e, he⟩, -⟩ := hrefuses c plan stream r d hm hplan hd hforeign
    obtain ⟨id, t, rfl, ht, -⟩ := not_ofDevice hforeign
    obtain ⟨x', hx', hcall⟩ := call_plan hplan
    rw [hcall] at he
    cases plan with
    | fail e => cases hd
    | finish => cases hd
    | copied device => cases he
    | enqueue device work =>
      have htaken : r.enqueue = none := htaken.resolve_right (fun h => by cases h)
      have hok := (submit_user (P := P) (s := x'.streams) (hx' ▸ ht) device (.work work) r).2 htaken
      simp only [noHandle, carryOut, hok] at he
      cases he
  · intro hminds c plan stream r d hm hplan hd hforeign
    have hnone : r.enqueue ≠ none ∧ plan ≠ .copied d := by
      constructor
      · intro htaken
        exact hforeign (hminds c plan stream r d hm hplan hd (.inl htaken))
      · intro hcopied
        exact hforeign (hminds c plan stream r d hm hplan hd (.inr hcopied))
    obtain ⟨id, t, rfl, ht, -⟩ := not_ofDevice hforeign
    obtain ⟨x', hx', hcall⟩ := call_plan hplan
    obtain ⟨e, he⟩ := Option.ne_none_iff_exists'.mp hnone.1
    rw [hcall]
    cases plan with
    | fail e => cases hd
    | finish => cases hd
    | copied device => exact absurd (congrArg Plan.copied (Option.some.inj hd)) hnone.2
    | enqueue device work =>
      have hsubmit := (submit_user (P := P) ht device (.work work) r).1 e he
      simp only [noHandle, carryOut, hx', hsubmit]
      exact ⟨⟨_, rfl⟩, trivial⟩

/-- What a call has enqueued is work of its plan, or names no memory. -/
theorem asks_work {c : ApiCall} {a : Ask} {w : Work} (ha : x.asks P c = some a) (hw : a.body = .work w) :
    x.plan P c = some (.enqueue a.device w, a.stream, a.replies) := by
  have hplan : ∀ p : Option (Plan × Option ℕ × Replies), p.bind (fun p => p.1.ask p.2.1 p.2.2) = some a →
      p = some (.enqueue a.device w, a.stream, a.replies) := by
    intro p hp
    obtain ⟨⟨plan, stream, r⟩, rfl, hp⟩ := Option.bind_eq_some_iff.mp hp
    cases plan with
    | fail e => cases hp
    | finish => cases hp
    | copied device => cases hp
    | enqueue device work =>
      have heq : a = _ := (Option.some.inj hp).symm
      subst heq
      rw [Queues.Body.work.inj hw]
  cases c with
  | eventRecord event stream replies =>
    obtain ⟨ev, -, rfl⟩ := Option.map_eq_some_iff.mp ha
    cases hw
  | streamWaitEvent stream event replies =>
    unfold asks at ha
    dsimp only at ha
    split at ha
    · cases ha
    next ev hev =>
      by_cases hrec : ev.recorded = false
      · rw [if_pos hrec] at ha
        cases ha
      · rw [if_neg hrec] at ha
        rw [← Option.some.inj ha] at hw
        cases hw
  | _ => exact hplan _ ha

/-- A move that minds its stream keeps the commands and their queues together. -/
theorem matched_step (hx : x.Homed) (hwired : x.streams.Wired) {m : Move} (hminds : x.MindsStream P m)
    (hmatched : x.streams.Matched) : (x.step P m).streams.Matched := by
  have hsame : ∀ {s : Streams}, s.board.log = x.streams.board.log → s.Matched := by
    intro s hlog
    unfold Streams.Matched
    rwa [hlog]
  cases m with
  | complete i => exact hsame Queues.Board.complete_log
  | call c =>
    rcases call_cases P x c with ⟨-, hs⟩ | ⟨t, -, hj⟩ | ⟨-, hev⟩ | ⟨a, ha, hquiet, hs⟩
    · exact hsame (congrArg (fun s : Streams => s.board.log) hs)
    · exact hsame (congrArg (fun b : Board => b.log) hj.board)
    · exact hsame (congrArg (fun b : Board => b.log) hev.board)
    · rw [step, hs]
      have hresolved := Streams.resolve_board P x.streams a.stream a.device a.replies
      unfold Ask.submit
      rcases Streams.submit_cases P x.streams a.stream a.device a.body a.replies a.note with
        ⟨e, heq, -⟩ | ⟨t, ht, hnone, heq⟩
      · rw [heq]
        exact hsame (congrArg (fun b : Board => b.log) hresolved)
      · rw [heq]
        have hissues := Streams.issues_issued ht a.body hquiet
        intro cmd hcmd w hw
        rw [hissues.board, Queues.Board.issue_log, hresolved, List.mem_append, List.mem_singleton] at hcmd
        rcases hcmd with hcmd | rfl
        · exact hmatched cmd hcmd w hw
        · have hplan := asks_work ha hw
          have hon := hx.plan hplan
          -- the queue is one of the device that the plan is for
          have hdevice : t.device = a.device := by
            have hstate := hissues.old
            have hw := hwired.resolve P a.stream a.device a.replies
            rcases hstream : a.stream with _ | id
            · rw [hstream] at hstate hw
              exact (hw.null a.device t hstate).1
            · have hof := hminds c _ _ _ _ rfl hplan rfl (.inl hnone)
              apply hof id t hstream
              rcases Streams.resolve_cases P x.streams a.stream a.device a.replies with hres | ⟨hnull, -⟩
              · rw [hres, hstream] at hstate
                exact hstate
              · rw [hstream] at hnull
                cases hnull
          have hqueue := (hwired.resolve P a.stream a.device a.replies).device _ _ hissues.old
          show w.On t.queue.device
          rw [hqueue, hdevice]
          exact hon

end Context

/-- Every command is of its queue's device, and every call with a stream of another device is refused, in exactly
the runs in which each call names a stream of the device of its operands. -/
theorem queue_devices (P : Platform) (ms : List Move)
    (hdriver : Runs.Along (Context.step P) Context.DriverHomes {} ms) :
    (Runs.after (Context.step P) {} ms).streams.Matched ∧
        Runs.Along (Context.step P) (Context.RefusesForeign P) {} ms ↔
      Runs.Along (Context.step P) (Context.MindsStream P) {} ms := by
  constructor
  · rintro ⟨-, hrefuses⟩
    exact hrefuses.mono fun x m => (Context.refusesForeign_iff m).mp
  · intro hminds
    refine ⟨?_, hminds.mono fun x m => (Context.refusesForeign_iff m).mpr⟩
    have hstep : ∀ (x : Context) (m : Move), (x.Homed ∧ x.streams.Wired ∧ x.streams.Matched) →
        (x.DriverHomes m ∧ x.MindsStream P m) →
          ((x.step P m).Homed ∧ (x.step P m).streams.Wired ∧ (x.step P m).streams.Matched) := by
      rintro x m ⟨hhomed, hwired, hmatched⟩ ⟨hdriver, hminds⟩
      exact ⟨hhomed.step hdriver, Context.wired_step hwired m, Context.matched_step hhomed hwired hminds hmatched⟩
    refine (Runs.invariant hstep (hdriver.and hminds) ⟨⟨.empty, .empty⟩, .empty, ?_⟩).2.2
    intro c hc
    exact absurd hc List.not_mem_nil

theorem bump_homes (e id next : ℕ) : (Driver.bump ⟨e, id⟩ next).Homes e := by
  intro n buffer base hmade
  unfold Driver.bump at hmade
  split at hmade
  · rw [← (Reply.made.inj hmade).1]
  · cases hmade

/-- Memory of device 1, and a memset of it. -/
def mallocOne : ApiCall :=
  .malloc { size := 256, driver := Driver.bump ⟨1, 4096⟩ 4096 }

theorem mallocOne_homes {x : Context} (hx : x.current = 1) : x.DriverHomes (.call mallocOne) := by
  rintro c r ⟨⟩ hr
  rw [← Option.some.inj hr, hx]
  exact bump_homes 1 4096 4096

theorem driverHomes_of_request {x : Context} {m : Move} (h : ∀ c, m = .call c → c.request = none) :
    x.DriverHomes m := by
  intro c r hm hr
  rw [h c hm] at hr
  cases hr

/-- A memset of memory of device 1 on a stream of that device. -/
def memsetOwn : List Move :=
  [.call (.setDevice 1 none), .call (.streamCreate true 0 {}), .call mallocOne,
    .call (.memsetAsync 4096 16 (some 1) {})]

/-- The same memset on a stream of device 0. -/
def memsetForeign : List Move :=
  [.call (.streamCreate true 0 {}), .call (.setDevice 1 none), .call mallocOne,
    .call (.memsetAsync 4096 16 (some 1) {})]

theorem memsetOwn_homes : Runs.Along (Context.step plain) Context.DriverHomes {} memsetOwn := by
  refine ⟨driverHomes_of_request ?_, driverHomes_of_request ?_, mallocOne_homes rfl, driverHomes_of_request ?_,
    trivial⟩
  · rintro c ⟨⟩
    rfl
  · rintro c ⟨⟩
    rfl
  · rintro c ⟨⟩
    rfl

theorem memsetForeign_homes : Runs.Along (Context.step plain) Context.DriverHomes {} memsetForeign := by
  refine ⟨driverHomes_of_request ?_, driverHomes_of_request ?_, mallocOne_homes rfl, driverHomes_of_request ?_,
    trivial⟩
  · rintro c ⟨⟩
    rfl
  · rintro c ⟨⟩
    rfl
  · rintro c ⟨⟩
    rfl

theorem memsetOwn_minds : Runs.Along (Context.step plain) (Context.MindsStream plain) {} memsetOwn := by
  refine ⟨?_, ?_, ?_, ?_, trivial⟩
  · rintro c plan stream r d ⟨⟩ hplan
    cases hplan
  · rintro c plan stream r d ⟨⟩ hplan
    cases hplan
  · rintro c plan stream r d ⟨⟩ hplan
    cases hplan
  · rintro c plan stream r d ⟨⟩ hplan hd -
    have hfill : Context.plan plain (Runs.after (Context.step plain) {} (memsetOwn.take 3))
        (.memsetAsync 4096 16 (some 1) {}) =
          some (.enqueue 1 (.fill ⟨some ⟨1, 4096⟩, 0, 4096, 16⟩), some 1, {}) := by decide +kernel
    have hstate : (Runs.after (Context.step plain) {} (memsetOwn.take 3)).streams.state? (.user 1) =
        some { queue := ⟨1, 1⟩, device := 1 } := by decide +kernel
    have heq := Option.some.inj (hplan.symm.trans hfill)
    obtain rfl : plan = _ := congrArg (·.1) heq
    obtain rfl : stream = _ := congrArg (·.2.1) heq
    intro id t hid ht
    obtain rfl := Option.some.inj hid
    rw [← Option.some.inj (hstate.symm.trans ht), ← Option.some.inj hd]

theorem queue_devices_own : (Runs.after (Context.step plain) {} memsetOwn).streams.Matched ∧
    Runs.Along (Context.step plain) (Context.RefusesForeign plain) {} memsetOwn :=
  (queue_devices plain memsetOwn memsetOwn_homes).mpr memsetOwn_minds

/-- The queue of a stream of device 0 gets a command that names memory of device 1. -/
theorem queue_devices_not : ¬∀ (P : Platform) (ms : List Move),
    Runs.Along (Context.step P) Context.DriverHomes {} ms →
      (Runs.after (Context.step P) {} ms).streams.Matched ∧
        Runs.Along (Context.step P) (Context.RefusesForeign P) {} ms := by
  intro h
  obtain ⟨hmatched, -⟩ := h plain memsetForeign memsetForeign_homes
  have hlog : (Runs.after (Context.step plain) {} memsetForeign).streams.board.log =
      [⟨⟨0, 1⟩, [], .work (.fill ⟨some ⟨1, 4096⟩, 0, 4096, 16⟩)⟩] := by decide +kernel
  have hfill := hmatched ⟨⟨0, 1⟩, [], .work (.fill ⟨some ⟨1, 4096⟩, 0, 4096, 16⟩)⟩
    (hlog ▸ List.mem_singleton_self _) _ rfl
  exact absurd (hfill ⟨1, 4096⟩ rfl) (by decide)

end Grxcp.Runtime
