import Grxcp.Lib.Runs
import Grxcp.Pta.Driver

/-!
# The memory a queue works on

The driver gives the module a ring and, with every doorbell, a staging buffer, and gives the memory
back to the platform. An observer of the bus knows when the module may still be using it: the ring
until `PTQ_STATUS.ENABLED` has read zero after `PTQ_CTRL` was written zero, and a buffer from the
doorbell on until its slot's record has been seen or the queue has stopped. The module behind the bus
answers as it likes.
-/

namespace Grxcp.PtaChiplet

open Runs PtaTwin
open PtaModule (ptqId ptqCaps ptqCtrl ptqStatus ptqBaseLo ptqBaseHi ptqSize ptqTail ptqHead dStatus)

/-! ## The observer -/

/-- What the module was told about running, and what it said. -/
inductive Phase
  /-- `ENABLED` has read zero since `PTQ_CTRL` was written zero, or the queue was never enabled. -/
  | off
  | running
  /-- `PTQ_CTRL` was written zero, and `ENABLED` has not read zero since. -/
  | stopping
deriving DecidableEq, Repr

/-- What an observer of the bus knows: the registers as they were last written, the memory that is
held and the part of it the module was last told of, whether the record of the slot published last
is still to be seen, and whether memory the module may use was released or written over. -/
structure Watch where
  phase : Phase := .off
  baseLo : U32 := 0
  baseHi : U32 := 0
  sizeLog2 : U32 := 0
  tail : U32 := 0
  live : List Dma := []
  shown : List Dma := []
  slotOpen : Bool := false
  broken : Bool := false
deriving DecidableEq

/-- The ring's address, where the module looks for it. -/
def Watch.base (w : Watch) : U64 :=
  (w.baseHi.zeroExtend 64 <<< 32) ||| w.baseLo.zeroExtend 64

/-- The address of the status word of the slot published last. -/
def Watch.record (w : Watch) : U64 :=
  w.base + ((w.tail - 1) &&& (((1 : U32) <<< w.sizeLog2.toNat) - 1)).zeroExtend 64 * slotBytes +
    BitVec.ofNat 64 dStatus

/-- The module may still read or write this memory. -/
def Watch.mayUse (w : Watch) (buf : Dma) : Bool :=
  w.phase != .off && (buf.addr == w.base || w.slotOpen && w.shown.contains buf)

/-- A register was read. -/
def Watch.readReg (w : Watch) (off v : U32) : Watch :=
  if off = ptqStatus ∧ v &&& ptqEnabled = 0 ∧ w.phase = .stopping then { w with phase := .off }
  else w

/-- A register was written. Enabling starts the ring empty, and a doorbell opens a slot. -/
def Watch.writeReg (w : Watch) (off v : U32) : Watch :=
  if off = ptqCtrl then
    if v &&& ptqEnable ≠ 0 then { w with phase := .running, shown := w.live, slotOpen := false }
    else { w with phase := if w.phase = .off then .off else .stopping }
  else if off = ptqBaseLo then { w with baseLo := v }
  else if off = ptqBaseHi then { w with baseHi := v }
  else if off = ptqSize then { w with sizeLog2 := v }
  else if off = ptqTail then
    if w.phase = .running then { w with tail := v, shown := w.live, slotOpen := true }
    else { w with tail := v }
  else w

/-- A word of memory was looked at. -/
def Watch.look (w : Watch) (p : U64) (v : U32) : Watch :=
  if v ≠ 0 ∧ w.live.any fun buf => buf.addr + (p - buf.cpu) == w.record then
    { w with slotOpen := false }
  else w

/-- A byte of memory was written. -/
def Watch.store (w : Watch) (p : U64) : Watch :=
  { w with broken := w.broken ||
      (w.phase != .off && w.slotOpen && w.shown.any fun buf => p - buf.cpu < buf.bytes) }

/-- Memory was given back. -/
def Watch.release (w : Watch) (buf : Dma) : Watch :=
  { w with broken := w.broken || w.mayUse buf, live := w.live.filter (·.addr != buf.addr) }

/-! ## The bus -/

/-- A bus with any module and any platform behind it: what the registers will read, what the driver
will find in memory, and what the allocator will answer. -/
structure Bus where
  regs : ℕ → U32
  words : ℕ → U32
  grants : ℕ → Bool × Dma
  taken : ℕ → Bool := fun _ => true
  ends : CmdStatus := .done
  watch : Watch := {}

/-- The window's read hook. -/
def Bus.read32 (b : Bus) (off : U32) : Bus × U32 :=
  ({ b with regs := fun n => b.regs (n + 1), watch := b.watch.readReg off (b.regs 0) }, b.regs 0)

/-- The window's write hook. -/
def Bus.write32 (b : Bus) (off v : U32) : Bus :=
  { b with watch := b.watch.writeReg off v }

/-- The link's hook. -/
def Bus.submit {P : Type} (b : Bus) (_ : Cmd P) : Bus × Bool :=
  ({ b with taken := fun n => b.taken (n + 1) }, b.taken 0)

/-- `dma_alloc`: any answer, but memory that is held is not handed out again. -/
def Bus.alloc (b : Bus) (_ : U64) : Bus × Bool × Dma :=
  let (ok, buf) := b.grants 0
  let b := { b with grants := fun n => b.grants (n + 1) }
  if b.watch.live.any (·.addr == buf.addr) then (b, false, {})
  else ({ b with watch := { b.watch with live := buf :: b.watch.live } }, ok, buf)

/-- `dma_free`. -/
def Bus.free (b : Bus) (buf : Dma) : Bus :=
  { b with watch := b.watch.release buf }

/-- The driver's own memory, on the bus. -/
def busHost {P : Type} : Host Bus P where
  status b _ := b.ends
  setStatus b _ _ := b
  setC b _ _ := b
  ld32 b p := ({ b with words := fun n => b.words (n + 1), watch := b.watch.look p (b.words 0) },
    b.words 0)
  store b p _ := { b with watch := b.watch.store p }

/-! ## The calls -/

/-- A call of the driver's. An allocator or a release function that is not given is a null
pointer. -/
inductive QueueCall (P : Type)
  | attach (alloc free : Bool) (ringLog2 : ℤ)
  | detach
  | teardown
  | gemm (status : P) (c : Call P)

variable {P : Type}

/-- The platform's allocator, if the caller gives one. -/
def givenAlloc (given : Bool) : Option (Bus → U64 → Bus × Bool × Dma) :=
  if given then some Bus.alloc else none

/-- The platform's release function, if the caller gives one. -/
def givenFree (given : Bool) : Option (Bus → Dma → Bus) :=
  if given then some Bus.free else none

/-- One call. -/
def queueStep (d : Driver Bus P) : QueueCall P → Driver Bus P
  | .attach alloc free ringLog2 =>
      (d.attachQueue busHost (givenAlloc alloc) (givenFree free) ringLog2).1
  | .detach => d.detachQueue
  | .teardown => (d.teardown busHost).1
  | .gemm status c => (d.gemm busHost status c).1

/-- A driver on the bus, before its first call, and an observer who has seen nothing yet. -/
def busDriver (present link : Bool) (b : Bus) : Driver Bus P :=
  { dev :=
      { present
        read32 := some Bus.read32
        write32 := some Bus.write32
        submit := if link then some Bus.submit else none }
    env := { b with watch := {} } }

/-- The queue's registers will read as a queue's that took the ring. -/
def Bus.TakesRing (b : Bus) (ring : Dma) (ringLog2 : U32) : Prop :=
  b.regs 0 &&& ptqEnabled ≠ 0 ∧ b.regs 1 = ring.addr.truncate 32 ∧
    b.regs 2 = (ring.addr >>> 32).truncate 32 ∧ b.regs 3 = ringLog2

/-- A call that does not release a ring the queue was given: no `detach` while a queue is attached,
and no `attach` then, nor one whose ring the queue does not take. -/
def KeepsRing (d : Driver Bus P) : QueueCall P → Prop
  | .attach alloc free ringLog2 =>
      d.dev.queue = false ∧
        ∀ ring, (d.ringFor (givenAlloc alloc) (givenFree free) ringLog2).2 = some ring →
          (d.ringFor (givenAlloc alloc) (givenFree free) ringLog2).1.env.TakesRing ring
            (BitVec.ofInt 32 ringLog2)
  | .detach => d.dev.queue = false
  | _ => True

/-! ## What the bus sees of a step -/

/-- What the driver keeps of its queue, and what the observer knows, is the same. -/
structure Apart (d d' : Driver Bus P) : Prop where
  read32 : d'.dev.read32 = d.dev.read32
  write32 : d'.dev.write32 = d.dev.write32
  submit : d'.dev.submit = d.dev.submit
  queue : d'.dev.queue = d.dev.queue
  queueDead : d'.dev.queueDead = d.dev.queueDead
  ringLog2 : d'.dev.ringLog2 = d.dev.ringLog2
  ring : d'.dev.ring = d.dev.ring
  stage : d'.dev.stage = d.dev.stage
  dmaAlloc : d'.dev.dmaAlloc = d.dev.dmaAlloc
  dmaFree : d'.dev.dmaFree = d.dev.dmaFree
  watch : d'.env.watch = d.env.watch

theorem Apart.refl (d : Driver Bus P) : Apart d d :=
  ⟨rfl, rfl, rfl, rfl, rfl, rfl, rfl, rfl, rfl, rfl, rfl⟩

theorem Apart.trans {d d' d'' : Driver Bus P} (h : Apart d d') (h' : Apart d' d'') :
    Apart d d'' where
  read32 := h'.read32.trans h.read32
  write32 := h'.write32.trans h.write32
  submit := h'.submit.trans h.submit
  queue := h'.queue.trans h.queue
  queueDead := h'.queueDead.trans h.queueDead
  ringLog2 := h'.ringLog2.trans h.ringLog2
  ring := h'.ring.trans h.ring
  stage := h'.stage.trans h.stage
  dmaAlloc := h'.dmaAlloc.trans h.dmaAlloc
  dmaFree := h'.dmaFree.trans h.dmaFree
  watch := h'.watch.trans h.watch

/-- The observer learns nothing and the device is untouched. -/
theorem Apart.of_watch {d d' : Driver Bus P} (hdev : d'.dev = d.dev)
    (hwatch : d'.env.watch = d.env.watch) : Apart d d' := by
  constructor <;> first | exact hwatch | rw [hdev]

theorem Apart.fail (d : Driver Bus P) (error : Error) : Apart d (d.fail error).1 :=
  ⟨rfl, rfl, rfl, rfl, rfl, rfl, rfl, rfl, rfl, rfl, rfl⟩

variable {d : Driver Bus P}

theorem rd_bus (hr : d.dev.read32 = some Bus.read32) (off : U32) :
    d.rd off = ({ d with env := (d.env.read32 off).1 }, d.env.regs 0) := by
  unfold Driver.rd
  rw [hr]
  rfl

theorem wr_bus (hw : d.dev.write32 = some Bus.write32) (off v : U32) :
    d.wr off v = { d with env := d.env.write32 off v } := by
  unfold Driver.wr
  rw [hw]

theorem wr_dev (d : Driver Bus P) (off v : U32) : (d.wr off v).dev = d.dev := by
  unfold Driver.wr
  split <;> rfl

theorem wr_watch (hw : d.dev.write32 = some Bus.write32) (off v : U32) :
    (d.wr off v).env.watch = d.env.watch.writeReg off v := by
  rw [wr_bus hw]
  rfl

theorem readReg_of_phase {w : Watch} (h : w.phase ≠ .stopping) (off v : U32) :
    w.readReg off v = w := by
  unfold Watch.readReg
  rw [if_neg fun hc => h hc.2.2]

/-- A read tells nothing unless the queue is stopping. -/
theorem rd_apart (hr : d.dev.read32 = some Bus.read32) (h : d.env.watch.phase ≠ .stopping)
    (off : U32) : Apart d (d.rd off).1 := by
  rw [rd_bus hr]
  exact .of_watch rfl (readReg_of_phase h off _)

/-- A store is in order while no slot is open. -/
theorem store_closed {w : Watch} (h : w.phase = .off ∨ w.slotOpen = false) (p : U64) :
    w.store p = w := by
  have hb : (w.phase != .off && w.slotOpen && w.shown.any fun buf => p - buf.cpu < buf.bytes) =
      false := by
    rcases h with h | h <;> simp [h]
  unfold Watch.store
  rw [hb, Bool.or_false]

theorem storeBytes_apart (bs : List (BitVec 8)) :
    ∀ (p : U64) (b : Bus), (b.watch.phase = .off ∨ b.watch.slotOpen = false) →
      (storeBytes (P := P) busHost bs p b).watch = b.watch := by
  induction bs with
  | nil => exact fun _ _ _ => rfl
  | cons v bs ih =>
    intro p b h
    have hb : ({ b with watch := b.watch.store p } : Bus).watch = b.watch := store_closed h p
    unfold storeBytes
    rw [show busHost.store b p v = { b with watch := b.watch.store p } from rfl, ih]
    · exact hb
    · rwa [hb]

/-- A look at memory may close the slot, and does nothing else. -/
theorem look_closes (w : Watch) (p : U64) (v : U32) :
    ∃ s, w.look p v = { w with slotOpen := s } ∧ (w.slotOpen = false → s = false) := by
  unfold Watch.look
  split
  · exact ⟨false, rfl, fun _ => rfl⟩
  · exact ⟨w.slotOpen, rfl, id⟩

theorem ld32_closed (h : d.env.watch.slotOpen = false) (p : U64) :
    Apart d (d.ld32 busHost p).1 := by
  refine .of_watch rfl ?_
  show d.env.watch.look p _ = _
  unfold Watch.look
  split
  · rw [← h]
  · rfl

/-! ## The link's calls are apart from the queue -/

theorem waitIdle_apart (polls : ℕ) :
    ∀ d : Driver Bus P, d.dev.read32 = some Bus.read32 → d.env.watch.phase ≠ .stopping →
      Apart d (d.waitIdle polls).1 := by
  induction polls with
  | zero => exact fun d _ _ => .refl d
  | succ polls ih =>
    intro d hr hp
    have hidle : Apart d d.idle.1 := rd_apart hr hp ptaStatus
    unfold Driver.waitIdle
    rcases hi : d.idle with ⟨d', seen⟩
    rw [hi] at hidle
    cases seen with
    | true => exact hidle
    | false => exact hidle.trans (ih d' (hidle.read32.trans hr) (by rwa [hidle.watch]))

/-- The registers read after a refusal. -/
theorem refused_apart (hr : d.dev.read32 = some Bus.read32) (hp : d.env.watch.phase ≠ .stopping) :
    Apart d ((d.rd ptaImpair).1.rd ptaCaps1).1 := by
  have h := rd_apart hr hp ptaImpair
  exact h.trans (rd_apart (h.read32.trans hr) (by rwa [h.watch]) ptaCaps1)

theorem linkEnded_apart (hr : d.dev.read32 = some Bus.read32)
    (hp : d.env.watch.phase ≠ .stopping) (st : CmdStatus) : Apart d (d.linkEnded st).1 := by
  cases st with
  | done => exact ⟨rfl, rfl, rfl, rfl, rfl, rfl, rfl, rfl, rfl, rfl, rfl⟩
  | refused =>
    refine (refused_apart hr hp).trans ?_
    exact ⟨rfl, rfl, rfl, rfl, rfl, rfl, rfl, rfl, rfl, rfl, rfl⟩
  | _ => exact .fail d .lost

theorem linkWait_apart (hr : d.dev.read32 = some Bus.read32)
    (hp : d.env.watch.phase ≠ .stopping) (status : P) : Apart d (d.linkWait busHost status).1 := by
  have hw := waitIdle_apart kMaxPolls d hr hp
  unfold Driver.linkWait
  rcases hi : d.waitIdle kMaxPolls with ⟨d', seen⟩
  rw [hi] at hw
  cases seen with
  | false => exact hw.trans (.fail d' .wedged)
  | true => exact hw.trans (linkEnded_apart (hw.read32.trans hr) (by rwa [hw.watch]) _)

theorem linkGemm_apart (hr : d.dev.read32 = some Bus.read32)
    (hp : d.env.watch.phase ≠ .stopping) (status : P) (c : Call P) :
    Apart d (d.linkGemm busHost Bus.submit status c).1 := by
  have hw := waitIdle_apart kMaxPolls d hr hp
  unfold Driver.linkGemm
  rcases hi : d.waitIdle kMaxPolls with ⟨d', seen⟩
  rw [hi] at hw
  cases seen with
  | false => exact hw.trans (.fail d' .wedged)
  | true =>
    dsimp only at hw ⊢
    have hs : Apart d' { d' with env := (Bus.submit (busHost.setStatus d'.env status .pending)
        (c.cmd status)).1 } := .of_watch rfl rfl
    rcases hsub : Bus.submit (busHost.setStatus d'.env status .pending) (c.cmd status) with
      ⟨env, taken⟩
    rw [hsub] at hs
    have h := hw.trans hs
    cases taken with
    | false => exact h.trans (.fail _ .notAccepted)
    | true => exact h.trans (linkWait_apart (h.read32.trans hr) (by rwa [h.watch]) status)

/-! ## The registers of the queue -/

theorem writeReg_stop (w : Watch) :
    w.writeReg ptqCtrl 0 = { w with phase := if w.phase = .off then .off else .stopping } := rfl

theorem writeReg_enable (w : Watch) :
    w.writeReg ptqCtrl ptqEnable =
      { w with phase := .running, shown := w.live, slotOpen := false } := rfl

theorem writeReg_baseLo (w : Watch) (v : U32) :
    w.writeReg ptqBaseLo v = { w with baseLo := v } := rfl

theorem writeReg_baseHi (w : Watch) (v : U32) :
    w.writeReg ptqBaseHi v = { w with baseHi := v } := rfl

theorem writeReg_size (w : Watch) (v : U32) :
    w.writeReg ptqSize v = { w with sizeLog2 := v } := rfl

theorem writeReg_tail (w : Watch) (v : U32) :
    w.writeReg ptqTail v =
      if w.phase = .running then { w with tail := v, shown := w.live, slotOpen := true }
      else { w with tail := v } := rfl

/-- The two halves of an address. -/
theorem halves (addr : U64) :
    (((addr >>> 32).truncate 32 : U32).zeroExtend 64 <<< 32) |||
      (addr.truncate 32 : U32).zeroExtend 64 = addr := by
  apply BitVec.eq_of_getLsbD_eq
  intro i hi
  rcases Nat.lt_or_ge i 32 with h | h
  · simp [h, hi]
  · simp [h, hi, Nat.not_lt.mpr h, Nat.add_sub_cancel' h]
    omega

/-- A ring is programmed into a queue that is off. -/
theorem program_watch (hw : d.dev.write32 = some Bus.write32) (hp : d.env.watch.phase = .off)
    (ring : Dma) (ringLog2 : U32) :
    (d.program ring ringLog2).dev = d.dev ∧
      (d.program ring ringLog2).env.watch =
        { d.env.watch with
          phase := .running
          baseLo := ring.addr.truncate 32
          baseHi := (ring.addr >>> 32).truncate 32
          sizeLog2 := ringLog2
          tail := 0
          shown := d.env.watch.live
          slotOpen := false } := by
  have hdev : (d.program ring ringLog2).dev = d.dev := by
    unfold Driver.program
    simp only [wr_dev]
  refine ⟨hdev, ?_⟩
  unfold Driver.program
  simp only [wr_watch, wr_dev, hw, writeReg_stop, writeReg_baseLo, writeReg_baseHi, writeReg_size,
    writeReg_tail, writeReg_enable, if_pos hp]
  rw [if_neg (by simp)]

theorem readBack_apart (hr : d.dev.read32 = some Bus.read32)
    (hp : d.env.watch.phase ≠ .stopping) (ring : Dma) (ringLog2 : U32) :
    Apart d (d.readBack ring ringLog2).1 := by
  have h₁ := rd_apart hr hp ptqStatus
  have h₂ := h₁.trans (rd_apart (h₁.read32.trans hr) (by rwa [h₁.watch]) ptqBaseLo)
  have h₃ := h₂.trans (rd_apart (h₂.read32.trans hr) (by rwa [h₂.watch]) ptqBaseHi)
  have h₄ := h₃.trans (rd_apart (h₃.read32.trans hr) (by rwa [h₃.watch]) ptqSize)
  unfold Driver.readBack
  dsimp only
  split
  · exact h₁
  split
  · exact h₂
  split
  · exact h₃
  · exact h₄

/-- A queue reads back well if and only if its registers will read so. -/
theorem readBack_takes (hr : d.dev.read32 = some Bus.read32) (ring : Dma) (ringLog2 : U32) :
    (d.readBack ring ringLog2).2 = true ↔ d.env.TakesRing ring ringLog2 := by
  have hrd : ∀ (env : Bus) off, (⟨d.dev, env⟩ : Driver Bus P).rd off =
      (⟨d.dev, (env.read32 off).1⟩, env.regs 0) := fun env => rd_bus (d := ⟨d.dev, env⟩) hr
  unfold Driver.readBack Bus.TakesRing
  rw [rd_bus hr]
  dsimp only
  by_cases h₀ : d.env.regs 0 &&& ptqEnabled = 0
  · rw [if_pos h₀]
    exact iff_of_false (by simp) fun h => h.1 h₀
  rw [if_neg h₀, hrd, show (d.env.read32 ptqStatus).1.regs 0 = d.env.regs 1 from rfl]
  dsimp only
  by_cases h₁ : d.env.regs 1 ≠ ring.addr.truncate 32
  · rw [if_pos h₁]
    exact iff_of_false (by simp) fun h => h₁ h.2.1
  rw [if_neg h₁, hrd,
    show ((d.env.read32 ptqStatus).1.read32 ptqBaseLo).1.regs 0 = d.env.regs 2 from rfl]
  dsimp only
  by_cases h₂ : d.env.regs 2 ≠ (ring.addr >>> 32).truncate 32
  · rw [if_pos h₂]
    exact iff_of_false (by simp) fun h => h₂ h.2.2.1
  rw [if_neg h₂, hrd]
  exact beq_iff_eq.trans ⟨fun h => ⟨h₀, not_not.mp h₁, not_not.mp h₂, h⟩, fun h => h.2.2.2⟩

/-! ## Stopping the queue -/

theorem quiesce_spec (polls : ℕ) :
    ∀ d : Driver Bus P, d.dev.read32 = some Bus.read32 → d.env.watch.phase = .stopping →
      (d.quiesce polls).1.dev = d.dev ∧
        (((d.quiesce polls).2 = true ∧
            (d.quiesce polls).1.env.watch = { d.env.watch with phase := .off }) ∨
          ((d.quiesce polls).2 = false ∧ (d.quiesce polls).1.env.watch = d.env.watch)) := by
  induction polls with
  | zero => exact fun d _ _ => ⟨rfl, .inr ⟨rfl, rfl⟩⟩
  | succ polls ih =>
    intro d hr hp
    unfold Driver.quiesce
    rw [rd_bus hr]
    dsimp only
    by_cases hv : d.env.regs 0 &&& ptqEnabled = 0
    · rw [if_pos hv]
      refine ⟨rfl, .inl ⟨rfl, ?_⟩⟩
      show d.env.watch.readReg ptqStatus (d.env.regs 0) = _
      unfold Watch.readReg
      rw [if_pos ⟨rfl, hv, hp⟩]
    · rw [if_neg hv]
      have hsame : (d.env.read32 ptqStatus).1.watch = d.env.watch := by
        show d.env.watch.readReg ptqStatus (d.env.regs 0) = _
        unfold Watch.readReg
        rw [if_neg fun h => hv h.2.1]
      have h := ih { d with env := (d.env.read32 ptqStatus).1 } hr (by
        rw [hsame]
        exact hp)
      rwa [hsame] at h

/-- Nothing that is written to a queue that is off is out of order. -/
theorem endLost_spec (slots : ℕ) :
    ∀ (idx : U32) (d : Driver Bus P), d.env.watch.phase = .off →
      (d.endLost busHost slots idx).dev = d.dev ∧
        ∃ s, (d.endLost busHost slots idx).env.watch = { d.env.watch with slotOpen := s } := by
  induction slots with
  | zero => exact fun _ d _ => ⟨rfl, d.env.watch.slotOpen, rfl⟩
  | succ slots ih =>
    intro idx d hp
    obtain ⟨s, hs, -⟩ := look_closes d.env.watch (d.dev.slotOf idx + BitVec.ofNat 64 dStatus)
      (d.env.words 0)
    have hlook : (d.slotStatus busHost idx).1.env.watch = { d.env.watch with slotOpen := s } := hs
    have hoff : (d.slotStatus busHost idx).1.env.watch.phase = .off := by
      rw [hlook]
      exact hp
    unfold Driver.endLost
    dsimp only
    by_cases hst : (d.slotStatus busHost idx).2 = 0
    · -- a pending slot is ended lost
      have hstore : ((d.slotStatus busHost idx).1.storeStatus busHost idx recLost).env.watch =
          (d.slotStatus busHost idx).1.env.watch := storeBytes_apart _ _ _ (.inl hoff)
      rw [if_pos hst]
      obtain ⟨hdev, s', hs'⟩ := ih (idx + 1)
        ((d.slotStatus busHost idx).1.storeStatus busHost idx recLost) (by rw [hstore, hoff])
      refine ⟨hdev, s', hs'.trans ?_⟩
      rw [hstore, hlook]
    · rw [if_neg hst]
      obtain ⟨hdev, s', hs'⟩ := ih (idx + 1) (d.slotStatus busHost idx).1 hoff
      refine ⟨hdev, s', hs'.trans ?_⟩
      rw [hlook]

/-! ## A queue that keeps its ring -/

/-- The queue of a device is the one the observer sees, on memory that is held. -/
structure Given (dev : Device Bus P) (w : Watch) : Prop where
  alloc : dev.dmaAlloc = some Bus.alloc
  free : dev.dmaFree = some Bus.free
  base : w.base = dev.ring.addr
  size : w.sizeLog2 = dev.ringLog2
  live : dev.ring ∈ w.live
  stage : dev.stage.cpu ≠ 0 → dev.stage.addr ≠ dev.ring.addr

/-- What holds of a driver on the bus between its calls. -/
structure Held (d : Driver Bus P) : Prop where
  read32 : d.dev.read32 = some Bus.read32
  write32 : d.dev.write32 = some Bus.write32
  submit : ∀ f, d.dev.submit = some f → f = Bus.submit
  clean : d.env.watch.broken = false
  off : d.dev.queue = false → d.env.watch.phase = .off
  given : d.dev.queue = true → Given d.dev d.env.watch
  on : d.dev.queue = true → d.env.watch.phase ≠ .off
  /-- A queue that is not dead runs, and every slot of it has been seen to end. -/
  alive : d.dev.queue = true → d.dev.queueDead = false →
    d.env.watch.phase = .running ∧ d.env.watch.slotOpen = false

theorem Held.apart {d' : Driver Bus P} (h : Held d) (ha : Apart d d') : Held d' where
  read32 := ha.read32.trans h.read32
  write32 := ha.write32.trans h.write32
  submit := ha.submit ▸ h.submit
  clean := ha.watch ▸ h.clean
  off := fun hq => ha.watch ▸ h.off (ha.queue ▸ hq)
  given := by
    intro hq
    obtain ⟨halloc, hfree, hbase, hsize, hlive, hstage⟩ := h.given (ha.queue ▸ hq)
    refine ⟨ha.dmaAlloc.trans halloc, ha.dmaFree.trans hfree, ?_, ?_, ?_, ?_⟩ <;>
      simpa only [ha.watch, ha.ring, ha.ringLog2, ha.stage]
  on := fun hq => ha.watch ▸ h.on (ha.queue ▸ hq)
  alive := fun hq hdead => ha.watch ▸ h.alive (ha.queue ▸ hq) (ha.queueDead ▸ hdead)

/-- A teardown of a running queue leaves it dead and not known to have stopped, or running again and
empty. -/
theorem teardown_spec (hr : d.dev.read32 = some Bus.read32) (hw : d.dev.write32 = some Bus.write32)
    (hq : d.dev.queue = true) (hdead : d.dev.queueDead = false)
    (hp : d.env.watch.phase = .running) :
    let r := d.teardown busHost
    (r.2 = false ∧ r.1.dev = { d.dev with queueDead := true } ∧
        r.1.env.watch = { d.env.watch with phase := .stopping }) ∨
      (r.2 = true ∧ r.1.dev = d.dev ∧
        r.1.env.watch =
          { d.env.watch with
            phase := .running, tail := d.dev.next, shown := d.env.watch.live, slotOpen := false }) := by
  have hstop : (d.wr ptqCtrl 0).env.watch = { d.env.watch with phase := .stopping } := by
    rw [wr_watch hw, writeReg_stop, if_neg (by simp [hp])]
  have hdev := wr_dev d ptqCtrl 0
  have hquiet := quiesce_spec kQuiescePolls (d.wr ptqCtrl 0) (hdev ▸ hr) (by rw [hstop])
  unfold Driver.teardown
  rw [if_neg (by simp [hq, hdead])]
  dsimp only
  rcases hqu : Driver.quiesce kQuiescePolls (d.wr ptqCtrl 0) with ⟨d', stopped⟩
  rw [hqu, hdev, hstop] at hquiet
  obtain ⟨hdev', ⟨rfl, hwatch'⟩ | ⟨rfl, hwatch'⟩⟩ := hquiet
  · -- stopped: the slots behind the head end lost, and it runs again
    refine .inr ?_
    dsimp only at hdev' hwatch' ⊢
    have hread := rd_apart (d := d') (hdev' ▸ hr) (by rw [hwatch']; simp) ptqHead
    have hreadDev : (d'.rd ptqHead).1.dev = d'.dev := by
      rw [rd_bus (hdev' ▸ hr)]
    generalize (d'.rd ptqHead).1 = d'' at hread hreadDev ⊢
    generalize (if d''.dev.next - d''.dev.ended < (d'.rd ptqHead).2 - d''.dev.ended then
      d''.dev.ended else (d'.rd ptqHead).2) = idx
    obtain ⟨hend, s, hs⟩ := endLost_spec (d''.dev.next - idx).toNat idx d'' (by
      rw [hread.watch, hwatch'])
    generalize Driver.endLost busHost (d''.dev.next - idx).toNat idx d'' = e at hend hs ⊢
    have hedev : e.dev = d.dev := hend.trans (hreadDev.trans hdev')
    have hewr : e.dev.write32 = some Bus.write32 := hedev ▸ hw
    refine ⟨rfl, by rw [wr_dev, wr_dev, hedev], ?_⟩
    rw [wr_watch (by rwa [wr_dev]), wr_watch hewr, writeReg_tail, if_neg (by
      rw [hs, hread.watch, hwatch']
      simp), writeReg_enable, hs, hread.watch, hwatch', hedev]
  · exact .inl ⟨rfl, by rw [← hdev'], hwatch'⟩

/-- The platform has none to give. -/
theorem alloc_held {b : Bus} (h : b.watch.live.any (·.addr == (b.grants 0).2.addr) = true)
    (bytes : U64) : b.alloc bytes = ({ b with grants := fun n => b.grants (n + 1) }, false, {}) := by
  unfold Bus.alloc
  exact if_pos h

/-- The platform gives memory that nobody holds. -/
theorem alloc_fresh {b : Bus} (h : ¬b.watch.live.any (·.addr == (b.grants 0).2.addr) = true)
    (bytes : U64) :
    b.alloc bytes =
      ({ b with
          grants := fun n => b.grants (n + 1)
          watch := { b.watch with live := (b.grants 0).2 :: b.watch.live } }, b.grants 0) := by
  unfold Bus.alloc
  exact if_neg h

/-- A buffer that is not the ring is given back while no slot is open. -/
theorem free_closed (hg : Given d.dev d.env.watch) (hopen : d.env.watch.slotOpen = false) (buf : Dma)
    (hne : buf.addr ≠ d.dev.ring.addr) :
    ∃ live, (d.free buf).dev = d.dev ∧ (d.free buf).env.watch = { d.env.watch with live := live } ∧
      d.dev.ring ∈ live := by
  have hmay : d.env.watch.mayUse buf = false := by
    unfold Watch.mayUse
    rw [hg.base]
    simp [hopen, hne]
  unfold Driver.free
  rw [hg.free]
  refine ⟨d.env.watch.live.filter (·.addr != buf.addr), rfl, ?_, ?_⟩
  · show d.env.watch.release buf = _
    unfold Watch.release
    rw [hmay, Bool.or_false]
  · exact List.mem_filter.mpr ⟨hg.live, by simpa using Ne.symm hne⟩

/-- A staging buffer is released and another one allocated while no slot is open. -/
theorem stageFor_spec (hg : Given d.dev d.env.watch) (hopen : d.env.watch.slotOpen = false)
    (bytes : U64) :
    ∃ stage live, (d.stageFor bytes).1.dev = { d.dev with stage := stage } ∧
      (d.stageFor bytes).1.env.watch = { d.env.watch with live := live } ∧
      d.dev.ring ∈ live ∧ (stage.cpu ≠ 0 → stage.addr ≠ d.dev.ring.addr) := by
  unfold Driver.stageFor
  split
  · exact ⟨d.dev.stage, d.env.watch.live, rfl, rfl, hg.live, hg.stage⟩
  dsimp only
  -- the buffer that is too small goes back
  obtain ⟨d₁, hd₁, live₁, hdev₁, hwatch₁, hring₁⟩ : ∃ d₁,
      (if d.dev.stage.cpu ≠ 0 then d.free d.dev.stage else d) = d₁ ∧ ∃ live, d₁.dev = d.dev ∧
        d₁.env.watch = { d.env.watch with live := live } ∧ d.dev.ring ∈ live := by
    refine ⟨_, rfl, ?_⟩
    split
    · next hcpu => exact free_closed hg hopen _ (hg.stage hcpu)
    · exact ⟨d.env.watch.live, rfl, rfl, hg.live⟩
  have halloc₁ : d₁.dev.dmaAlloc = some Bus.alloc := by rw [hdev₁, hg.alloc]
  rw [hd₁]
  split
  · next h => exact absurd (halloc₁.symm.trans h) (by simp)
  next alloc h =>
  obtain rfl : Bus.alloc = alloc := Option.some.inj (halloc₁.symm.trans h)
  rw [hdev₁]
  by_cases hheld : d₁.env.watch.live.any (·.addr == (d₁.env.grants 0).2.addr) = true
  · -- the platform has none to give
    rw [alloc_held hheld]
    exact ⟨{}, live₁, rfl, hwatch₁, hring₁, fun h => absurd rfl h⟩
  · rw [alloc_fresh hheld]
    rcases hgrant : d₁.env.grants 0 with ⟨ok, buf⟩
    rw [hgrant] at hheld
    have hne : buf.addr ≠ d.dev.ring.addr := by
      intro h
      refine hheld (List.any_eq_true.mpr ⟨d.dev.ring, ?_, ?_⟩)
      · rw [hwatch₁]
        exact hring₁
      · simpa using h.symm
    dsimp only
    split
    · -- what it gave is not enough
      refine ⟨{}, ?_⟩
      split
      · obtain ⟨live, hdev, hwatch, hring⟩ := free_closed (d :=
          { dev := { d.dev with stage := buf }
            env :=
              { d₁.env with
                grants := fun n => d₁.env.grants (n + 1)
                watch := { d₁.env.watch with live := buf :: d₁.env.watch.live } } })
          (by
            rw [hwatch₁]
            exact ⟨hg.alloc, hg.free, hg.base, hg.size, List.mem_cons_of_mem _ hring₁, fun _ => hne⟩)
          (by
            show d₁.env.watch.slotOpen = false
            rw [hwatch₁]
            exact hopen) buf hne
        refine ⟨live, ?_, ?_, hring, fun h => absurd rfl h⟩
        · rw [hdev]
        · refine hwatch.trans ?_
          rw [hwatch₁]
      · refine ⟨buf :: live₁, rfl, ?_, List.mem_cons_of_mem _ hring₁, fun h => absurd rfl h⟩
        rw [hwatch₁]
    · refine ⟨buf, buf :: live₁, rfl, ?_, List.mem_cons_of_mem _ hring₁, fun _ => hne⟩
      rw [hwatch₁]

/-! ## A GEMM through the queue -/

/-- The doorbell opens the slot whose record the driver then looks at. -/
theorem publish_spec (hw : d.dev.write32 = some Bus.write32) (hg : Given d.dev d.env.watch)
    (hp : d.env.watch.phase = .running) (hopen : d.env.watch.slotOpen = false) (c : Call P)
    (A B : List ℤ) (l : Layout) :
    let d' := d.publish busHost c A B l
    d'.dev = { d.dev with next := d.dev.next + 1 } ∧
      d'.env.watch =
        { d.env.watch with
          tail := d.dev.next + 1, shown := d.env.watch.live, slotOpen := true } ∧
      d.dev.ring.addr + (d.dev.slotOf d.dev.next + BitVec.ofNat 64 dStatus - d.dev.ring.cpu) =
        d'.env.watch.record := by
  have hwatch : ∀ b : Bus, b.watch = d.env.watch → ∀ bs p,
      (storeBytes (P := P) busHost bs p b).watch = d.env.watch := fun b hb bs p =>
    (storeBytes_apart bs p b (by rw [hb]; exact .inr hopen)).trans hb
  have hend : (d.publish busHost c A B l).env.watch = { d.env.watch with
      tail := d.dev.next + 1, shown := d.env.watch.live, slotOpen := true } := by
    unfold Driver.publish
    rw [wr_watch (by exact hw), writeReg_tail]
    dsimp only
    rw [hwatch _ (hwatch _ (hwatch _ rfl _ _) _ _), if_pos hp]
  refine ⟨by unfold Driver.publish; rw [wr_dev], hend, ?_⟩
  rw [hend]
  unfold Watch.record Device.slotOf Watch.base
  dsimp only
  rw [hg.size, show d.dev.next + 1 - 1 = d.dev.next from BitVec.add_sub_cancel _ _]
  rw [show (d.env.watch.baseHi.zeroExtend 64 <<< 32) ||| d.env.watch.baseLo.zeroExtend 64 =
    d.dev.ring.addr from hg.base]
  generalize BitVec.zeroExtend 64 _ * slotBytes = x
  generalize BitVec.ofNat 64 dStatus = y
  bv_omega

/-- Looking at a slot's record closes the slot when it is seen to have ended. -/
theorem pollSlot_spec {slot : U64} {buf : Dma} (polls : ℕ) :
    ∀ d : Driver Bus P, d.dev.read32 = some Bus.read32 → d.env.watch.phase = .running →
      buf ∈ d.env.watch.live →
      buf.addr + (slot + BitVec.ofNat 64 dStatus - buf.cpu) = d.env.watch.record →
      let r := d.pollSlot busHost slot polls
      r.1.dev = d.dev ∧
        ((r.2 ≠ 0 ∧ r.1.env.watch = { d.env.watch with slotOpen := false }) ∨
          (r.2 = 0 ∧ r.1.env.watch = d.env.watch)) := by
  induction polls with
  | zero => exact fun d _ _ _ _ => ⟨rfl, .inr ⟨rfl, rfl⟩⟩
  | succ polls ih =>
    intro d hr hp hlive hrec
    unfold Driver.pollSlot
    have hlook : (d.ld32 busHost (slot + BitVec.ofNat 64 dStatus)).1.env.watch =
        d.env.watch.look (slot + BitVec.ofNat 64 dStatus) (d.env.words 0) := rfl
    have hseen : (d.ld32 busHost (slot + BitVec.ofNat 64 dStatus)).2 = d.env.words 0 := rfl
    have hdev : (d.ld32 busHost (slot + BitVec.ofNat 64 dStatus)).1.dev = d.dev := rfl
    generalize d.ld32 busHost (slot + BitVec.ofNat 64 dStatus) = r at hlook hseen hdev ⊢
    obtain ⟨d₁, st⟩ := r
    obtain rfl : st = d.env.words 0 := hseen
    dsimp only at hlook hdev ⊢
    unfold Watch.look at hlook
    by_cases hst : d.env.words 0 ≠ 0
    · rw [if_pos hst]
      rw [if_pos ⟨hst, List.any_eq_true.mpr ⟨buf, hlive, by simpa using hrec⟩⟩] at hlook
      exact ⟨hdev, .inl ⟨hst, hlook⟩⟩
    · rw [if_neg hst]
      rw [if_neg fun h => hst h.1] at hlook
      have hread := rd_apart (d := d₁) (hdev ▸ hr) (by rw [hlook, hp]; simp) ptqStatus
      have hreadDev : (d₁.rd ptqStatus).1.dev = d.dev := by
        rw [rd_bus (hdev ▸ hr), hdev]
      have hwatch : (d₁.rd ptqStatus).1.env.watch = d.env.watch := hread.watch.trans hlook
      split
      · exact ⟨hreadDev, .inr ⟨rfl, hwatch⟩⟩
      · have h := ih (d₁.rd ptqStatus).1 (hreadDev ▸ hr) (by rwa [hwatch]) (by rwa [hwatch])
          (by rwa [hwatch])
        rwa [hreadDev, hwatch] at h

theorem ldWords_apart (words : ℕ) :
    ∀ (p : U64) (d : Driver Bus P), d.env.watch.slotOpen = false →
      Apart d (d.ldWords busHost words p).1 := by
  induction words with
  | zero => exact fun _ d _ => .refl d
  | succ words ih =>
    intro p d h
    have hld := ld32_closed h p
    exact hld.trans (ih (p + 4) _ (by rwa [hld.watch]))

/-- What a record says is read while no slot is open. -/
theorem conclude_apart (hr : d.dev.read32 = some Bus.read32) (hp : d.env.watch.phase = .running)
    (hopen : d.env.watch.slotOpen = false) (C : P) (nc : U64) (l : Layout) (slot : U64)
    (st : U32) : Apart d (d.conclude busHost C nc l slot st).1 := by
  unfold Driver.conclude
  split
  · have hwords := ldWords_apart nc.toNat (d.dev.stage.cpu + l.c) d hopen
    generalize d.ldWords busHost nc.toNat (d.dev.stage.cpu + l.c) = r at hwords ⊢
    obtain ⟨d₁, out⟩ := r
    have hset : Apart d { d₁ with env := busHost.setC d₁.env C (out.map BitVec.toInt) } :=
      hwords.trans (.of_watch rfl rfl)
    have hindex := ld32_closed (by rw [hset.watch, hopen]) (slot + BitVec.ofNat 64 PtaModule.dIndex)
    refine (hset.trans hindex).trans ?_
    exact ⟨rfl, rfl, rfl, rfl, rfl, rfl, rfl, rfl, rfl, rfl, rfl⟩
  split
  · refine (refused_apart hr (by simp [hp])).trans ?_
    exact ⟨rfl, rfl, rfl, rfl, rfl, rfl, rfl, rfl, rfl, rfl, rfl⟩
  split
  · exact .fail d .notAccepted
  · exact .fail d .lost

/-- The driver's note that a slot has ended. -/
theorem ended_apart (d : Driver Bus P) (ended : U32) :
    Apart d { d with dev := { d.dev with ended := ended } } :=
  ⟨rfl, rfl, rfl, rfl, rfl, rfl, rfl, rfl, rfl, rfl, rfl⟩

/-- From the doorbell to the call's end: the slot is seen to end, or the queue is torn down. -/
theorem await_held (hr : d.dev.read32 = some Bus.read32) (hw : d.dev.write32 = some Bus.write32)
    (hsub : ∀ f, d.dev.submit = some f → f = Bus.submit) (hq : d.dev.queue = true)
    (hdead : d.dev.queueDead = false) (hclean : d.env.watch.broken = false)
    (hg : Given d.dev d.env.watch) (hp : d.env.watch.phase = .running) {slot : U64}
    (hrec : d.dev.ring.addr + (slot + BitVec.ofNat 64 dStatus - d.dev.ring.cpu) =
      d.env.watch.record) (C : P) (nc : U64) (l : Layout) :
    Held (d.await busHost C nc l slot).1 := by
  have hpoll := pollSlot_spec kQueuePolls d hr hp hg.live hrec
  -- a queue that runs with no slot open
  have hrun : ∀ d' : Driver Bus P, d'.dev = d.dev →
      (∃ tail shown, d'.env.watch =
        { d.env.watch with tail := tail, shown := shown, slotOpen := false }) → Held d' := by
    rintro d' hdev ⟨tail, shown, hwatch⟩
    refine ⟨hdev ▸ hr, hdev ▸ hw, hdev ▸ hsub, by rw [hwatch]; exact hclean, ?_, ?_, ?_, ?_⟩
    · intro h
      rw [hdev, hq] at h
      cases h
    · intro _
      rw [hdev, hwatch]
      exact ⟨hg.alloc, hg.free, hg.base, hg.size, hg.live, hg.stage⟩
    · intro _
      rw [hwatch]
      simp [hp]
    · intro _ _
      rw [hwatch]
      exact ⟨hp, rfl⟩
  unfold Driver.await
  generalize d.pollSlot busHost slot kQueuePolls = r at hpoll ⊢
  obtain ⟨d₁, st⟩ := r
  obtain ⟨hdev, ⟨hst, hwatch⟩ | ⟨hst, hwatch⟩⟩ := hpoll
  · have hheld := hrun d₁ hdev ⟨_, _, hwatch⟩
    dsimp only at hst ⊢
    rw [if_pos hst]
    have hend := ended_apart d₁ d₁.dev.next
    refine hheld.apart (hend.trans (conclude_apart (hend.read32.trans hheld.read32) ?_ ?_ C nc l
      slot st))
    · exact (congrArg Watch.phase hwatch).trans hp
    · exact congrArg Watch.slotOpen hwatch
  · dsimp only at hst hdev hwatch ⊢
    rw [if_neg (fun h => h hst)]
    have htear := teardown_spec (d := d₁) (hdev ▸ hr) (hdev ▸ hw) (hdev ▸ hq) (hdev ▸ hdead)
      (by rw [hwatch]; exact hp)
    generalize d₁.teardown busHost = r at htear ⊢
    obtain ⟨d₂, ok⟩ := r
    obtain ⟨rfl, hdev₂, hwatch₂⟩ | ⟨rfl, hdev₂, hwatch₂⟩ := htear
    · -- it would not stop
      dsimp only at hdev₂ hwatch₂ ⊢
      rw [hdev] at hdev₂
      rw [hwatch] at hwatch₂
      have hheld : Held d₂ := by
        refine ⟨by rw [hdev₂]; exact hr, by rw [hdev₂]; exact hw, by rw [hdev₂]; exact hsub,
          by rw [hwatch₂]; exact hclean, ?_, ?_, ?_, ?_⟩
        · intro h
          rw [hdev₂] at h
          exact absurd (hq.symm.trans h) (by simp)
        · intro _
          rw [hdev₂, hwatch₂]
          exact ⟨hg.alloc, hg.free, hg.base, hg.size, hg.live, hg.stage⟩
        · intro _
          rw [hwatch₂]
          simp
        · intro _ h
          rw [hdev₂] at h
          cases h
      exact hheld.apart ((ended_apart d₂ d₂.dev.next).trans (.fail _ .wedged))
    · dsimp only at hdev₂ hwatch₂ ⊢
      have hheld := hrun d₂ (hdev₂.trans hdev) ⟨_, _, by
        rw [hwatch₂, hwatch, ← hp]⟩
      have hclosed : d₂.env.watch.slotOpen = false := congrArg Watch.slotOpen hwatch₂
      have hrunning : d₂.env.watch.phase = .running := congrArg Watch.phase hwatch₂
      have hld := ld32_closed hclosed (slot + BitVec.ofNat 64 dStatus)
      have hend := hld.trans (ended_apart _ d₂.dev.next)
      refine hheld.apart (hend.trans (conclude_apart (hend.read32.trans hheld.read32) ?_ ?_ C nc l
        slot _))
      · exact (congrArg Watch.phase hend.watch).trans hrunning
      · exact (congrArg Watch.slotOpen hend.watch).trans hclosed

theorem queueGemm_held (h : Held d) (hq : d.dev.queue = true) (c : Call P) :
    Held (d.queueGemm busHost c).1 := by
  have hg := h.given hq
  unfold Driver.queueGemm
  split
  · exact h.apart (.fail d .wedged)
  next hdead =>
  obtain ⟨hp, hopen⟩ := h.alive hq (by simpa using hdead)
  split
  · exact h.apart (.fail d .notAccepted)
  split
  · next A B C hA hB hC =>
    dsimp only
    split
    · exact h.apart (.fail d .format)
    split
    · exact h.apart (.fail d .notAccepted)
    generalize layout _ _ _ = l
    generalize List.take _ A = A
    generalize List.take _ B = B
    obtain ⟨stage, live, hdev, hwatch, hring, hstage⟩ := stageFor_spec hg hopen l.bytes
    generalize d.stageFor l.bytes = r at hdev hwatch ⊢
    obtain ⟨d₁, got⟩ := r
    dsimp only at hdev hwatch
    have hg₁ : Given d₁.dev d₁.env.watch := by
      rw [hdev, hwatch]
      exact ⟨hg.alloc, hg.free, hg.base, hg.size, hring, hstage⟩
    have hheld : Held d₁ := by
      refine ⟨by rw [hdev]; exact h.read32, by rw [hdev]; exact h.write32,
        by rw [hdev]; exact h.submit, by rw [hwatch]; exact h.clean, ?_, fun _ => hg₁, ?_, ?_⟩
      · intro hoff
        rw [hdev] at hoff
        exact absurd (hq.symm.trans hoff) (by simp)
      · intro _
        rw [hwatch]
        simp [hp]
      · intro _ _
        rw [hwatch]
        exact ⟨hp, hopen⟩
    cases got with
    | false => exact hheld.apart (.fail d₁ .notAccepted)
    | true =>
      have hp₁ : d₁.env.watch.phase = .running := (congrArg Watch.phase hwatch).trans hp
      have hopen₁ : d₁.env.watch.slotOpen = false := (congrArg Watch.slotOpen hwatch).trans hopen
      obtain ⟨hdev₂, hwatch₂, hrec⟩ := publish_spec hheld.write32 hg₁ hp₁ hopen₁ c A B l
      dsimp only
      have hring₂ : (d₁.publish busHost c A B l).dev.ring = d₁.dev.ring := by rw [hdev₂]
      refine await_held ?_ ?_ ?_ ?_ ?_ ?_ ?_ ?_ ?_ C _ l
      · rw [hdev₂]
        exact hheld.read32
      · rw [hdev₂]
        exact hheld.write32
      · rw [hdev₂]
        exact hheld.submit
      · rw [hdev₂, hdev]
        exact hq
      · rw [hdev₂, hdev]
        simpa using hdead
      · rw [hwatch₂]
        exact hheld.clean
      · rw [hdev₂, hwatch₂]
        exact ⟨hg₁.alloc, hg₁.free, hg₁.base, hg₁.size, hg₁.live, hg₁.stage⟩
      · rw [hwatch₂]
        exact hp₁
      · rw [hring₂]
        exact hrec
  · exact h.apart (.fail d .notAccepted)

theorem gemm_held (h : Held d) (status : P) (c : Call P) : Held (d.gemm busHost status c).1 := by
  have hclear : Held { d with dev := { d.dev with refusedImpairments := 0, lastIndex := -1 } } :=
    h.apart ⟨rfl, rfl, rfl, rfl, rfl, rfl, rfl, rfl, rfl, rfl, rfl⟩
  unfold Driver.gemm
  generalize ({ d with dev := { d.dev with refusedImpairments := 0, lastIndex := -1 } } :
    Driver Bus P) = d' at hclear ⊢
  dsimp only
  split
  · exact hclear.apart (.fail d' .noWindow)
  split
  · exact hclear.apart (.fail d' .notPresent)
  split
  · next hq => exact queueGemm_held hclear hq c
  · next hq =>
    split
    · exact hclear.apart (.fail d' .noLink)
    · next f hf =>
      rw [hclear.submit f hf]
      have hoff := hclear.off (by simpa using hq)
      exact hclear.apart (linkGemm_apart hclear.read32 (by rw [hoff]; simp) status c)

/-! ## The other calls -/

theorem teardown_held (h : Held d) : Held (d.teardown busHost).1 := by
  by_cases hrun : d.dev.queue = true ∧ d.dev.queueDead = false
  · obtain ⟨hq, hdead⟩ := hrun
    obtain ⟨hp, -⟩ := h.alive hq hdead
    have hg := h.given hq
    have hdone : ∀ (d' : Driver Bus P) dead tail shown closed, (dead = false → closed = false) →
        d'.dev = { d.dev with queueDead := dead } →
        d'.env.watch =
          { d.env.watch with
            phase := if dead then .stopping else .running
            tail := tail
            shown := shown
            slotOpen := closed } → Held d' := by
      intro d' dead tail shown closed hclosed hdev hwatch
      refine ⟨by rw [hdev]; exact h.read32, by rw [hdev]; exact h.write32,
        by rw [hdev]; exact h.submit, by rw [hwatch]; exact h.clean, ?_, ?_, ?_, ?_⟩
      · intro hoff
        rw [hdev] at hoff
        exact absurd (hq.symm.trans hoff) (by simp)
      · intro _
        rw [hdev, hwatch]
        exact ⟨hg.alloc, hg.free, hg.base, hg.size, hg.live, hg.stage⟩
      · intro _
        rw [hwatch]
        cases dead <;> simp
      · intro _ halive
        rw [hdev] at halive
        rw [hwatch]
        exact ⟨if_neg (by simpa using halive), hclosed halive⟩
    obtain ⟨-, hdev, hwatch⟩ | ⟨-, hdev, hwatch⟩ :=
      teardown_spec h.read32 h.write32 hq hdead hp
    · exact hdone _ true _ _ _ (by simp) hdev hwatch
    · exact hdone _ false _ _ false (by simp) (by rw [hdev, ← hdead]) hwatch
  · have hnone : d.teardown busHost = (d, false) := by
      unfold Driver.teardown
      refine if_pos ?_
      by_contra hc
      exact hrun (by simpa using hc)
    rw [hnone]
    exact h

/-- Looking for a queue and for memory while the queue is off. -/
theorem ringFor_spec (hr : d.dev.read32 = some Bus.read32) (hoff : d.env.watch.phase = .off)
    (alloc free : Bool) (ringLog2 : ℤ) :
    let r := d.ringFor (givenAlloc alloc) (givenFree free) ringLog2
    ∃ live, r.1.dev = d.dev ∧ r.1.env.watch = { d.env.watch with live := live } ∧
      ∀ ring, r.2 = some ring → alloc = true ∧ free = true ∧ ring ∈ live := by
  have h₁ := rd_apart hr (by rw [hoff]; simp) ptqId
  have h₂ := h₁.trans (rd_apart (h₁.read32.trans hr) (by rw [h₁.watch, hoff]; simp) ptqCaps)
  have hdev : ((d.rd ptqId).1.rd ptqCaps).1.dev = d.dev := by
    rw [rd_bus (h₁.read32.trans hr), rd_bus hr]
  have hwatch := h₂.watch
  unfold Driver.ringFor
  dsimp only
  generalize ((d.rd ptqId).1.rd ptqCaps).2 = caps
  generalize ((d.rd ptqId).1.rd ptqCaps).1 = d₂ at hdev hwatch ⊢
  split
  · next alloc' free' halloc hfree =>
    have ha : alloc = true ∧ Bus.alloc = alloc' := by
      unfold givenAlloc at halloc
      split at halloc
      · next h => exact ⟨h, Option.some.inj halloc⟩
      · cases halloc
    have hf : free = true ∧ Bus.free = free' := by
      unfold givenFree at hfree
      split at hfree
      · next h => exact ⟨h, Option.some.inj hfree⟩
      · cases hfree
    obtain ⟨ha, rfl⟩ := ha
    obtain ⟨hf, rfl⟩ := hf
    split
    · exact ⟨d.env.watch.live, hdev, hwatch, fun _ h => by cases h⟩
    generalize slotBytes <<< ringLog2.toNat = bytes
    obtain ⟨live, hlive, hgot⟩ : ∃ live,
        (d₂.env.alloc bytes).1.watch = { d.env.watch with live := live } ∧
          ((d₂.env.alloc bytes).2.1 = true → (d₂.env.alloc bytes).2.2 ∈ live) := by
      by_cases hheld : d₂.env.watch.live.any (·.addr == (d₂.env.grants 0).2.addr) = true
      · rw [alloc_held hheld]
        exact ⟨d.env.watch.live, hwatch, fun h => by cases h⟩
      · rw [alloc_fresh hheld]
        refine ⟨(d₂.env.grants 0).2 :: d₂.env.watch.live, ?_, fun _ => List.mem_cons_self⟩
        rw [hwatch]
    generalize d₂.env.alloc bytes = r at hlive hgot ⊢
    obtain ⟨env, ok, ring⟩ := r
    dsimp only at hlive hgot ⊢
    split
    · -- what the platform gave is no ring, and the queue is off
      split
      · have hrel : (env.free ring).watch =
            { d.env.watch with live := live.filter (·.addr != ring.addr) } := by
          have hmay : env.watch.mayUse ring = false := by
            unfold Watch.mayUse
            rw [hlive]
            simp [hoff]
          show env.watch.release ring = _
          unfold Watch.release
          rw [hmay, Bool.or_false, hlive]
        exact ⟨_, hdev, hrel, fun _ h => by cases h⟩
      · exact ⟨_, hdev, hlive, fun _ h => by cases h⟩
    · next hbad =>
      refine ⟨live, hdev, hlive, ?_⟩
      rintro ring' h
      obtain rfl := Option.some.inj h
      refine ⟨ha, hf, hgot ?_⟩
      by_contra hok
      exact hbad (.inl (by simpa using hok))
  · exact ⟨d.env.watch.live, hdev, hwatch, fun _ h => by cases h⟩

theorem storeBytes_regs (bs : List (BitVec 8)) :
    ∀ (p : U64) (b : Bus), (storeBytes (P := P) busHost bs p b).regs = b.regs := by
  induction bs with
  | nil => exact fun _ _ => rfl
  | cons v bs ih => exact fun p b => ih (p + 1) _

theorem wr_regs (hw : d.dev.write32 = some Bus.write32) (off v : U32) :
    (d.wr off v).env.regs = d.env.regs := by
  rw [wr_bus hw]
  rfl

/-- A ring of zeros, programmed into a queue that is off. -/
theorem programmed (hw : d.dev.write32 = some Bus.write32) (hoff : d.env.watch.phase = .off)
    (ring : Dma) (ringLog2 : U32) :
    let env := storeBytes (P := P) busHost (List.replicate ring.bytes.toNat 0) ring.cpu d.env
    let d' := Driver.program { d with env := env } ring ringLog2
    d'.dev = d.dev ∧
      d'.env.watch =
        { d.env.watch with
          phase := .running
          baseLo := ring.addr.truncate 32
          baseHi := (ring.addr >>> 32).truncate 32
          sizeLog2 := ringLog2
          tail := 0
          shown := d.env.watch.live
          slotOpen := false } ∧
      d'.env.regs = d.env.regs := by
  intro env
  have hwatch : env.watch = d.env.watch := storeBytes_apart _ _ _ (.inl hoff)
  have hregs : env.regs = d.env.regs := storeBytes_regs _ _ _
  obtain ⟨hpdev, hpwatch⟩ := program_watch (d := { d with env := env }) hw
    (by rw [hwatch]; exact hoff) ring ringLog2
  refine ⟨hpdev, hpwatch.trans (by rw [hwatch]), ?_⟩
  unfold Driver.program
  simp only [wr_regs, wr_dev, hw, hregs]

/-- An attach that finds no queue attached, and whose ring the queue takes. -/
theorem attach_held (h : Held d) (alloc free : Bool) (ringLog2 : ℤ)
    (hk : KeepsRing d (.attach alloc free ringLog2)) :
    Held (d.attachQueue busHost (givenAlloc alloc) (givenFree free) ringLog2).1 := by
  obtain ⟨hq, htakes⟩ := hk
  have hoff := h.off hq
  have hdetach : d.detachQueue = d := by
    unfold Driver.detachQueue
    exact if_pos (by simp [hq])
  unfold Driver.attachQueue
  split
  · exact h.apart (.fail d .noWindow)
  rw [hdetach]
  obtain ⟨live, hdev, hwatch, hring⟩ := ringFor_spec h.read32 hoff alloc free ringLog2
  generalize d.ringFor (givenAlloc alloc) (givenFree free) ringLog2 = r at htakes hdev hwatch hring ⊢
  obtain ⟨d₁, ring⟩ := r
  dsimp only at htakes hdev hwatch hring
  have hw₁ : d₁.dev.write32 = some Bus.write32 := by rw [hdev, h.write32]
  cases ring with
  | none =>
    have hheld : Held d₁ := by
      refine ⟨by rw [hdev]; exact h.read32, hw₁, by rw [hdev]; exact h.submit,
        by rw [hwatch]; exact h.clean, ?_, ?_, ?_, ?_⟩
      · intro _
        rw [hwatch]
        exact hoff
      all_goals
        intro hon
        rw [hdev, hq] at hon
        cases hon
    exact hheld.apart (.fail d₁ .noLink)
  | some ring =>
    obtain ⟨ha, hf, hlive⟩ := hring ring rfl
    have htakes := htakes ring rfl
    dsimp only
    obtain ⟨hpdev, hpwatch, hpregs⟩ := programmed hw₁ (by rw [hwatch]; exact hoff) ring
      (BitVec.ofInt 32 ringLog2)
    unfold Driver.giveRing
    dsimp only
    generalize Driver.program _ ring (BitVec.ofInt 32 ringLog2) = d₂ at hpdev hpwatch hpregs ⊢
    have hr₂ : d₂.dev.read32 = some Bus.read32 := by rw [hpdev, hdev, h.read32]
    have hback := readBack_apart hr₂ (by rw [hpwatch]; simp) ring (BitVec.ofInt 32 ringLog2)
    have htook : (d₂.readBack ring (BitVec.ofInt 32 ringLog2)).2 = true := by
      refine (readBack_takes hr₂ _ _).mpr ?_
      unfold Bus.TakesRing at htakes ⊢
      rwa [hpregs]
    generalize d₂.readBack ring (BitVec.ofInt 32 ringLog2) = r at hback htook ⊢
    obtain ⟨d₃, ok⟩ := r
    obtain rfl : ok = true := htook
    have hwatch₃ := hback.watch.trans hpwatch
    dsimp only at hwatch₃ hback ⊢
    rw [hwatch] at hwatch₃
    refine ⟨hback.read32.trans hr₂, ?_, ?_, by rw [hwatch₃]; exact h.clean, fun hoff' => (by cases hoff'),
      ?_, fun _ => by rw [hwatch₃]; simp, ?_⟩
    · exact hback.write32.trans (by rw [hpdev, hdev, h.write32])
    · intro f hsub
      exact h.submit f (by rw [← hdev, ← hsub]; exact (hback.submit.trans (by rw [hpdev])).symm)
    · intro _
      rw [hwatch₃]
      refine ⟨by rw [ha]; rfl, by rw [hf]; rfl, halves ring.addr, rfl, hlive, fun h => absurd rfl h⟩
    · intro _ _
      rw [hwatch₃]
      exact ⟨rfl, rfl⟩

/-! ## The calls that do not keep it -/

/-- The ring of a queue that was not seen to stop is given back. -/
theorem release_breaks {w : Watch} {ring : Dma} (hp : w.phase ≠ .off) (hbase : w.base = ring.addr) :
    (w.release ring).broken = true := by
  unfold Watch.release Watch.mayUse
  simp [hp, hbase]

/-- A queue that is detached has not been seen to stop. -/
theorem detach_breaks (h : Held d) (hq : d.dev.queue = true) :
    d.detachQueue.env.watch.broken = true := by
  have hg := h.given hq
  have hdev := wr_dev d ptqCtrl 0
  have hwatch : (d.wr ptqCtrl 0).env.watch = { d.env.watch with phase := .stopping } := by
    rw [wr_watch h.write32, writeReg_stop, if_neg (h.on hq)]
  have hfree : ∀ (d' : Driver Bus P) buf, d'.dev = d.dev →
      (d'.free buf).env.watch = d'.env.watch.release buf ∧ (d'.free buf).dev = d.dev := by
    intro d' buf hd'
    unfold Driver.free
    rw [hd', hg.free]
    exact ⟨rfl, rfl⟩
  unfold Driver.detachQueue
  rw [if_neg (by simp [hq])]
  dsimp only
  -- the buffer goes first, and the observer still waits
  obtain ⟨d₁, hd₁, hdev₁, hp₁, hbase₁⟩ : ∃ d₁,
      (if (d.wr ptqCtrl 0).dev.stage.cpu ≠ 0 then
        (d.wr ptqCtrl 0).free (d.wr ptqCtrl 0).dev.stage else d.wr ptqCtrl 0) = d₁ ∧
        d₁.dev = d.dev ∧ d₁.env.watch.phase = .stopping ∧ d₁.env.watch.base = d.dev.ring.addr := by
    refine ⟨_, rfl, ?_⟩
    split
    · obtain ⟨hw, hd⟩ := hfree (d.wr ptqCtrl 0) (d.wr ptqCtrl 0).dev.stage hdev
      refine ⟨hd, ?_, ?_⟩ <;> rw [hw, hwatch]
      · rfl
      · exact hg.base
    · refine ⟨hdev, ?_, ?_⟩ <;> rw [hwatch]
      exact hg.base
  rw [hd₁, hdev₁, (hfree d₁ d.dev.ring hdev₁).1]
  exact release_breaks (by simp [hp₁]) hbase₁

/-- A ring the queue did not take is given back before the queue was seen to stop. -/
theorem untaken_breaks (h : Held d) (hq : d.dev.queue = false) {alloc free : Bool} {ringLog2 : ℤ}
    {ring : Dma}
    (hring : (d.ringFor (givenAlloc alloc) (givenFree free) ringLog2).2 = some ring)
    (hnot : ¬(d.ringFor (givenAlloc alloc) (givenFree free) ringLog2).1.env.TakesRing ring
      (BitVec.ofInt 32 ringLog2)) :
    (d.attachQueue busHost (givenAlloc alloc) (givenFree free) ringLog2).1.env.watch.broken =
      true := by
  have hoff := h.off hq
  have hdetach : d.detachQueue = d := by
    unfold Driver.detachQueue
    exact if_pos (by simp [hq])
  unfold Driver.attachQueue
  rw [if_neg (by simp [Device.hasWindow, h.read32]), hdetach]
  obtain ⟨live, hdev, hwatch, hgot⟩ := ringFor_spec h.read32 hoff alloc free ringLog2
  obtain ⟨-, hf, -⟩ := hgot ring hring
  generalize d.ringFor (givenAlloc alloc) (givenFree free) ringLog2 = r at hring hnot hdev hwatch ⊢
  obtain ⟨d₁, got⟩ := r
  obtain rfl : got = some ring := hring
  dsimp only at hnot hdev hwatch ⊢
  have hw₁ : d₁.dev.write32 = some Bus.write32 := by rw [hdev, h.write32]
  obtain ⟨hpdev, hpwatch, hpregs⟩ := programmed hw₁ (by rw [hwatch]; exact hoff) ring
    (BitVec.ofInt 32 ringLog2)
  unfold Driver.giveRing
  dsimp only
  generalize Driver.program _ ring (BitVec.ofInt 32 ringLog2) = d₂ at hpdev hpwatch hpregs ⊢
  have hr₂ : d₂.dev.read32 = some Bus.read32 := by rw [hpdev, hdev, h.read32]
  have hback := readBack_apart hr₂ (by rw [hpwatch]; simp) ring (BitVec.ofInt 32 ringLog2)
  have hmissed : (d₂.readBack ring (BitVec.ofInt 32 ringLog2)).2 = false := by
    refine Bool.eq_false_iff.mpr fun htook => hnot ?_
    have := (readBack_takes hr₂ _ _).mp htook
    unfold Bus.TakesRing at this ⊢
    rwa [hpregs] at this
  generalize d₂.readBack ring (BitVec.ofInt 32 ringLog2) = r at hback hmissed ⊢
  obtain ⟨d₃, ok⟩ := r
  obtain rfl : ok = false := hmissed
  dsimp only at hback ⊢
  have hstop := wr_watch (d := d₃) (hback.write32.trans (by rw [hpdev, hw₁])) ptqCtrl 0
  rw [hback.watch, hpwatch, writeReg_stop, if_neg (by simp)] at hstop
  unfold givenFree
  rw [if_pos hf]
  show (Watch.release _ ring).broken = true
  refine release_breaks ?_ ?_ <;> rw [hstop]
  · simp
  · exact halves ring.addr

/-- A ring the queue took is attached. -/
theorem taken_attaches (h : Held d) (hq : d.dev.queue = false) {alloc free : Bool} {ringLog2 : ℤ}
    {ring : Dma}
    (hring : (d.ringFor (givenAlloc alloc) (givenFree free) ringLog2).2 = some ring)
    (htakes : (d.ringFor (givenAlloc alloc) (givenFree free) ringLog2).1.env.TakesRing ring
      (BitVec.ofInt 32 ringLog2)) :
    (d.attachQueue busHost (givenAlloc alloc) (givenFree free) ringLog2).1.dev.queue = true := by
  have hoff := h.off hq
  have hdetach : d.detachQueue = d := by
    unfold Driver.detachQueue
    exact if_pos (by simp [hq])
  unfold Driver.attachQueue
  rw [if_neg (by simp [Device.hasWindow, h.read32]), hdetach]
  obtain ⟨live, hdev, hwatch, -⟩ := ringFor_spec h.read32 hoff alloc free ringLog2
  generalize d.ringFor (givenAlloc alloc) (givenFree free) ringLog2 = r at hring htakes hdev hwatch ⊢
  obtain ⟨d₁, got⟩ := r
  obtain rfl : got = some ring := hring
  dsimp only at htakes hdev hwatch ⊢
  obtain ⟨hpdev, -, hpregs⟩ := programmed (by rw [hdev, h.write32]) (by rw [hwatch]; exact hoff) ring
    (BitVec.ofInt 32 ringLog2)
  unfold Driver.giveRing
  dsimp only
  generalize Driver.program _ ring (BitVec.ofInt 32 ringLog2) = d₂ at hpdev hpregs ⊢
  have htook : (d₂.readBack ring (BitVec.ofInt 32 ringLog2)).2 = true := by
    refine (readBack_takes (by rw [hpdev, hdev, h.read32]) _ _).mpr ?_
    unfold Bus.TakesRing at htakes ⊢
    rwa [hpregs]
  generalize d₂.readBack ring (BitVec.ofInt 32 ringLog2) = r at htook ⊢
  obtain ⟨d₃, ok⟩ := r
  obtain rfl : ok = true := htook
  rfl

/-- One call that keeps the ring. -/
theorem queueStep_held (h : Held d) {a : QueueCall P} (hk : KeepsRing d a) :
    Held (queueStep d a) := by
  cases a with
  | attach alloc free ringLog2 => exact attach_held h alloc free ringLog2 hk
  | detach =>
    have hdetach : d.detachQueue = d := by
      unfold Driver.detachQueue
      exact if_pos (by simp [show d.dev.queue = false from hk])
    show Held d.detachQueue
    rwa [hdetach]
  | teardown => exact teardown_held h
  | gemm status c => exact gemm_held h status c

/-- An attach that attached, and a detach behind it. -/
theorem detached_breaks {alloc free : Bool} {ringLog2 : ℤ}
    (h : Held (queueStep d (.attach alloc free ringLog2)))
    (hq : (d.attachQueue busHost (givenAlloc alloc) (givenFree free) ringLog2).1.dev.queue = true) :
    (after queueStep d [.attach alloc free ringLog2, .detach]).env.watch.broken = true :=
  detach_breaks h hq

theorem held_start (present link : Bool) (b : Bus) :
    Held (busDriver present link b : Driver Bus P) := by
  refine ⟨rfl, rfl, ?_, rfl, fun _ => rfl, ?_, ?_, ?_⟩
  · intro f hf
    unfold busDriver at hf
    dsimp only at hf
    split at hf
    · exact (Option.some.inj hf).symm
    · cases hf
  all_goals exact fun h => by cases h

/-- Over every sequence of the driver's calls, any module's answers and any platform's: while no ring
that was given to the queue is released, no memory the module may still use is released or written
over. -/
theorem ring_memory_outlives (present link : Bool) (b : Bus) (calls : List (QueueCall P))
    (hk : Along queueStep KeepsRing (busDriver present link b : Driver Bus P) calls) :
    (after queueStep (busDriver present link b : Driver Bus P) calls).env.watch.broken = false := by
  exact (invariant (I := Held) (fun _ _ hh hka => queueStep_held hh hka) hk
    (held_start present link b)).clean

/-- A bus with a queue of one slot that takes its ring and ends every slot done at once. -/
def promptBus : Bus where
  regs n := [0x50545101, 0x100, 1, 0x1000, 0, 0].getD n 1
  words _ := 1
  grants n := (true, ⟨0x1000 * (BitVec.ofNat 64 n + 1), 0x1000 * (BitVec.ofNat 64 n + 1), 0x1000⟩)

/-- A row times a column, each as long as asked. -/
def dotCall (K : ℕ) : Call Unit :=
  { bank := 0, M := 1, N := 1, K := K, A := some (List.replicate K 1), B := some (List.replicate K 1)
    C := some () }

theorem promptBus_ring :
    ((busDriver true false promptBus : Driver Bus Unit).ringFor (givenAlloc true) (givenFree true)
      0).2 = some ⟨0x1000, 0x1000, 0x1000⟩ := by
  decide

theorem promptBus_takes :
    ((busDriver true false promptBus : Driver Bus Unit).ringFor (givenAlloc true) (givenFree true)
      0).1.env.TakesRing ⟨0x1000, 0x1000, 0x1000⟩ (BitVec.ofInt 32 0) := by
  unfold Bus.TakesRing
  decide

theorem promptBus_keeps : KeepsRing (busDriver true false promptBus : Driver Bus Unit)
    (.attach true true 0) := by
  refine ⟨rfl, fun ring h => ?_⟩
  obtain rfl := Option.some.inj (promptBus_ring.symm.trans h)
  exact promptBus_takes

/-- Two GEMMs, the second on a larger staging buffer, and a teardown. -/
theorem ring_memory_outlives_prompt :
    (after queueStep (busDriver true false promptBus : Driver Bus Unit)
      [.attach true true 0, .gemm () (dotCall 1), .gemm () (dotCall 8000), .teardown]).env.watch.broken
        = false :=
  ring_memory_outlives true false promptBus _ ⟨promptBus_keeps, trivial, trivial, trivial, trivial⟩

/-- A detach of the queue gives the ring back after it wrote `PTQ_CTRL`, and does not read
`PTQ_STATUS`. -/
theorem ring_memory_outlives_not_detach :
    (after queueStep (busDriver true false promptBus : Driver Bus Unit)
      [.attach true true 0, .detach]).env.watch.broken = true := by
  have hstart : Held (busDriver true false promptBus : Driver Bus Unit) := held_start true false _
  exact detached_breaks (queueStep_held hstart promptBus_keeps)
    (taken_attaches hstart rfl promptBus_ring promptBus_takes)

end Grxcp.PtaChiplet
