import Grxcp.Pta.Module

/-!
# The host's driver for the chiplet

`pta_chiplet.cpp`: the block's detection, the link, and the queue of the first board's transport. The
driver reaches a chiplet through the hooks it was attached with and through memory, so what stands
behind them is a parameter: `E` is its state, a hook is a function on it, and `Host` is the memory
the driver itself reads and writes. A call returns whether the source's does without an error.
-/

namespace Grxcp.PtaChiplet

open PtaTwin (Cmd CmdStatus)
open PtaModule (Line zeroLine put32 put64 ptqId ptqCaps ptqCtrl ptqStatus ptqBaseLo ptqBaseHi ptqSize
  ptqTail ptqHead dSizeVersion dTarget dFormat dM dK dN dAct dWgt dOut dStatus dIndex)

/-! ## The map -/

def ptaId : U32 := 0x000
def ptaCaps1 : U32 := 0x008
def ptaStatus : U32 := 0x044
def ptaImpair : U32 := 0x048

/-- `PTA_CHIPLET_MAGIC`: "PTA" in `PTA_ID[31:8]`. -/
def magic : U32 := 0x50544100

/-- `PTA_CHIPLET_MAP_VERSION`. -/
def mapVersion : U32 := 1

/-- `PTA_CHIPLET_DEFINED`: every impairment bit the register defines. -/
def defined : U32 := 0x7F

def statusCalBusy : U32 := 0x01
def statusBusy : U32 := 0x10

/-- `PTA_CHIPLET_PTQ_MAGIC`: "PTQ" in `PTQ_ID[31:8]`. -/
def ptqMagic : U32 := 0x50545100
def ptqVersion : U32 := 1
def ptqCapsV1 : U32 := 0x100
def ptqEnable : U32 := 0x1
def ptqEnabled : U32 := 0x1
def ptqHalted : U32 := 0x2

/-- `PTA_CHIPLET_SLOT`. -/
def slotBytes : U64 := 128

/-- `PTA_CHIPLET_LINE`. -/
def lineBytes : U64 := 64

def recDone : U32 := 1
def recRefused : U32 := 2
def recLost : U32 := 3
def recNotIssued : U32 := 4
def recNotRun : U32 := 5

/-- `kMaxPolls`: how often the completion test is asked before a command is called wedged. -/
def kMaxPolls : ℕ := 2 ^ 20

/-- `kQueuePolls`: how often a queued GEMM's record is looked at before the GEMM is called lost. -/
def kQueuePolls : ℕ := 2 ^ 20

/-- `kQuiescePolls`: how many reads of `PTQ_STATUS` a teardown waits for `ENABLED` to clear. -/
def kQuiescePolls : ℕ := 2 ^ 12

/-! ## The data -/

/-- `PTA_CHIPLET_OK` and `PTA_CHIPLET_ERR_*`: why a call failed. -/
inductive Error
  | ok
  | noWindow
  | noLink
  | notPresent
  | notAccepted
  | refused
  | wedged
  | lost
  | format
deriving DecidableEq, Repr

/-- `pta_chiplet_dma_t`: host memory the module can reach. A `cpu` of zero is the null pointer. -/
structure Dma where
  cpu : U64 := 0
  addr : U64 := 0
  bytes : U64 := 0
deriving DecidableEq, Repr

/-- The memory a driver reads and writes itself: the local variable a command's status lands in, the
caller's result buffer, and the bytes of what was allocated. `ld32` is the source's: four volatile
bytes, taken as one access. -/
structure Host (E P : Type) where
  status : E → P → CmdStatus
  setStatus : E → P → CmdStatus → E
  setC : E → P → List ℤ → E
  ld32 : E → U64 → E × U32
  store : E → U64 → BitVec 8 → E

/-- `pta_chiplet_device_t`. A hook that is `none` is a null pointer. -/
structure Device (E P : Type) where
  present : Bool := false
  error : Error := .ok
  refusedImpairments : U32 := 0
  read32 : Option (E → U32 → E × U32) := none
  write32 : Option (E → U32 → U32 → E) := none
  submit : Option (E → Cmd P → E × Bool) := none
  queue : Bool := false
  queueDead : Bool := false
  ringLog2 : U32 := 0
  next : U32 := 0
  ended : U32 := 0
  ring : Dma := {}
  stage : Dma := {}
  dmaAlloc : Option (E → U64 → E × Bool × Dma) := none
  dmaFree : Option (E → Dma → E) := none
  lastIndex : ℤ := 0

/-- The arguments of `pta_chiplet_gemm`. -/
structure Call (P : Type) where
  bank : ℤ
  M : ℤ
  N : ℤ
  K : ℤ
  A : Option (List ℤ)
  B : Option (List ℤ)
  C : Option P

/-- The command the link is given for a call, with the address of the call's local variable. -/
def Call.cmd {P : Type} (c : Call P) (status : P) : Cmd P :=
  { bank := c.bank, M := c.M, N := c.N, K := c.K, A := c.A, B := c.B, C := c.C, status := some status }

/-- A driver and what stands behind its hooks. -/
structure Driver (E P : Type) where
  dev : Device E P
  env : E

variable {E P : Type} (host : Host E P)

/-- `has_window`. -/
def Device.hasWindow (dev : Device E P) : Bool :=
  dev.read32.isSome

/-- `rd`. -/
def Driver.rd (d : Driver E P) (off : U32) : Driver E P × U32 :=
  match d.dev.read32 with
  | none => (d, 0)
  | some read32 => ({ d with env := (read32 d.env off).1 }, (read32 d.env off).2)

/-- `wr`. -/
def Driver.wr (d : Driver E P) (off v : U32) : Driver E P :=
  match d.dev.write32 with
  | none => d
  | some write32 => { d with env := write32 d.env off v }

/-- `dev->error = error; return -1;`. -/
def Driver.fail (d : Driver E P) (error : Error) : Driver E P × Bool :=
  ({ d with dev := { d.dev with error := error } }, false)

/-- `dev->dma_free(dev->dma_ctx, buf)`. -/
def Driver.free (d : Driver E P) (buf : Dma) : Driver E P :=
  match d.dev.dmaFree with
  | none => d
  | some free => { d with env := free d.env buf }

/-! ## Memory -/

/-- A word of the memory. -/
def Driver.ld32 (d : Driver E P) (p : U64) : Driver E P × U32 :=
  ({ d with env := (host.ld32 d.env p).1 }, (host.ld32 d.env p).2)

/-- The words of a buffer, one after the other. -/
def Driver.ldWords : (words : ℕ) → (p : U64) → Driver E P → Driver E P × List U32
  | 0, _, d => (d, [])
  | words + 1, p, d =>
      let (d, v) := d.ld32 host p
      let (d, vs) := d.ldWords words (p + 4)
      (d, v :: vs)

/-- The bytes of a list, stored one after the other from an address on. -/
def storeBytes : List (BitVec 8) → U64 → E → E
  | [], _, e => e
  | b :: bs, p, e => storeBytes bs (p + 1) (host.store e p b)

/-- `round_line`. -/
def roundLine (n : U64) : U64 :=
  (n + lineBytes - 1) / lineBytes * lineBytes

/-- `slot_of`. -/
def Device.slotOf (dev : Device E P) (idx : U32) : U64 :=
  dev.ring.cpu +
    (idx &&& (((1 : U32) <<< dev.ringLog2.toNat) - 1)).zeroExtend 64 * slotBytes

/-- `slot_status`. -/
def Driver.slotStatus (d : Driver E P) (idx : U32) : Driver E P × U32 :=
  d.ld32 host (d.dev.slotOf idx + BitVec.ofNat 64 dStatus)

/-- The four bytes of a word, the lowest first. -/
def wordBytes (v : U32) : List (BitVec 8) :=
  [v.truncate 8, (v >>> 8).truncate 8, (v >>> 16).truncate 8, (v >>> 24).truncate 8]

/-- `store_status`. -/
def Driver.storeStatus (d : Driver E P) (idx : U32) (st : U32) : Driver E P :=
  { d with env := storeBytes host (wordBytes st) (d.dev.slotOf idx + BitVec.ofNat 64 dStatus) d.env }

/-! ## Attaching and detecting -/

/-- `pta_chiplet_attach_window`. -/
def Driver.attachWindow (d : Driver E P) (read32 : Option (E → U32 → E × U32))
    (write32 : Option (E → U32 → U32 → E)) : Driver E P :=
  { d with dev := { read32, write32 } }

/-- `pta_chiplet_attach_link`. -/
def Driver.attachLink (d : Driver E P) (submit : Option (E → Cmd P → E × Bool)) : Driver E P :=
  { d with dev := { d.dev with submit } }

/-- `pta_chiplet_detect`. -/
def Driver.detect (d : Driver E P) : Driver E P × Bool :=
  let d := { d with dev := { d.dev with present := false } }
  if !d.dev.hasWindow then d.fail .noWindow
  else
    let (d, id) := d.rd ptaId
    if id &&& 0xFFFFFF00 ≠ magic ∨ id &&& 0xFF ≠ mapVersion then d.fail .notPresent
    else
      let (d, caps1) := d.rd ptaCaps1
      if caps1 &&& defined = 0 then d.fail .notPresent
      else ({ d with dev := { d.dev with present := true, error := .ok } }, true)

/-- `pta_chiplet_idle`, with a window: one read of `PTA_STATUS` showing neither `BUSY` nor
`CAL_BUSY`. -/
def Driver.idle (d : Driver E P) : Driver E P × Bool :=
  let (d, status) := d.rd ptaStatus
  (d, status &&& (statusBusy ||| statusCalBusy) == 0)

/-- The loop of `wait_idle`, with a number of polls to go: whether one of them saw the chiplet
idle. -/
def Driver.waitIdle : ℕ → Driver E P → Driver E P × Bool
  | 0, d => (d, false)
  | polls + 1, d =>
      match d.idle with
      | (d, true) => (d, true)
      | (d, false) => d.waitIdle polls

/-! ## The queue -/

/-- `pta_chiplet_detach_queue`. -/
def Driver.detachQueue (d : Driver E P) : Driver E P :=
  if !d.dev.queue then d
  else
    let d := d.wr ptqCtrl 0
    let d := if d.dev.stage.cpu ≠ 0 then d.free d.dev.stage else d
    let d := d.free d.dev.ring
    { d with dev := { d.dev with stage := {}, ring := {}, queue := false } }

/-- The ring is programmed and the queue enabled. -/
def Driver.program (d : Driver E P) (ring : Dma) (ringLog2 : U32) : Driver E P :=
  let d := d.wr ptqCtrl 0
  let d := d.wr ptqBaseLo (ring.addr.truncate 32)
  let d := d.wr ptqBaseHi ((ring.addr >>> 32).truncate 32)
  let d := d.wr ptqSize ringLog2
  let d := d.wr ptqTail 0
  d.wr ptqCtrl ptqEnable

/-- And read back, one register after the other until one is not what it should be. -/
def Driver.readBack (d : Driver E P) (ring : Dma) (ringLog2 : U32) : Driver E P × Bool :=
  let (d, status) := d.rd ptqStatus
  if status &&& ptqEnabled = 0 then (d, false)
  else
    let (d, lo) := d.rd ptqBaseLo
    if lo ≠ ring.addr.truncate 32 then (d, false)
    else
      let (d, hi) := d.rd ptqBaseHi
      if hi ≠ (ring.addr >>> 32).truncate 32 then (d, false)
      else
        let (d, size) := d.rd ptqSize
        (d, size == ringLog2)

/-- The first half of `pta_chiplet_attach_queue`: a queue this driver knows, and memory for its
ring. -/
def Driver.ringFor (d : Driver E P) (alloc : Option (E → U64 → E × Bool × Dma))
    (free : Option (E → Dma → E)) (ringLog2 : ℤ) : Driver E P × Option Dma :=
  let (d, id) := d.rd ptqId
  let (d, caps) := d.rd ptqCaps
  match alloc, free with
  | some alloc, some free =>
      if id &&& 0xFFFFFF00 ≠ ptqMagic ∨ id &&& 0xFF ≠ ptqVersion ∨ caps &&& ptqCapsV1 = 0 ∨
          ringLog2 < 0 ∨ caps &&& 0x1F < BitVec.ofInt 32 ringLog2 then (d, none)
      else
        let bytes : U64 := slotBytes <<< ringLog2.toNat
        let (env, ok, ring) := alloc d.env bytes
        let d := { d with env := env }
        if !ok ∨ ring.cpu = 0 ∨ ring.bytes < bytes ∨ ring.addr &&& 0xFFF ≠ 0 then
          (if ring.cpu ≠ 0 then { d with env := free d.env ring } else d, none)
        else (d, some ring)
  | _, _ => (d, none)

/-- The second half: a ring of zeros is given to the queue, and a queue that did not take it is no
queue. -/
def Driver.giveRing (d : Driver E P) (alloc : Option (E → U64 → E × Bool × Dma))
    (free : Option (E → Dma → E)) (ringLog2 : U32) (ring : Dma) : Driver E P × Bool :=
  let env := storeBytes host (List.replicate ring.bytes.toNat 0) ring.cpu d.env
  let d := Driver.program { d with env := env } ring ringLog2
  match d.readBack ring ringLog2 with
  | (d, false) =>
      let d := d.wr ptqCtrl 0
      let d := match free with
        | none => d
        | some free => { d with env := free d.env ring }
      d.fail .noLink
  | (d, true) =>
      ({ d with dev := { d.dev with
          queue := true
          queueDead := false
          ringLog2 := ringLog2
          next := 0
          ended := 0
          ring := ring
          stage := {}
          dmaAlloc := alloc
          dmaFree := free
          lastIndex := -1
          error := .ok } }, true)

/-- `pta_chiplet_attach_queue`. -/
def Driver.attachQueue (d : Driver E P) (alloc : Option (E → U64 → E × Bool × Dma))
    (free : Option (E → Dma → E)) (ringLog2 : ℤ) : Driver E P × Bool :=
  if !d.dev.hasWindow then d.fail .noWindow
  else
    match d.detachQueue.ringFor alloc free ringLog2 with
    | (d, none) => d.fail .noLink
    | (d, some ring) => d.giveRing host alloc free (BitVec.ofInt 32 ringLog2) ring

/-- The loop of a teardown's first step: whether `PTQ_STATUS` was seen without `ENABLED`. -/
def Driver.quiesce : ℕ → Driver E P → Driver E P × Bool
  | 0, d => (d, false)
  | polls + 1, d =>
      let (d, status) := d.rd ptqStatus
      if status &&& ptqEnabled = 0 then (d, true) else d.quiesce polls

/-- The loop of its second step: the slots from `idx` on that are still pending end lost. -/
def Driver.endLost : (slots : ℕ) → (idx : U32) → Driver E P → Driver E P
  | 0, _, d => d
  | slots + 1, idx, d =>
      let (d, st) := d.slotStatus host idx
      let d := if st = 0 then d.storeStatus host idx recLost else d
      d.endLost slots (idx + 1)

/-- `pta_chiplet_queue_teardown`. -/
def Driver.teardown (d : Driver E P) : Driver E P × Bool :=
  if !d.dev.queue || d.dev.queueDead then (d, false)
  else
    let d := d.wr ptqCtrl 0
    match d.quiesce kQuiescePolls with
    | (d, false) => ({ d with dev := { d.dev with queueDead := true } }, false)
    | (d, true) =>
        let (d, head) := d.rd ptqHead
        -- a head that is not among the driver's slots is not believed
        let idx := if d.dev.next - d.dev.ended < head - d.dev.ended then d.dev.ended else head
        let d := d.endLost host (d.dev.next - idx).toNat idx
        let d := d.wr ptqTail d.dev.next
        (d.wr ptqCtrl ptqEnable, true)

/-! ## A GEMM through the queue -/

/-- The staging buffer's three parts: where the weights and the results start, and its end. -/
structure Layout where
  w : U64
  c : U64
  bytes : U64

/-- The layout of `na` activations, `nb` weights and `nc` results, each from a line. -/
def layout (na nb nc : U64) : Layout :=
  let w := roundLine na
  let c := w + roundLine nb
  { w, c, bytes := c + roundLine (nc * 4) }

/-- The staging buffer, grown if it is too small for what is asked: whether there is one. -/
def Driver.stageFor (d : Driver E P) (bytes : U64) : Driver E P × Bool :=
  if ¬d.dev.stage.bytes < bytes then (d, true)
  else
    let d := if d.dev.stage.cpu ≠ 0 then d.free d.dev.stage else d
    let d := { d with dev := { d.dev with stage := {} } }
    match d.dev.dmaAlloc with
    | none => (d, false)
    | some alloc =>
        let (env, ok, stage) := alloc d.env bytes
        let d := { d with env := env, dev := { d.dev with stage := stage } }
        if !ok ∨ stage.cpu = 0 ∨ stage.bytes < bytes ∨ stage.addr.toNat % 64 ≠ 0 then
          let d := if stage.cpu ≠ 0 then d.free stage else d
          ({ d with dev := { d.dev with stage := {} } }, false)
        else (d, true)

/-- The descriptor, version 1, with a status of zero. -/
def descriptor (c : Call P) (stage : U64) (l : Layout) : Line :=
  let line := put32 zeroLine dSizeVersion (((1 : U32) <<< 16) ||| 64)
  let line := put32 line dTarget (BitVec.ofInt 32 c.bank <<< 8)
  let line := put32 line dFormat 0
  let line := put32 line dM (BitVec.ofInt 32 c.M)
  let line := put32 line dK (BitVec.ofInt 32 c.K)
  let line := put32 line dN (BitVec.ofInt 32 c.N)
  let line := put64 line dAct stage
  let line := put64 line dWgt (stage + l.w)
  put64 line dOut (stage + l.c)

/-- The loop that looks at a slot's record: its status, or zero when the queue halted or the polls
are spent. -/
def Driver.pollSlot (slot : U64) : ℕ → Driver E P → Driver E P × U32
  | 0, d => (d, 0)
  | polls + 1, d =>
      let (d, st) := d.ld32 host (slot + BitVec.ofNat 64 dStatus)
      if st ≠ 0 then (d, st)
      else
        let (d, status) := d.rd ptqStatus
        if status &&& ptqHalted ≠ 0 then (d, 0) else d.pollSlot slot polls

/-- Operands and descriptor are in memory, and the doorbell rings. -/
def Driver.publish (d : Driver E P) (c : Call P) (A B : List ℤ) (l : Layout) : Driver E P :=
  let stage := d.dev.stage
  let env := storeBytes host (A.map (BitVec.ofInt 8)) stage.cpu d.env
  let env := storeBytes host (B.map (BitVec.ofInt 8)) (stage.cpu + l.w) env
  let slot := d.dev.slotOf d.dev.next
  let env := storeBytes host (descriptor c stage.addr l).toList slot env
  let d := { d with env := env, dev := { d.dev with next := d.dev.next + 1 } }
  d.wr ptqTail d.dev.next

/-- What a record's status makes of the call. -/
def Driver.conclude (d : Driver E P) (C : P) (nc : U64) (l : Layout) (slot : U64) (st : U32) :
    Driver E P × Bool :=
  if st = recDone then
    let (d, out) := d.ldWords host nc.toNat (d.dev.stage.cpu + l.c)
    let env := host.setC d.env C (out.map BitVec.toInt)
    let (d, index) := Driver.ld32 host { d with env := env } (slot + BitVec.ofNat 64 dIndex)
    ({ d with dev := { d.dev with lastIndex := index.toNat, error := .ok } }, true)
  else if st = recRefused then
    let (d, impair) := d.rd ptaImpair
    let (d, caps1) := d.rd ptaCaps1
    let d := { d with dev := { d.dev with
      refusedImpairments := impair &&& defined &&& ~~~caps1 } }
    d.fail .refused
  else if st = recNotIssued ∨ st = recNotRun then d.fail .notAccepted
  else d.fail .lost

/-- `queue_gemm` from the doorbell on: wait for the record, tear the queue down if none comes, and
conclude. -/
def Driver.await (d : Driver E P) (C : P) (nc : U64) (l : Layout) (slot : U64) : Driver E P × Bool :=
  match d.pollSlot host slot kQueuePolls with
  | (d, st) =>
      if st ≠ 0 then
        Driver.conclude host { d with dev := { d.dev with ended := d.dev.next } } C nc l slot st
      else
        match d.teardown host with
        | (d, false) =>
            Driver.fail { d with dev := { d.dev with ended := d.dev.next } } .wedged
        | (d, true) =>
            let (d, st) := d.ld32 host (slot + BitVec.ofNat 64 dStatus)
            Driver.conclude host { d with dev := { d.dev with ended := d.dev.next } } C nc l slot st

/-- An operand that format 0 holds. -/
def fits (v : ℤ) : Bool :=
  -128 ≤ v && v ≤ 127

/-- `queue_gemm`. -/
def Driver.queueGemm (d : Driver E P) (c : Call P) : Driver E P × Bool :=
  if d.dev.queueDead then d.fail .wedged
  else if c.M ≤ 0 ∨ c.N ≤ 0 ∨ c.K ≤ 0 ∨ c.bank < 0 ∨ 0xFF < c.bank then d.fail .notAccepted
  else
    match c.A, c.B, c.C with
    | some A, some B, some C =>
        let na : U64 := BitVec.ofInt 64 c.M * BitVec.ofInt 64 c.K
        let nb : U64 := BitVec.ofInt 64 c.K * BitVec.ofInt 64 c.N
        let nc : U64 := BitVec.ofInt 64 c.M * BitVec.ofInt 64 c.N
        let A := A.take na.toNat
        let B := B.take nb.toNat
        if !(A.all fits && B.all fits) then d.fail .format
        else if (1 : U32) <<< d.dev.ringLog2.toNat ≤ d.dev.next - d.dev.ended then
          d.fail .notAccepted
        else
          let l := layout na nb nc
          match d.stageFor l.bytes with
          | (d, false) => d.fail .notAccepted
          | (d, true) =>
              let slot := d.dev.slotOf d.dev.next
              (d.publish host c A B l).await host C nc l slot
    | _, _, _ => d.fail .notAccepted

/-! ## A GEMM through the link -/

/-- The end of `pta_chiplet_gemm`: how the command of the link ended, as its status says. -/
def Driver.linkEnded (d : Driver E P) (status : CmdStatus) : Driver E P × Bool :=
  match status with
  | .done => ({ d with dev := { d.dev with error := .ok } }, true)
  | .refused =>
      let (d, impair) := d.rd ptaImpair
      let (d, caps1) := d.rd ptaCaps1
      let d := { d with dev := { d.dev with
        refusedImpairments := impair &&& defined &&& ~~~caps1 } }
      d.fail .refused
  | _ => d.fail .lost

/-- `pta_chiplet_gemm` once the link has taken its command: wait for it, and look at its status. -/
def Driver.linkWait (d : Driver E P) (status : P) : Driver E P × Bool :=
  match d.waitIdle kMaxPolls with
  | (d, false) => d.fail .wedged
  | (d, true) => d.linkEnded (host.status d.env status)

/-- `pta_chiplet_gemm`, once it is known that there is a link. `status` is the address of the local
variable the command reports to. -/
def Driver.linkGemm (d : Driver E P) (submit : E → Cmd P → E × Bool) (status : P) (c : Call P) :
    Driver E P × Bool :=
  match d.waitIdle kMaxPolls with
  | (d, false) => d.fail .wedged
  | (d, true) =>
      match submit (host.setStatus d.env status .pending) (c.cmd status) with
      | (env, false) => Driver.fail { d with env := env } .notAccepted
      | (env, true) => Driver.linkWait host { d with env := env } status

/-- `pta_chiplet_gemm`. -/
def Driver.gemm (d : Driver E P) (status : P) (c : Call P) : Driver E P × Bool :=
  let d := { d with dev := { d.dev with refusedImpairments := 0, lastIndex := -1 } }
  if !d.dev.hasWindow then d.fail .noWindow
  else if !d.dev.present then d.fail .notPresent
  else if d.dev.queue then d.queueGemm host c
  else
    match d.dev.submit with
    | none => d.fail .noLink
    | some submit => d.linkGemm host submit status c

end Grxcp.PtaChiplet
