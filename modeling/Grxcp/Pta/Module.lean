import Grxcp.Pta.TwinQueue

/-!
# The first board's PTA module

`pta_chiplet_module.c`: the transport's queue, a ring of descriptors in host memory, in front of the
chiplet's twin. Every function takes the module and returns it, with the tile and the host behind
it.

The module keeps a trace of what it does to the outside: the lines it reads and writes, the moves of
`PTQ_HEAD`, the interrupts and the commands it hands to the tile. Slots are numbered in the order
they are taken, over the module's whole life; the number stands for the address of a command's
result buffer, which no other command's has while it is in use.
-/

namespace Grxcp.PtaModule

open PtaTwin

/-! ## The map -/

/-- `PTA_MODULE_PTQ`: page 1, the queue. -/
def ptq : U32 := 0x1000
def ptqId : U32 := 0x1000
def ptqCaps : U32 := 0x1004
def ptqCtrl : U32 := 0x1008
def ptqStatus : U32 := 0x100C
def ptqBaseLo : U32 := 0x1010
def ptqBaseHi : U32 := 0x1014
def ptqSize : U32 := 0x1018
def ptqTail : U32 := 0x1020
def ptqHead : U32 := 0x1024
def ptqIrqAt : U32 := 0x1028
def ptqFaultAt : U32 := 0x102C

def ptqIdValue : U32 := 0x50545101
def ringLog2Max : U32 := 10
def vectors : U32 := 2

/-- `PTA_MODULE_CAPS_VALUE`. -/
def capsValue : U32 :=
  ringLog2Max ||| ((1 : U32) <<< 8) ||| (vectors <<< 12)

def ctrlEnable : U32 := 0x1
def ctrlIrqEn : U32 := 0x2
def statusHalted : U32 := 0x2

/-- `PTA_MODULE_HALT_DOORBELL` and `PTA_MODULE_HALT_MEMORY`: why the queue halted. -/
def haltDoorbell : U32 := 1
def haltMemory : U32 := 2

/-- `PTA_MODULE_LINE`. -/
def lineBytes : ℕ := 64

/-- `PTA_MODULE_SLOT`. -/
def slotBytes : ℕ := 128

/-- The offsets of a version 1 descriptor, from `PTA_MODULE_D_SIZE_VERSION` on. -/
def dSizeVersion : ℕ := 0x00
def dTarget : ℕ := 0x04
def dFormat : ℕ := 0x08
def dM : ℕ := 0x0C
def dK : ℕ := 0x10
def dN : ℕ := 0x14
def dAct : ℕ := 0x18
def dWgt : ℕ := 0x20
def dOut : ℕ := 0x28
def dStatus : ℕ := 0x30
def dIndex : ℕ := 0x34
def dSats : ℕ := 0x38

/-- `PTA_MODULE_V1`. -/
def v1 : U32 := ((1 : U32) <<< 16) ||| 64

/-- `PTA_MODULE_AFTER_SUCCESS`. -/
def afterSuccess : U32 := 0x00010000

/-- `PTA_MODULE_NO_INDEX`. -/
def noIndex : U32 := 0xFFFFFFFF

/-- `PTA_MODULE_ELEM_MAX`. -/
def elemMax : ℕ := 2 ^ 24

/-- How a slot ended, as its record says. -/
inductive RecordStatus
  | done
  | refused
  | lost
  | notIssued
  | notRun
deriving DecidableEq, Repr

/-- The word of the record. -/
def RecordStatus.word : RecordStatus → U32
  | .done => 1
  | .refused => 2
  | .lost => 3
  | .notIssued => 4
  | .notRun => 5

/-! ## Little-endian bytes -/

/-- A line of host memory. -/
abbrev Line := Vector (BitVec 8) 64

/-- A line of zeros. -/
def zeroLine : Line := Vector.replicate 64 0

/-- `get32`. -/
def get32 (line : Line) (p : ℕ) : U32 :=
  (line.getD p 0).zeroExtend 32 ||| ((line.getD (p + 1) 0).zeroExtend 32 <<< 8) |||
    ((line.getD (p + 2) 0).zeroExtend 32 <<< 16) ||| ((line.getD (p + 3) 0).zeroExtend 32 <<< 24)

/-- `get64`. -/
def get64 (line : Line) (p : ℕ) : U64 :=
  (get32 line p).zeroExtend 64 ||| ((get32 line (p + 4)).zeroExtend 64 <<< 32)

/-- `put32`. -/
def put32 (line : Line) (p : ℕ) (v : U32) : Line :=
  (((line.setIfInBounds p (v.truncate 8)).setIfInBounds (p + 1) ((v >>> 8).truncate 8)).setIfInBounds
    (p + 2) ((v >>> 16).truncate 8)).setIfInBounds (p + 3) ((v >>> 24).truncate 8)

/-- `put64`. -/
def put64 (line : Line) (p : ℕ) (v : U64) : Line :=
  put32 (put32 line p (v.truncate 32)) (p + 4) ((v >>> 32).truncate 32)

/-- `lines_of`. -/
def linesOf (bytes : ℕ) : ℕ :=
  (bytes + lineBytes - 1) / lineBytes

/-! ## The module and the host -/

/-- The addresses a command may carry: the module's own, or those of another submitter of the
tile's. -/
inductive Ptr
  | status
  | sats
  | results (n : ℕ)
  | foreign (a : ℕ)
deriving DecidableEq, Repr

/-- `inflight_t`. `n` is the number of the slot and stands for the address of `C`, and `C` is what
that buffer holds. -/
structure Inflight where
  live : Bool := false
  orphan : Bool := false
  idx : U32 := 0
  desc : Line := zeroLine
  M : U32 := 0
  N : U32 := 0
  out : U64 := 0
  index : U32 := 0
  n : ℕ := 0
  C : List ℤ := []
  status : CmdStatus := .pending
  sats : ℤ := 0

/-- One thing the module did to the outside. -/
inductive Event
  | enable (head : U32)
  | disable
  | reset
  | read (addr : U64) (ok : Bool)
  | result (n : ℕ) (addr : U64) (line : Line) (ok : Bool)
  | record (n : ℕ) (addr : U64) (line : Line) (ok : Bool)
  | head (h : U32)
  | msi (vector : ℕ)
  | handed (n : ℕ) (inTile : List ℕ)
deriving DecidableEq

/-- The host behind `pta_module_host`, as the module sees it: a state, and what each call does to it.
The process' `malloc` is one of the calls. `msi` may be missing. -/
structure Host (σ : Type) where
  readLine : σ → U64 → σ × Option Line
  writeLine : σ → U64 → Line → σ × Bool
  msi : Option (σ → ℕ → σ)
  malloc : σ → σ × Bool

/-- `struct pta_module`, with the tile and the host it points to, the number of slots taken and the
trace. -/
structure Module (Dev σ : Type) where
  tile : Twin Dev Ptr
  host : σ
  enable : Bool := false
  irqEn : Bool := false
  enabled : Bool := false
  baseLo : U32 := 0
  baseHi : U32 := 0
  sizeLog2 : U32 := 0
  tail : U32 := 0
  head : U32 := 0
  irqAt : U32 := 0
  faultAt : U32 := 0
  halted : U32 := 0
  prev : Option RecordStatus := none
  irqLevel : Bool := false
  cur : Inflight := {}
  taken : ℕ := 0
  trace : List Event := []

variable {Dev σ : Type} (h : Host σ) (k : TileKernel Dev)

/-- The number of slots of the ring. -/
def Module.ringSize (m : Module Dev σ) : U32 :=
  (1 : U32) <<< m.sizeLog2.toNat

/-- `slot_addr`. -/
def Module.slotAddr (m : Module Dev σ) (idx : U32) : U64 :=
  ((m.baseHi.zeroExtend 64 <<< 32) ||| (m.baseLo &&& ~~~0xFFF).zeroExtend 64) +
    (idx &&& (m.ringSize - 1)).zeroExtend 64 * BitVec.ofNat 64 slotBytes

/-- One more event of the trace. -/
def Module.emit (m : Module Dev σ) (e : Event) : Module Dev σ :=
  { m with trace := m.trace ++ [e] }

/-- A call of the host's `read_line`. -/
def Module.readLine (m : Module Dev σ) (addr : U64) : Module Dev σ × Option Line :=
  match h.readLine m.host addr with
  | (s, line) => ({ m with host := s }.emit (.read addr line.isSome), line)

/-- A call of the host's `malloc`. -/
def Module.malloc (m : Module Dev σ) : Module Dev σ × Bool :=
  match h.malloc m.host with
  | (s, ok) => ({ m with host := s }, ok)

/-- A call of the host's `msi`, if it has one. -/
def Module.raise (m : Module Dev σ) (vector : ℕ) : Module Dev σ :=
  match h.msi with
  | none => m
  | some msi => { m with host := msi m.host vector }.emit (.msi vector)

/-- `halt`. -/
def Module.halt (m : Module Dev σ) (why : U32) : Module Dev σ :=
  { m with halted := why, faultAt := m.head }

/-! ## The tile's writes -/

/-- The number of a command of the module's own. -/
def ownNumber (c : Cmd Ptr) : Option ℕ :=
  match c.C with
  | some (.results n) => some n
  | _ => none

/-- The numbers of the module's own commands that the tile has taken and not ended. -/
def inTile (t : Twin Dev Ptr) : List ℕ :=
  (accepted t).filterMap ownNumber

/-- One write of the tile's, where it falls in the module. -/
def Inflight.store (f : Inflight) : Store Ptr → Inflight
  | .result (.results n) out => if f.n = n then { f with C := out } else f
  | .sats .sats n => { f with sats := n }
  | .status .status s => { f with status := s }
  | _ => f

/-- What an operation of the tile's does to the module: the tile moves on, and the commands it ended
are written out. -/
def Module.tileMoved (m : Module Dev σ) (r : Twin Dev Ptr × List (Ending Ptr)) : Module Dev σ :=
  { m with tile := r.1, cur := (r.2.flatMap Ending.stores).foldl Inflight.store m.cur }

/-! ## Ending a slot -/

/-- The record: line 0 of the slot, the host's fields as they were read and the module's own. -/
def recordLine (desc : Line) (status : RecordStatus) (index : U32) (sats : U64) : Line :=
  put64 (put32 (put32 desc dStatus status.word) dIndex index) dSats sats

/-- `record`: the slot's line, then `PTQ_HEAD`, then the interrupt. `n` is the slot's number. -/
def Module.record (m : Module Dev σ) (n : ℕ) (idx : U32) (desc : Line) (status : RecordStatus)
    (index : U32) (sats : U64) : Module Dev σ :=
  let line := recordLine desc status index sats
  match h.writeLine m.host (m.slotAddr idx) line with
  | (s, ok) =>
      let m := { m with host := s }.emit (.record n (m.slotAddr idx) line ok)
      if !ok then m.halt haltMemory
      else
        let m := { m with head := idx + 1, prev := some status }.emit (.head (idx + 1))
        if m.irqEn && m.head == m.irqAt then m.raise h 0 else m

/-- The sixteen results of line `i`: the low 32 bits of each sum, and the pad as zeros. -/
def resultLine (C : List ℤ) (count i : ℕ) : Line :=
  (List.range 16).foldl
    (fun line e =>
      if i * 16 + e < count then
        put32 line (e * 4) ((BitVec.ofInt 64 (C.getD (i * 16 + e) 0)).truncate 32)
      else line)
    zeroLine

/-- The address of line `i` of a buffer. -/
def lineAddr (base : U64) (i : ℕ) : U64 :=
  base + BitVec.ofNat 64 i * BitVec.ofNat 64 lineBytes

/-- The results of a command. -/
def Inflight.count (f : Inflight) : ℕ :=
  f.M.toNat * f.N.toNat

/-- The loop of `write_results`, with `left` lines to go from line `i`: whether all were written. -/
def writeLines (f : Inflight) : (left i : ℕ) → Module Dev σ → Module Dev σ × Bool
  | 0, _, m => (m, true)
  | left + 1, i, m =>
      let line := resultLine f.C f.count i
      match h.writeLine m.host (lineAddr f.out i) line with
      | (s, ok) =>
          let m := { m with host := s }.emit (.result f.n (lineAddr f.out i) line ok)
          if ok then writeLines f left (i + 1) m else (m, false)

/-- `write_results`. -/
def writeResults (f : Inflight) (m : Module Dev σ) : Module Dev σ × Bool :=
  writeLines h f (linesOf (f.count * 4)) 0 m

/-- `drop`. -/
def Module.drop (m : Module Dev σ) : Module Dev σ :=
  { m with cur := {} }

/-- `finish`: the tile has ended the command in flight. -/
def Module.finish (m : Module Dev σ) : Module Dev σ :=
  let f := m.cur
  if !f.live ∨ f.status = .pending then m
  else if f.orphan then m.drop
  else
    let m :=
      match f.status with
      | .done =>
          match writeResults h f m with
          | (m, false) => m.halt haltMemory
          | (m, true) => m.record h f.n f.idx f.desc .done f.index (BitVec.ofInt 64 f.sats)
      | .refused => m.record h f.n f.idx f.desc .refused noIndex 0
      | _ => m.record h f.n f.idx f.desc .lost noIndex 0
    m.drop

/-! ## Taking a slot -/

/-- The loop of `read_operands`, with `left` lines to go from line `i`. -/
def readLines (addr : U64) : (left i : ℕ) → Module Dev σ → Module Dev σ × Option (List ℤ)
  | 0, _, m => (m, some [])
  | left + 1, i, m =>
      match m.readLine h (lineAddr addr i) with
      | (m, none) => (m, none)
      | (m, some line) =>
          match readLines addr left (i + 1) m with
          | (m, none) => (m, none)
          | (m, some rest) => (m, some (line.toList.map BitVec.toInt ++ rest))

/-- `read_operands`. -/
def readOperands (addr : U64) (count : ℕ) (m : Module Dev σ) : Module Dev σ × Option (List ℤ) :=
  match readLines h addr (linesOf count) 0 m with
  | (m, ops) => (m, ops.map (·.take count))

/-- The flags of a descriptor's target word. -/
def descFlags (d : Line) : U32 :=
  get32 d dTarget &&& 0xFFFF0000

/-- What the module cannot use, decided before the tile sees it. -/
def unusable (d : Line) : Bool :=
  let M := (get32 d dM).toNat
  let K := (get32 d dK).toNat
  let N := (get32 d dN).toNat
  get32 d dSizeVersion != v1 || get32 d dFormat != 0 || get32 d dTarget &&& 0xFF != 0 ||
    descFlags d &&& ~~~afterSuccess != 0 || M == 0 || K == 0 || N == 0 ||
    (get64 d dAct ||| get64 d dWgt ||| get64 d dOut).toNat % lineBytes != 0 ||
    elemMax < M * K || elemMax < K * N || elemMax < M * N

/-- It asked to follow a success, and the command before it did not end done. -/
def notRun (d : Line) (prev : Option RecordStatus) : Bool :=
  descFlags d &&& afterSuccess != 0 && prev.any (· != .done)

/-- The module's command for a descriptor, with the operands it read. -/
def tileCmd (d : Line) (n : ℕ) (A B : List ℤ) : Cmd Ptr :=
  { bank := ((get32 d dTarget >>> 8) &&& 0xFF).toNat
    M := (get32 d dM).toNat
    N := (get32 d dN).toNat
    K := (get32 d dK).toNat
    A := some A
    B := some B
    C := some (.results n)
    status := some .status
    sats := some .sats }

/-- The end of `take`: hand the command to the tile, and end the slot if the tile has no place for
it. -/
def Module.submit (m : Module Dev σ) (n : ℕ) (idx : U32) (d : Line) (A B : List ℤ) :
    Module Dev σ :=
  match read32 m.tile 0x018 with
  | (tile, index) =>
      let f : Inflight :=
        { idx, desc := d, M := get32 d dM, N := get32 d dN, out := get64 d dOut, index, n }
      let m := { m with cur := f, tile }.emit (.handed n (inTile tile))
      match PtaTwin.submit k tile (tileCmd d n A B) with
      | (accepted, r) =>
          let m := m.tileMoved r
          if accepted then { m with cur := { m.cur with live := true } }
          else m.drop.record h n idx d .notIssued noIndex 0

/-- `take`: read the slot at `PTQ_HEAD`, decide, and end it or hand it to the tile. -/
def Module.take (m : Module Dev σ) : Module Dev σ :=
  let idx := m.head
  let n := m.taken
  let m := { m with taken := m.taken + 1 }
  match m.readLine h (m.slotAddr idx) with
  | (m, none) => m.halt haltMemory
  | (m, some d) =>
      if unusable d then m.record h n idx d .notIssued noIndex 0
      else if notRun d m.prev then m.record h n idx d .notRun noIndex 0
      else
        let (m, okA) := m.malloc h
        let (m, okB) := m.malloc h
        let (m, okC) := m.malloc h
        if !(okA && okB && okC) then m.record h n idx d .notIssued noIndex 0
        else
          match readOperands h (get64 d dWgt) ((get32 d dK).toNat * (get32 d dN).toNat) m with
          | (m, none) => m.halt haltMemory
          | (m, some B) =>
              match readOperands h (get64 d dAct) ((get32 d dM).toNat * (get32 d dK).toNat) m with
              | (m, none) => m.halt haltMemory
              | (m, some A) => m.submit h k n idx d A B

/-! ## Everything that can happen now -/

/-- `irq_edge`: vector 1 on a rising edge of the tile's line. -/
def Module.irqEdge (m : Module Dev σ) : Module Dev σ :=
  let level := irq m.tile
  let m := if level && !m.irqLevel then m.raise h 1 else m
  { m with irqLevel := level }

/-- The loop of `service`: end what the tile has ended, then take slots until one is in the tile or
none is left. -/
def serviceLoop : ℕ → Module Dev σ → Module Dev σ
  | 0, m => m
  | fuel + 1, m =>
      if m.cur.live then
        let m := m.finish h
        if m.cur.live then m else serviceLoop fuel m
      else if !m.enable ∨ m.halted ≠ 0 ∨ m.head = m.tail then m
      else serviceLoop fuel (m.take h k)

/-- The turns the loop can take: two for each slot of the ring, one for an orphan and the last. -/
def Module.serviceFuel (m : Module Dev σ) : ℕ :=
  2 * (m.tail - m.head).toNat + 2

/-- `service`. -/
def Module.service (m : Module Dev σ) : Module Dev σ :=
  (serviceLoop h k m.serviceFuel m).irqEdge h

/-! ## The BAR -/

/-- The words of page 1. -/
def Module.ptqWord (m : Module Dev σ) (off : U32) : U32 :=
  if off = ptqId then ptqIdValue
  else if off = ptqCaps then capsValue
  else if off = ptqCtrl then
    (if m.enable then 1 else 0) ||| ((if m.irqEn then (1 : U32) else 0) <<< 1)
  else if off = ptqStatus then
    (if m.enabled then 1 else 0) ||| (if m.halted ≠ 0 then statusHalted else 0) |||
      (m.halted <<< 8)
  else if off = ptqBaseLo then m.baseLo &&& ~~~0xFFF
  else if off = ptqBaseHi then m.baseHi
  else if off = ptqSize then m.sizeLog2
  else if off = ptqTail then m.tail
  else if off = ptqHead then m.head
  else if off = ptqIrqAt then m.irqAt
  else if off = ptqFaultAt then m.faultAt
  else 0

/-- `pta_module_read32`. -/
def Module.read32 (m : Module Dev σ) (off : U32) : Module Dev σ × U32 :=
  if off < ptq then
    match PtaTwin.read32 m.tile off with
    | (tile, v) => ({ m with tile }, v)
  else (m, m.ptqWord off)

/-- `PTQ_CTRL` written. -/
def Module.writeCtrl (m : Module Dev σ) (v : U32) : Module Dev σ :=
  let en : Bool := v &&& ctrlEnable != 0
  let m := { m with irqEn := v &&& ctrlIrqEn != 0 }
  if en && !m.enable then
    -- the ring starts empty
    ({ m with enable := true, enabled := true, head := m.tail, prev := none, halted := 0 }.emit
      (.enable m.tail)).service h k
  else if !en && m.enable then
    { m with
      enable := false
      cur := if m.cur.live then { m.cur with orphan := true } else m.cur
      enabled := false }.emit .disable
  else m

/-- `PTQ_TAIL` written: the doorbell. -/
def Module.doorbell (m : Module Dev σ) (v : U32) : Module Dev σ :=
  if !m.enable then { m with tail := v }
  else if m.ringSize < v - m.head ∨ 0x80000000 < v - m.tail then m.halt haltDoorbell
  else { m with tail := v }.service h k

/-- `pta_module_write32`. -/
def Module.write32 (m : Module Dev σ) (off v : U32) : Module Dev σ :=
  if off < ptq then (m.tileMoved (PtaTwin.write32 k m.tile off v)).irqEdge h
  else if off = ptqCtrl then m.writeCtrl h k v
  else if off = ptqBaseLo then if !m.enable then { m with baseLo := v &&& ~~~0xFFF } else m
  else if off = ptqBaseHi then if !m.enable then { m with baseHi := v } else m
  else if off = ptqSize then
    if !m.enable ∧ v ≤ ringLog2Max then { m with sizeLog2 := v } else m
  else if off = ptqTail then m.doorbell h k v
  else if off = ptqIrqAt then { m with irqAt := v }
  else m

/-- `pta_module_run`. -/
def Module.run (m : Module Dev σ) (cycles : U64) : Module Dev σ :=
  let m := m.service h k
  (m.tileMoved (PtaTwin.run k m.tile cycles)).service h k

/-- `pta_module_reset`. -/
def Module.reset (m : Module Dev σ) : Module Dev σ :=
  let m := (m.tileMoved (PtaTwin.reset k m.tile)).drop
  { tile := m.tile, host := m.host, taken := m.taken, trace := m.trace ++ [.reset] }

/-! ## Runs -/

/-- A command of another submitter of the tile's, which knows no address of the module's. -/
def foreignCmd (c : Cmd ℕ) : Cmd Ptr :=
  { c with
    C := c.C.map .foreign
    status := c.status.map .foreign
    sats := c.sats.map .foreign
    clips := c.clips.map .foreign }

/-- An operation on the tile that does not go through the module: its owner's. -/
inductive TileOp
  | read32 (off : U32)
  | write32 (off v : U32)
  | submit (c : Cmd ℕ)
  | run (cycles : U64)
  | age (steps : U64)
  | reset

/-- The tile after it, and what the tile ended. -/
def TileOp.apply (t : Twin Dev Ptr) : TileOp → Twin Dev Ptr × List (Ending Ptr)
  | .read32 off => ((PtaTwin.read32 t off).1, [])
  | .write32 off v => PtaTwin.write32 k t off v
  | .submit c => (PtaTwin.submit k t (foreignCmd c)).2
  | .run cycles => PtaTwin.run k t cycles
  | .age steps => ((PtaTwin.age k t steps).2, [])
  | .reset => PtaTwin.reset k t

/-- What a host can do to the module, and the tile's owner to the tile. -/
inductive Action
  | read32 (off : U32)
  | write32 (off v : U32)
  | run (cycles : U64)
  | reset
  | tile (op : TileOp)

/-- One action. -/
def Module.act (m : Module Dev σ) : Action → Module Dev σ
  | .read32 off => (m.read32 off).1
  | .write32 off v => m.write32 h k off v
  | .run cycles => m.run h k cycles
  | .reset => m.reset k
  | .tile op => m.tileMoved (op.apply k m.tile)

/-- A sequence of actions. -/
def Module.acts (m : Module Dev σ) (as : List Action) : Module Dev σ :=
  as.foldl (Module.act h k) m

/-- A new module in front of a new tile. -/
def Module.new (b : Build) (dev : Dev) (heap : ℕ → Bool) (s : σ) : Module Dev σ :=
  { tile := { build := b, dev := dev, heap := heap }, host := s }

end Grxcp.PtaModule
