import Grxcp.Pta.ExactTile
import Grxcp.Pta.ModuleSteps

/-!
# The board

The driver of `pta_chiplet.cpp` in front of the module of `pta_chiplet_module.c`, with the memory that they
share, and perhaps a link to the module's tile. Between two things that the driver does, time passes for the module: its clock runs, the tile's owner uses
the tile, and whoever else maps the BAR reads it and writes the tile's page. The queue's registers are the
driver's while a queue is attached, and the module is reset only while none is.
-/

namespace Grxcp.PtaChiplet

open PtaTwin (Build TileKernel Cmd CmdStatus)
open PtaModule (Module Action TileOp Line ptq ptqIrqAt get32)

/-! ## Memory -/

/-- Host memory, by the addresses that the module has for it. -/
abbrev Bytes := U64 → BitVec 8

/-- The line at an address. -/
def lineAt (mem : Bytes) (a : U64) : Line :=
  Vector.ofFn fun i => mem (a + BitVec.ofNat 64 i)

/-- A line is written. -/
def setLine (mem : Bytes) (a : U64) (line : Line) : Bytes :=
  fun p => if h : (p - a).toNat < 64 then line.get ⟨(p - a).toNat, h⟩ else mem p

/-- What may happen to the module between two things that the driver does. -/
inductive Aside
  | read32 (off : U32)
  | write32 (off v : U32) (hoff : off < ptq ∨ off = ptqIrqAt)
  | run (cycles : U64)
  | tile (op : TileOp)

/-- It is one of the things that a host can do. -/
def Aside.action : Aside → Action
  | read32 off => .read32 off
  | write32 off v _ => .write32 off v
  | run cycles => .run cycles
  | tile op => .tile op

/-- The platform: its memory, what of it the driver holds, what the allocator will grant, which of the module's
accesses will succeed, what will happen between the things that the driver does, and how a command of the link will
be seen to have ended. -/
structure Board where
  mem : Bytes
  held : List Dma
  grants : ℕ → Bool × Dma
  reads : ℕ → Bool
  writes : ℕ → Bool
  mallocs : ℕ → Bool
  meanwhile : ℕ → List Aside
  ends : ℕ → CmdStatus

/-- The platform as the module sees it. -/
def board : PtaModule.Host Board where
  readLine s a := ({ s with reads := fun n => s.reads (n + 1) }, if s.reads 0 then some (lineAt s.mem a) else none)
  writeLine s a line :=
    ({ s with
      writes := fun n => s.writes (n + 1)
      mem := if s.writes 0 then setLine s.mem a line else s.mem }, s.writes 0)
  msi := some fun s _ => s
  malloc s := ({ s with mallocs := fun n => s.mallocs (n + 1) }, s.mallocs 0)

/-- The address that the module has for a byte of the driver's, if it is in memory that the driver holds. -/
def Board.dma (s : Board) (p : U64) : Option U64 :=
  (s.held.find? fun buf => p - buf.cpu < buf.bytes).map fun buf => buf.addr + (p - buf.cpu)

/-- A byte that the driver reads. -/
def Board.byte (s : Board) (p : U64) : BitVec 8 :=
  (s.dma p).elim 0 s.mem

/-- A word that the driver reads. -/
def Board.word (s : Board) (p : U64) : U32 :=
  (s.byte p).zeroExtend 32 ||| ((s.byte (p + 1)).zeroExtend 32 <<< 8) |||
    ((s.byte (p + 2)).zeroExtend 32 <<< 16) ||| ((s.byte (p + 3)).zeroExtend 32 <<< 24)

/-- A byte that the driver writes. -/
def Board.store (s : Board) (p : U64) (b : BitVec 8) : Board :=
  match s.dma p with
  | none => s
  | some a => { s with mem := Function.update s.mem a b }

/-- Memory that does not run over the end of the address space, on either side. -/
def Dma.Fits (buf : Dma) : Prop :=
  buf.cpu.toNat + buf.bytes.toNat ≤ 2 ^ 64 ∧ buf.addr.toNat + buf.bytes.toNat ≤ 2 ^ 64

/-- Two pieces of memory that share nothing, on either side. -/
def Dma.Apart (a b : Dma) : Prop :=
  (a.cpu.toNat + a.bytes.toNat ≤ b.cpu.toNat ∨ b.cpu.toNat + b.bytes.toNat ≤ a.cpu.toNat) ∧
    (a.addr.toNat + a.bytes.toNat ≤ b.addr.toNat ∨ b.addr.toNat + b.bytes.toNat ≤ a.addr.toNat)

instance (buf : Dma) : Decidable buf.Fits :=
  inferInstanceAs (Decidable (_ ∧ _))

instance (a b : Dma) : Decidable (a.Apart b) :=
  inferInstanceAs (Decidable (_ ∧ _))

/-! ## The driver's hooks -/

section Hooks

variable {Dev : Type} (k : TileKernel Dev)

/-- Time passes. -/
def pass (m : Module Dev Board) : Module Dev Board :=
  let m' := { m with host := { m.host with
    meanwhile := fun n => m.host.meanwhile (n + 1)
    ends := fun n => m.host.ends (n + 1) } }
  m'.acts board k ((m.host.meanwhile 0).map Aside.action)

/-- The window's read hook. -/
def boardRead (m : Module Dev Board) (off : U32) : Module Dev Board × U32 :=
  (pass k m).read32 off

/-- The window's write hook. -/
def boardWrite (m : Module Dev Board) (off v : U32) : Module Dev Board :=
  (pass k m).write32 board k off v

/-- The link's submit hook: a command of another submitter of the tile's, with addresses of its own. -/
def boardSubmit {P : Type} (addresses : Cmd P → Cmd ℕ) (m : Module Dev Board) (c : Cmd P) : Module Dev Board × Bool :=
  ((pass k m).act board k (.tile (.submit (addresses c))),
    (PtaTwin.submit k (pass k m).tile (PtaModule.foreignCmd (addresses c))).1)

/-- `dma_alloc`: any answer, but memory that is held is not handed out again. -/
def boardAlloc (m : Module Dev Board) (_ : U64) : Module Dev Board × Bool × Dma :=
  let (ok, buf) := m.host.grants 0
  let m := { m with host := { m.host with grants := fun n => m.host.grants (n + 1) } }
  if buf.Fits ∧ ∀ other ∈ m.host.held, buf.Apart other then
    ({ m with host := { m.host with held := buf :: m.host.held } }, ok, buf)
  else (m, false, {})

/-- `dma_free`. -/
def boardFree (m : Module Dev Board) (buf : Dma) : Module Dev Board :=
  { m with host := { m.host with held := m.host.held.filter (· ≠ buf) } }

/-- The driver's own memory. Nothing looks at what it hands to its callers. -/
def boardHost {P : Type} : Host (Module Dev Board) P where
  status m _ := m.host.ends 0
  setStatus m _ _ := m
  setC m _ _ := m
  ld32 m p := (pass k m, (pass k m).host.word p)
  store m p b := { pass k m with host := (pass k m).host.store p b }

/-! ## The states of the driver and the module -/

variable {P : Type}

/-- A call that a caller can make: its sizes are `int`s, and its operands and results are arrays of the caller's
memory, of four and of eight bytes an element. -/
structure Call.Real (c : Call P) : Prop where
  M : c.M < 2 ^ 31
  N : c.N < 2 ^ 31
  K : c.K < 2 ^ 31
  arrays : 0 < c.M → 0 < c.N → 0 < c.K → 4 * (c.M * c.K) + 4 * (c.K * c.N) + 8 * (c.M * c.N) ≤ 2 ^ 64

/-- The states between the calls of a driver that has a window to a module. -/
inductive Reached : Driver (Module Dev Board) P → Prop
  | start (b : Build) (dev : Dev) (heap : ℕ → Bool) (s : Board) (hs : s.held = []) :
      Reached ⟨{ read32 := some (boardRead k), write32 := some (boardWrite k) }, Module.new b dev heap s⟩
  | module {d} (hd : Reached d) (hq : d.dev.queue = false) (a : Action) :
      Reached { d with env := d.env.act board k a }
  | aside {d} (hd : Reached d) (a : Aside) : Reached { d with env := d.env.act board k a.action }
  | window {d} (hd : Reached d) : Reached (d.attachWindow (some (boardRead k)) (some (boardWrite k)))
  | link {d} (hd : Reached d) (addresses : Option (Cmd P → Cmd ℕ)) :
      Reached (d.attachLink (addresses.map (boardSubmit k)))
  | detect {d} (hd : Reached d) : Reached d.detect.1
  | attach {d} (hd : Reached d) (alloc free : Bool) (ringLog2 : ℤ) (hlog : ringLog2 < 2 ^ 31) :
      Reached (d.attachQueue (boardHost k) (if alloc then some boardAlloc else none)
        (if free then some boardFree else none) ringLog2).1
  | detach {d} (hd : Reached d) : Reached d.detachQueue
  | teardown {d} (hd : Reached d) : Reached (d.teardown (boardHost k)).1
  | gemm {d} (hd : Reached d) (status : P) (c : Call P) (hc : c.Real) : Reached (d.gemm (boardHost k) status c).1

/-- The first thing that `pta_chiplet_gemm` does. -/
def Driver.fresh {E : Type} (d : Driver E P) : Driver E P :=
  { d with dev := { d.dev with refusedImpairments := 0, lastIndex := -1 } }

/-- The states in which the driver tears its queue down: between its calls, or in a GEMM whose record it has
looked for in vain. -/
inductive Entered : Driver (Module Dev Board) P → Prop
  | call {d} (hd : Reached k d) : Entered d
  | gemm {d d₁ d₂} (hd : Reached k d) (hq : d.dev.queue = true) (hdead : d.dev.queueDead = false) (c : Call P)
      (hc : c.Real) (hpos : 0 < c.M ∧ 0 < c.N ∧ 0 < c.K) (A B : List ℤ) (hA : (A.length : ℤ) ≤ c.M * c.K)
      (hB : (B.length : ℤ) ≤ c.K * c.N) (hstage : d.fresh.stageFor c.layout.bytes = (d₁, true)) (polls : ℕ)
      (hpoll : (d₁.publish (boardHost k) c A B c.layout).pollSlot (boardHost k) (d₁.dev.slotOf d₁.dev.next) polls =
        (d₂, 0)) : Entered d₂

end Hooks

end Grxcp.PtaChiplet
