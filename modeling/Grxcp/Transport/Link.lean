import Grxcp.Lib.Agenda

/-!
# The board's transport: the link, and the state of both sides

The host and the PTA module of the first board share a ring of 128-byte slots in host memory, and a
page of registers. What passes between them crosses a link that takes `L` ticks a crossing and orders
each line of memory up to `JITTER` ticks later still. A tick delivers what is due, then watches, and
then the host's script runs.

A callback that is to run later is an event with what its closure holds. What closures share, the lines
that a read has back and the lines that a GEMM has sent, is kept under the number of the read or of the
GEMM. The faults that the simulation can plant are left out, and so are the texts of its checks.
-/

namespace Grxcp.BoardTransport

open Agenda

/-! ## Constants -/

abbrev LINE : ℕ := 64

abbrev SLOT : ℕ := 128

abbrev R_BYTES : ℕ := 4

abbrev BANKS : ℕ := 2

abbrev M32 : ℕ := 2 ^ 32 - 1

/-- Ticks of a crossing. -/
abbrev L : ℕ := 4

/-- How much later a line may be ordered. -/
abbrev JITTER : ℕ := 6

abbrev T_QUIESCE : ℕ := 60

abbrev RING_LOG2 : ℕ := 3

abbrev RING : ℕ := 0x10000

abbrev BUF : ℕ := 0x20000

abbrev SENTINEL : BitVec 8 := 0xA5

abbrev PENDING : ℕ := 0

abbrev DONE : ℕ := 1

abbrev REFUSED : ℕ := 2

abbrev LOST : ℕ := 3

abbrev NOT_ISSUED : ℕ := 4

abbrev NOT_RUN : ℕ := 5

abbrev NO_INDEX : ℕ := M32

abbrev AFTER_SUCCESS : ℕ := 2 ^ 16

/-- `lines`: the lines that so many bytes take. -/
def lines (nbytes : ℕ) : ℕ :=
  (nbytes + (LINE - 1)) / LINE

/-! ## Bytes -/

/-- A line of memory. -/
abbrev Line :=
  List (BitVec 8)

def byte (v i : ℕ) : BitVec 8 :=
  BitVec.ofNat 8 (v / 256 ^ i)

/-- `struct`'s `<I`. -/
def le32 (v : ℕ) : Line :=
  [byte v 0, byte v 1, byte v 2, byte v 3]

/-- `struct`'s `<Q`. -/
def le64 (v : ℕ) : Line :=
  [byte v 0, byte v 1, byte v 2, byte v 3, byte v 4, byte v 5, byte v 6, byte v 7]

/-- `struct`'s `<i`. -/
def leInt (v : ℤ) : Line :=
  le32 (v % 2 ^ 32).toNat

def byteAt (d : Line) (off : ℕ) : ℕ :=
  (d.getD off 0).toNat

/-- `struct.unpack_from("<I", d, off)`. -/
def u32 (d : Line) (off : ℕ) : ℕ :=
  byteAt d off + 256 * byteAt d (off + 1) + 256 ^ 2 * byteAt d (off + 2) + 256 ^ 3 * byteAt d (off + 3)

def u64 (d : Line) (off : ℕ) : ℕ :=
  u32 d off + 256 ^ 4 * u32 d (off + 4)

def i32 (d : Line) (off : ℕ) : ℤ :=
  (u32 d off : ℤ).bmod (2 ^ 32)

/-- `DESC`, the descriptor of version 1 as the host packs it. -/
def packDesc (sv target fmt M K N act wgt out : ℕ) : Line :=
  le32 sv ++ le32 target ++ le32 fmt ++ le32 M ++ le32 K ++ le32 N ++ le64 act ++ le64 wgt ++ le64 out ++
    le32 0 ++ le32 0 ++ le64 0

/-! ## What the module returns -/

/-- `gemm_seed`. -/
def gemmSeed (seed i : ℕ) : ℕ :=
  let z : BitVec 64 := (BitVec.ofNat 64 ((seed % 2 ^ 32) * 2 ^ 32 + i % 2 ^ 32)) + 0x9E3779B97F4A7C15
  let z := (z ^^^ (z >>> 30)) * 0xBF58476D1CE4E5B9
  let z := (z ^^^ (z >>> 27)) * 0x94D049BB133111EB
  ((z ^^^ (z >>> 31)) >>> 32).toNat

/-- `gemm`: the exact sums, and an error of each drawn from the GEMM's seed. -/
def gemm (A W : List ℤ) (M K N s : ℕ) : List ℤ :=
  (List.range M).flatMap fun m => (List.range N).map fun n =>
    ((List.range K).map fun k => A.getD (m * K + k) 0 * W.getD (k * N + n) 0).sum +
      ((s >>> ((m * N + n) % 30)) &&& 3 : ℕ) - 1

/-- The results' lines: the sums packed, and the last line's pad. -/
def resultBytes (sums : List ℤ) : Line :=
  let raw := sums.flatMap leInt
  raw ++ List.replicate (lines raw.length * LINE - raw.length) 0

/-- Line `i` of some bytes. -/
def lineOf (raw : Line) (i : ℕ) : Line :=
  (raw.drop (i * LINE)).take LINE

/-! ## Events -/

/-- The registers that the host uses. -/
inductive Reg
  | ctrl
  | status
  | baseLo
  | baseHi
  | size
  | tail
  | head
  | irqAt
  | seed
deriving DecidableEq

/-- What is done with the lines of a read, when all are back. -/
inductive Next
  | gotDescriptor (idx : ℕ)
  | shots (idx : ℕ) (d : Line) (M K N out index seed nw status : ℕ)

/-- What is done when the module learns that a line of its own is ordered. -/
inductive After
  | ordered (run : ℕ)
  | ended (idx status job : ℕ)
deriving DecidableEq

/-- What is to happen. -/
inductive Event
  | write (off : Reg) (val : ℕ)
  | read (off : Reg) (box : ℕ)
  | append (box v : ℕ)
  | atHost (g a : ℕ)
  | back (g a : ℕ) (data : Line)
  | land (addr : ℕ) (data : Line)
  | go (gen : ℕ) (andThen : After)
  | shot (run m : ℕ)
  | msi
  | reset

/-- What the closures of `read_lines` hold. -/
structure ReadLines where
  addrs : List ℕ
  next : Next
  job : ℕ
  gen : ℕ
  got : List (ℕ × Line)

/-- What the closures of `shots` hold. -/
structure Shots where
  idx : ℕ
  d : Line
  M : ℕ
  N : ℕ
  out : ℕ
  index : ℕ
  status : ℕ
  raw : Line
  n : ℕ
  job : ℕ
  sent : ℕ
  ordered : ℕ

/-! ## The two sides -/

/-- `Module`. -/
structure Module where
  gen : ℕ := 1
  resets : ℕ := 1
  job : ℕ := 0
  enable : Bool := false
  enabled : Bool := false
  irqEn : Bool := false
  base : ℕ := 0
  sizeLog2 : ℕ := 0
  tail : ℕ := 0
  head : ℕ := 0
  irqAt : ℕ := 0
  seed : ℕ := 0
  gemmCt : ℕ := 0
  busy : Bool := false
  inflight : ℕ := 0
  prev : Option ℕ := none
  halted : ℕ := 0
  wedged : Bool := false
  draining : Bool := false
  wedgeAt : Option ℕ := none

/-- A command as a script makes it. -/
structure Cmd where
  M : ℕ
  K : ℕ
  N : ℕ
  bank : ℕ
  flags : ℕ
  fmt : ℕ
  expect : ℕ
  teardown : Bool
  A : Line
  W : Line

/-- A command with what `publish` adds. -/
structure Published extends Cmd where
  act : ℕ
  wgt : ℕ
  out : ℕ
  outLines : ℕ
  seed : ℕ
  desc : Line

/-- Where the host's script stands: free, or inside a teardown. -/
inductive Phase
  | script
  | status (t0 box : ℕ)
  | head (box : ℕ)
  | resetting (wake : ℕ)

/-- `Host`. -/
structure Host where
  next : ℕ := 0
  hhead : ℕ := 0
  origin : ℕ := 0
  cmds : ℕ → Option Published := fun _ => none
  slotOf : ℕ → Option ℕ := fun _ => none
  owner : ℕ → Option ℕ := fun _ => none
  ended : Finset ℕ := ∅
  alloc : ℕ := BUF
  seed : ℕ := 0
  last : ℕ := 0
  restart : Bool := true
  slack : Bool := false
  msis : ℕ := 0
  teardowns : ℕ := 0
  irqAt : ℕ := 0
  ctrl : ℕ := 1
  ends : ℕ → ℕ := fun _ => 0
  phase : Phase := .script

/-- The checks of the simulation that its two sides make. -/
inductive Check
  | C1
  | C2
  | C3
  | C4
  | C5
  | C6
  | C7
  | C8
  | C9
  | C10
  | C11
deriving DecidableEq

/-- `Sim`. The draws of its generator are a sequence, and `turn` says that the script has its turn of the
tick. -/
structure Sim where
  rng : ℕ → Fin (JITTER + 1)
  drawn : ℕ := 0
  t : ℕ := 0
  n : ℕ := 0
  q : List (Entry Event) := []
  mem : ℕ → Line := fun _ => List.replicate LINE 0
  fired : Finset Check := ∅
  module : Module := {}
  host : Host := {}
  reads : ℕ → ReadLines := fun _ => ⟨[], .gotDescriptor 0, 0, 0, []⟩
  readCt : ℕ := 0
  runs : ℕ → Shots := fun _ => ⟨0, [], 0, 0, 0, 0, 0, [], 0, 0, 0, 0⟩
  runCt : ℕ := 0
  boxes : ℕ → Option ℕ := fun _ => none
  boxCt : ℕ := 0
  turn : Bool := false

namespace Sim

/-! ## The simulation's own -/

/-- `Sim.at`. -/
def after (s : Sim) (dt prio : ℕ) (fn : Event) : Sim :=
  { s with n := s.n + 1, q := push ⟨s.t + dt, prio, s.n + 1, fn⟩ s.q }

/-- A crossing, and the generator's next draw. -/
def lag (s : Sim) : ℕ :=
  L + s.rng s.drawn

def draw (s : Sim) : Sim :=
  { s with drawn := s.drawn + 1 }

def fail (s : Sim) (check : Check) : Sim :=
  { s with fired := insert check s.fired }

/-- `Sim.store`: the host's own store, in its cache. -/
def store (s : Sim) (addr : ℕ) (data : Line) : Sim :=
  { s with mem := Function.update s.mem addr data }

/-- `Host.landing`: nothing the module writes may land on what the host has ended. -/
def landing (s : Sim) (addr : ℕ) : Sim :=
  let s := match s.host.owner addr with
    | some idx => if idx ∈ s.host.ended then s.fail .C9 else s
    | none => s
  if RING ≤ addr ∧ addr < RING + 2 ^ RING_LOG2 * SLOT then
    match s.host.slotOf ((addr - RING) / SLOT) with
    | some idx => if idx ∈ s.host.ended then s.fail .C9 else s
    | none => s
  else s

/-- `Sim.land`: a line the module wrote, ordered at the host. -/
def land (s : Sim) (addr : ℕ) (data : Line) : Sim :=
  (s.landing addr).store addr data

end Sim

end Grxcp.BoardTransport
