import Grxcp.Lib.Runs
import Grxcp.Transport.Bytes

/-!
# What holds in every state of the transport

The agenda orders what is in flight (`Queue`), the host's books give each command a slot and buffers of
its own (`Book`), and the register writes in flight lead the module to what the host takes it to be
(`Wires`). The module is at one thing at a time (`Activity`), and `Doing` says for each what is in
flight and what the memory of the pending commands is: every slot behind `head` has its record, every
one past it is as the host stored it, and what lands belongs to the command at `head`.
-/

namespace Grxcp.BoardTransport

open Agenda Runs

/-! ## Kinds of events -/

namespace Event

def isGo : Event → Bool
  | go _ _ => true
  | _ => false

def isRead (g : ℕ) : Event → Bool
  | atHost g' _ => g' = g
  | back g' _ _ => g' = g
  | _ => false

def isShot (r : ℕ) : Event → Bool
  | shot r' _ => r' = r
  | _ => false

def isLand : Event → Bool
  | land _ _ => true
  | _ => false

/-- A read of a register, or its answer. -/
def isAnswer : Event → Bool
  | read _ _ => true
  | append _ _ => true
  | _ => false

/-- What a line of the module's leaves behind in flight. -/
def isLine : Event → Bool
  | land _ _ => true
  | go _ _ => true
  | shot _ _ => true
  | _ => false

/-- A register write, and what it writes. -/
def write? : Event → Option (Reg × ℕ)
  | write off val => some (off, val)
  | _ => none

/-- What passes on the side of the registers. -/
def isControl : Event → Bool
  | write _ _ => true
  | read _ _ => true
  | append _ _ => true
  | reset => true
  | _ => false

end Event

namespace Sim

/-- The event is in flight. -/
def Has (s : Sim) (fn : Event) : Prop :=
  ∃ e ∈ s.q, e.fn = fn

def countOf (s : Sim) (p : Event → Bool) : ℕ :=
  s.q.countP fun e => p e.fn

/-- The register writes in flight, in their order. -/
def writes (s : Sim) : List (Reg × ℕ) :=
  s.q.filterMap fun e => e.fn.write?

/-- The read is of the module's present job. -/
def Live (s : Sim) (g : ℕ) : Prop :=
  (s.reads g).job = s.module.job ∧ (s.reads g).gen = s.module.gen

end Sim

/-! ## The agenda -/

/-- What an event names exists, and is of no later job. -/
def EvOk (s : Sim) : Event → Prop
  | .atHost g _ => g < s.readCt
  | .back g _ _ => g < s.readCt
  | .shot r _ => r < s.runCt ∧ (s.runs r).job ≤ s.module.job
  | .go gen (.ordered r) => gen = s.module.gen ∧ r < s.runCt ∧ (s.runs r).job ≤ s.module.job
  | .go gen (.ended _ _ job) => gen = s.module.gen ∧ job ≤ s.module.job
  | _ => True

/-- The agenda is in order, a line in flight lands before the module learns of it, and nothing is due
later than a line can be. -/
structure Queue (s : Sim) : Prop where
  sorted : Sorted s.q
  num : ∀ e ∈ s.q, e.n ≤ s.n
  due : ∀ e ∈ s.q, s.t + s.turn.toNat ≤ e.due
  soon : ∀ e ∈ s.q, e.fn.isLine = true → e.due ≤ s.t + (2 * L + JITTER)
  lands : ∀ e ∈ s.q, ∀ a d, e.fn = .land a d → ∃ e' ∈ s.q, e'.fn.isGo = true ∧ e.due < e'.due
  ok : ∀ e ∈ s.q, EvOk s e.fn
  inflight : s.module.inflight = s.countOf Event.isGo
  jobs : ∀ g, g < s.readCt → (s.reads g).gen ≤ s.module.gen ∧ ((s.reads g).gen = s.module.gen →
    (s.reads g).job ≤ s.module.job)

/-! ## The host's books -/

/-- One past the last line of a command's buffers. -/
def Published.top (c : Published) : ℕ :=
  c.out + c.outLines * LINE

/-- What `publish` makes of a command that packs. -/
structure Published.Wf (c : Published) : Prop where
  pos : 0 < c.M ∧ 0 < c.K ∧ 0 < c.N
  fits : c.M < 2 ^ 32 ∧ c.N < 2 ^ 32 ∧ c.fmt < 2 ^ 32
  inner : c.K < 2 ^ 17
  target : (c.bank * 2 ^ 8 ||| c.flags) < 2 ^ 32
  lenA : c.A.length = c.M * c.K
  lenW : c.W.length = c.K * c.N
  wgt : c.wgt = c.act + lines (c.M * c.K) * LINE
  out : c.out = c.wgt + lines (c.K * c.N) * LINE
  outLines : c.outLines = lines (c.M * c.N * R_BYTES)
  above : BUF ≤ c.act
  below : c.top ≤ 2 ^ 64
  desc : c.desc = packDesc (2 ^ 16 + 64) (c.bank * 2 ^ 8 ||| c.flags) c.fmt c.M c.K c.N c.act c.wgt c.out

/-- The host's books. -/
structure Book (h : Host) : Prop where
  le : h.hhead ≤ h.next
  room : h.next ≤ h.hhead + 2 ^ RING_LOG2
  short : h.next < 2 ^ 32
  ended : ∀ idx, idx ∈ h.ended ↔ idx < h.hhead
  alloc : BUF ≤ h.alloc
  cmds : ∀ idx, idx < h.next → ∃ c, h.cmds idx = some c
  wf : ∀ idx c, h.cmds idx = some c → c.Wf ∧ c.top ≤ h.alloc ∧ idx < h.next
  apart : ∀ i j c c', i < j → h.cmds i = some c → h.cmds j = some c' → c.top ≤ c'.act
  seeds : ∀ idx c, h.hhead ≤ idx → h.cmds idx = some c → c.seed = h.seed
  slotOf : ∀ idx, idx < h.next → h.next ≤ idx + 2 ^ RING_LOG2 → h.slotOf (idx % 2 ^ RING_LOG2) = some idx
  slotLt : ∀ k idx, h.slotOf k = some idx → idx < h.next ∧ idx % 2 ^ RING_LOG2 = k
  owner : ∀ idx c, h.cmds idx = some c → ∀ i, i < c.outLines → h.owner (c.out + i * LINE) = some idx
  owned : ∀ a idx, h.owner a = some idx → ∃ c, h.cmds idx = some c ∧ c.out ≤ a ∧ a < c.top

/-- The books are about commands, slots and buffers: what else the host notes leaves them, and so does a seed
that the open commands have. -/
theorem Book.notes {h h' : Host} (hb : Book h) (hnext : h'.next = h.next) (hhead : h'.hhead = h.hhead)
    (hcmds : h'.cmds = h.cmds) (hslot : h'.slotOf = h.slotOf) (howner : h'.owner = h.owner)
    (hended : h'.ended = h.ended) (halloc : h'.alloc = h.alloc)
    (hseeds : ∀ idx c, h.hhead ≤ idx → h.cmds idx = some c → c.seed = h'.seed) : Book h' := by
  obtain ⟨hle, hroom, hshort, hends, hall, hc, hwf, hapart, -, hof, hlt, hown, howned⟩ := hb
  constructor <;> simp only [hnext, hhead, hcmds, hslot, howner, hended, halloc] <;> assumption

/-! ## Memory -/

variable (mem : ℕ → Line)

/-- A buffer's data and its fill. -/
def padded (nbytes : ℕ) (fill : BitVec 8) (data : Line) : Line :=
  data ++ List.replicate (lines nbytes * LINE - data.length) fill

/-- The sums that a command's GEMM has under an index. -/
def Published.sums (c : Published) (index : ℕ) : List ℤ :=
  gemm (c.A.map BitVec.toInt) (c.W.map BitVec.toInt) c.M c.K c.N (gemmSeed c.seed index)

/-- The operands are as the host stored them. -/
def Operands (c : Published) : Prop :=
  (∀ i, i < lines (c.M * c.K) → mem (c.act + i * LINE) = lineOf (padded (c.M * c.K) 0 c.A) i) ∧
    ∀ i, i < lines (c.K * c.N) → mem (c.wgt + i * LINE) = lineOf (padded (c.K * c.N) 0 c.W) i

/-- The results' buffer is as the host filled it. -/
def Untouched (c : Published) : Prop :=
  ∀ i, i < c.outLines → mem (c.out + i * LINE) = List.replicate LINE SENTINEL

/-- The results' buffer has the GEMM's sums. -/
def Finished (c : Published) (index : ℕ) : Prop :=
  ∀ i, i < c.outLines → mem (c.out + i * LINE) = lineOf (resultBytes (c.sums index)) i

/-- What a status says of the results. -/
def Told (c : Published) (st index : ℕ) : Prop :=
  (st = DONE ∧ Finished mem c index) ∨
    ((st = REFUSED ∨ st = NOT_ISSUED ∨ st = NOT_RUN) ∧ index = NO_INDEX ∧ Untouched mem c)

/-- The command is as the host published it. -/
def Fresh (idx : ℕ) (c : Published) : Prop :=
  mem (slotAddr idx) = c.desc ∧ Untouched mem c ∧ Operands mem c

/-- The slot has a record, and what it says is so. -/
def Recorded (idx : ℕ) (c : Published) : Prop :=
  ∃ st index, mem (slotAddr idx) = recordOf c.desc st index ∧ Told mem c st index

/-- The slot has the fields that the host wrote. -/
def Kept (idx : ℕ) (c : Published) : Prop :=
  (mem (slotAddr idx)).length = LINE ∧ (mem (slotAddr idx)).take 0x30 = c.desc.take 0x30

/-! ## What the module is at -/

/-- What the module is at. -/
inductive Activity
  | off
  | idle
  | reading (g : ℕ)
  | shooting (r : ℕ)
  | recording (st index : ℕ)
  | wedged
  | torn
  | dead

namespace Sim

variable (s : Sim)

/-- No line is being read for the present job. -/
def NoReads : Prop :=
  ∀ g, s.Live g → (∀ a, ¬s.Has (.atHost g a)) ∧ ∀ a d, ¬s.Has (.back g a d)

/-- No shot of the present job is to come. -/
def NoShots : Prop :=
  ∀ r m, s.Has (.shot r m) → (s.runs r).job ≠ s.module.job

/-- No line that the module wrote is in flight. -/
def NoLines : Prop :=
  (∀ gen x, ¬s.Has (.go gen x)) ∧ ∀ a d, ¬s.Has (.land a d)

/-- The queue is enabled, on the host's ring. -/
structure Up : Prop where
  enable : s.module.enable = true
  enabled : s.module.enabled = true
  draining : s.module.draining = false
  base : s.module.base = RING
  size : s.module.sizeLog2 = RING_LOG2
  tail : s.module.head ≤ s.module.tail
  next : s.module.tail ≤ s.host.next

/-- What being up is about. -/
def upView : Bool × Bool × Bool × ℕ × ℕ × ℕ × ℕ × ℕ :=
  (s.module.enable, s.module.enabled, s.module.draining, s.module.base, s.module.sizeLog2, s.module.head,
    s.module.tail, s.host.next)

variable {s} in
theorem Up.keep {s' : Sim} (h : Up s) (hview : upView s' = upView s) : Up s' := by
  simp only [upView, Prod.mk.injEq] at hview
  obtain ⟨he, hen, hd, hb, hs, hhead, ht, hn⟩ := hview
  exact ⟨he.trans h.enable, hen.trans h.enabled, hd.trans h.draining, hb.trans h.base, hs.trans h.size,
    by rw [hhead, ht]; exact h.tail, by rw [ht, hn]; exact h.next⟩

/-- Every pending slot behind `head` has its record, and every one past it is as the host stored it. -/
structure Front : Prop where
  before : ∀ idx c, s.host.hhead ≤ idx → idx < s.module.head → s.host.cmds idx = some c → Recorded s.mem idx c
  later : ∀ idx c, s.module.head < idx → s.host.cmds idx = some c → Fresh s.mem idx c

/-- The addresses of a command's weights and activations. -/
def weightLines (c : Published) : List ℕ :=
  (List.range (lines (c.K * c.N))).map fun i => c.wgt + i * LINE

def activationLines (c : Published) : List ℕ :=
  (List.range (lines (c.M * c.K))).map fun i => c.act + i * LINE

/-- What the read of the command at `head` is for. -/
def ReadsFor (c : Published) (read : ReadLines) : Prop :=
  (read.next = .gotDescriptor s.module.head ∧ read.addrs = [slotAddr s.module.head]) ∨
    ∃ index, read.next = .shots s.module.head c.desc c.M c.K c.N c.out index c.seed (weightLines c).length DONE ∧
      read.addrs = weightLines c ++ activationLines c

/-- Lines of the command at `head` are being read. -/
structure Reading (g : ℕ) (c : Published) : Prop where
  lt : g < s.readCt
  live : s.Live g
  only : ∀ g', s.Live g' → (∃ a, s.Has (.atHost g' a) ∨ ∃ d, s.Has (.back g' a d)) → g' = g
  count : s.countOf (Event.isRead g) + (s.reads g).got.length ≤ (s.reads g).addrs.length
  nodup : (s.reads g).addrs.Nodup
  asked : ∀ a, s.Has (.atHost g a) → a ∈ (s.reads g).addrs
  coming : ∀ a d, s.Has (.back g a d) → a ∈ (s.reads g).addrs ∧ d = s.mem a
  got : ∀ x ∈ (s.reads g).got, x.1 ∈ (s.reads g).addrs ∧ x.2 = s.mem x.1
  keys : ((s.reads g).got.map Prod.fst).Nodup
  what : s.ReadsFor c (s.reads g)

/-- The GEMM of the command at `head` runs: each line it has sent has landed or is in flight. -/
structure Shooting (r : ℕ) (c : Published) : Prop where
  lt : r < s.runCt
  job : (s.runs r).job = s.module.job
  idx : (s.runs r).idx = s.module.head
  d : (s.runs r).d = c.desc
  rows : (s.runs r).M = c.M
  cols : (s.runs r).N = c.N
  out : (s.runs r).out = c.out
  status : (s.runs r).status = DONE
  n : (s.runs r).n = c.outLines
  raw : (s.runs r).raw = resultBytes (c.sums (s.runs r).index)
  slot : s.mem (slotAddr s.module.head) = c.desc
  shots : ∀ r' m, s.Has (.shot r' m) → (s.runs r').job = s.module.job →
    r' = r ∧ m < c.M ∧ (s.runs r).sent ≤ m * c.N * R_BYTES / LINE
  one : s.countOf (Event.isShot r) ≤ 1
  gos : ∀ gen x, s.Has (.go gen x) → x = .ordered r
  count : s.countOf Event.isGo + (s.runs r).ordered = (s.runs r).sent
  sent : (s.runs r).sent ≤ c.outLines
  ordered : (s.runs r).ordered < c.outLines
  written : ∀ i, i < (s.runs r).sent → s.mem (c.out + i * LINE) = lineOf (s.runs r).raw i ∨
    s.Has (.land (c.out + i * LINE) (lineOf (s.runs r).raw i))
  lands : ∀ a data, s.Has (.land a data) → ∃ i, i < (s.runs r).sent ∧ a = c.out + i * LINE ∧
    data = lineOf (s.runs r).raw i

/-- The record of the command at `head` has landed or is in flight. -/
structure Recording (st index : ℕ) (c : Published) : Prop where
  told : Told s.mem c st index
  gos : ∀ gen x, s.Has (.go gen x) → x = .ended s.module.head st s.module.job
  count : s.countOf Event.isGo = 1
  slot : s.host.hhead ≤ s.module.head → s.mem (slotAddr s.module.head) = recordOf c.desc st index ∨
    s.mem (slotAddr s.module.head) = c.desc ∧ s.Has (.land (slotAddr s.module.head) (recordOf c.desc st index))
  one : s.countOf Event.isLand ≤ 1
  lands : ∀ a data, s.Has (.land a data) → a = slotAddr s.module.head ∧ data = recordOf c.desc st index ∧
    s.host.hhead ≤ s.module.head ∧ s.mem (slotAddr s.module.head) = c.desc

/-- What a line in flight belongs to, when the queue has been torn down under it. -/
def Stray (a : ℕ) (data : Line) : Prop :=
  s.host.hhead ≤ s.module.head ∧ ∃ c, s.host.cmds s.module.head = some c ∧
    ((∃ i, i < c.outLines ∧ a = c.out + i * LINE) ∨
      (a = slotAddr s.module.head ∧ data.length = LINE ∧ data.take 0x30 = c.desc.take 0x30))

/-- What `then` of a line is of an earlier job. -/
def Stale : After → Prop
  | .ordered r => (s.runs r).job ≠ s.module.job
  | .ended _ _ job => job ≠ s.module.job

/-- What is in flight and in memory, by what the module is at. -/
def Doing : Activity → Prop
  | .off => s.module.enable = false ∧ s.module.enabled = false ∧ s.module.draining = false ∧ s.module.wedged = false ∧
      s.module.busy = false ∧ s.NoReads ∧ s.NoShots ∧ s.NoLines ∧
      ∀ idx c, s.host.hhead ≤ idx → s.host.cmds idx = some c → Fresh s.mem idx c
  | .idle => s.Up ∧ s.Front ∧ s.module.wedged = false ∧ s.module.busy = false ∧ s.NoReads ∧ s.NoShots ∧ s.NoLines ∧
      s.host.hhead ≤ s.module.head ∧ ∀ c, s.host.cmds s.module.head = some c → Fresh s.mem s.module.head c
  | .reading g => s.Up ∧ s.Front ∧ s.module.wedged = false ∧ s.module.busy = true ∧ s.NoShots ∧ s.NoLines ∧
      s.host.hhead ≤ s.module.head ∧ s.module.head < s.module.tail ∧
      ∃ c, s.host.cmds s.module.head = some c ∧ Fresh s.mem s.module.head c ∧ s.Reading g c
  | .shooting r => s.Up ∧ s.Front ∧ s.module.wedged = false ∧ s.module.busy = true ∧ s.NoReads ∧
      s.host.hhead ≤ s.module.head ∧ s.module.head < s.module.tail ∧
      ∃ c, s.host.cmds s.module.head = some c ∧ s.Shooting r c
  | .recording st index => s.Up ∧ s.Front ∧ s.module.wedged = false ∧ s.module.busy = true ∧ s.NoReads ∧ s.NoShots ∧
      s.host.hhead ≤ s.module.head + 1 ∧ s.module.head < s.module.tail ∧
      ∃ c, s.host.cmds s.module.head = some c ∧ s.Recording st index c
  | .wedged => s.Up ∧ s.Front ∧ s.module.wedged = true ∧ s.NoReads ∧ s.NoShots ∧ s.NoLines ∧
      s.host.hhead ≤ s.module.head ∧ ∀ c, s.host.cmds s.module.head = some c → Fresh s.mem s.module.head c
  | .torn => s.module.enable = false ∧ s.module.enabled = s.module.draining ∧ s.module.wedged = false ∧
      s.module.busy = false ∧ s.module.base = RING ∧ s.module.sizeLog2 = RING_LOG2 ∧
      (s.module.draining = false → s.module.inflight = 0) ∧ s.NoReads ∧ s.NoShots ∧
      (∀ gen x, s.Has (.go gen x) → s.Stale x) ∧ (∀ a data, s.Has (.land a data) → s.Stray a data) ∧
      (∀ idx c, s.host.hhead ≤ idx → idx < s.module.head → s.host.cmds idx = some c → Recorded s.mem idx c) ∧
      ∀ idx c, s.host.hhead ≤ idx → s.module.head ≤ idx → s.host.cmds idx = some c → Kept s.mem idx c
  | .dead => (s.module.enable = false ∨ s.module.wedged = true ∧ s.Up ∧ s.Front) ∧ s.NoReads ∧
      (∀ r m, ¬s.Has (.shot r m)) ∧ s.NoLines ∧
      ∀ idx c, s.host.hhead ≤ idx → s.host.cmds idx = some c → Kept s.mem idx c

end Sim

/-! ## The registers -/

/-- What the register writes in flight make of the module. `exact` says that the tail was written while
the queue was disabled, where it is taken as it is. -/
structure Track where
  enable : Bool
  base : ℕ
  size : ℕ
  seed : ℕ
  tail : ℕ
  exact : Bool

namespace Track

def apply (σ : Track) : Reg × ℕ → Track
  | (.ctrl, v) => { σ with enable := v % 2 = 1 }
  | (.baseLo, v) => if σ.enable then σ else { σ with base := σ.base / 2 ^ 32 * 2 ^ 32 ||| v }
  | (.baseHi, v) => if σ.enable then σ else { σ with base := σ.base % 2 ^ 32 ||| v * 2 ^ 32 }
  | (.size, v) => if σ.enable then σ else { σ with size := v }
  | (.tail, v) => { σ with tail := v, exact := !σ.enable }
  | (.seed, v) => { σ with seed := v }
  | _ => σ

/-- What holds where a write is delivered: the doorbell moves forward over commands of the seed in
force, and the queue is enabled on the host's ring with nothing published before. -/
def Ok (h : Host) (σ : Track) : Reg × ℕ → Prop
  | (.ctrl, v) => v % 2 = 1 ∧ (σ.enable = false →
      σ.exact = true ∧ σ.base = RING ∧ σ.size = RING_LOG2 ∧ σ.tail = h.hhead)
  | (.tail, v) => σ.tail ≤ v ∧ v ≤ h.next ∧
      ∀ idx c, h.hhead ≤ idx → idx < v → h.cmds idx = some c → c.seed = σ.seed
  | (.seed, v) => ∀ idx c, h.hhead ≤ idx → idx < σ.tail → h.cmds idx = some c → c.seed = v
  | _ => True

/-- The module is where the track starts. -/
structure Starts (σ : Track) (s : Sim) : Prop where
  enable : σ.enable = s.module.enable
  base : σ.base = s.module.base
  size : σ.size = s.module.sizeLog2
  seed : σ.seed = s.module.seed
  tail : s.module.tail ≤ σ.tail
  exact : σ.exact = true → s.module.tail = σ.tail
  seeds : ∀ idx c, s.host.hhead ≤ idx → idx < s.module.tail → s.host.cmds idx = some c → c.seed = s.module.seed

end Track

/-- Some writes lead the module to an enabled queue under the host's seed. -/
def Leads (s : Sim) (ws : List (Reg × ℕ)) : Prop :=
  ∃ σ : Track, σ.Starts s ∧ Along Track.apply (Track.Ok s.host) σ ws ∧ (after Track.apply σ ws).enable = true ∧
    (after Track.apply σ ws).seed = s.host.seed ∧ (after Track.apply σ ws).tail ≤ s.host.next

/-- The module as it is after a reset, on the side of the registers. -/
structure PowerOn (m : Module) : Prop where
  enable : m.enable = false
  enabled : m.enabled = false
  draining : m.draining = false
  wedged : m.wedged = false
  busy : m.busy = false
  base : m.base = 0
  size : m.sizeLog2 = 0
  tail : m.tail = 0
  seed : m.seed = 0

namespace Sim

variable (s : Sim)

/-- Nothing is asked of the registers. -/
def NoAnswers : Prop :=
  (∀ off box, ¬s.Has (.read off box)) ∧ ∀ box v, ¬s.Has (.append box v)

/-- The teardown has read that the module has stopped. -/
def Stopped (a : Activity) : Prop :=
  a = .torn ∧ s.module.enabled = false

/-- What holds while the host is where it is. -/
def InPhase (a : Activity) : Phase → Prop
  | .script => a ≠ .torn ∧ a ≠ .dead ∧ s.NoAnswers ∧ ¬s.Has .reset ∧ (a = .wedged ∨ Leads s s.writes)
  | .status t0 box => box < s.boxCt ∧ ¬s.Has .reset ∧ (∀ e ∈ s.q, e.fn.isLine = true → e.due ≤ t0 + (3 * L + JITTER)) ∧
      (∀ off b, s.Has (.read off b) → off = .status ∧ b = box) ∧
      (∀ e ∈ s.q, ∀ e' ∈ s.q, e.fn.write?.isSome = true → (∃ off b, e'.fn = .read off b) → ¬e'.Before e) ∧
      (∀ b v, s.Has (.append b v) → b = box ∧ s.writes = [] ∧ (v % 2 = 1 ∨ s.Stopped a)) ∧
      (∀ v, s.boxes box = some v → s.writes = [] ∧ s.NoAnswers ∧ (v % 2 = 1 ∨ s.Stopped a)) ∧
      ((a ≠ .torn ∧ a ≠ .dead ∧ (∀ e ∈ s.q, e.fn.write?.isSome = true → e.due ≤ t0 + L) ∧
          ∃ ws v, s.writes = ws ++ [(.ctrl, v)] ∧ v % 2 = 0 ∧ (a = .wedged ∨ Leads s ws)) ∨
        (s.writes = [] ∧ (a = .torn ∧ s.module.seed = s.host.seed ∧ s.module.tail ≤ s.host.next ∨ a = .wedged)))
  | .head box => a = .torn ∧ s.module.enabled = false ∧ s.module.seed = s.host.seed ∧ s.module.tail ≤ s.host.next ∧
      ¬s.Has .reset ∧ s.writes = [] ∧ box < s.boxCt ∧
      (∀ off b, s.Has (.read off b) → off = .head ∧ b = box) ∧
      (∀ b v, s.Has (.append b v) → b = box ∧ v = s.module.head) ∧
      (∀ v, s.boxes box = some v → v = s.module.head ∧ s.NoAnswers)
  | .resetting wake => a = .dead ∧ s.NoAnswers ∧ s.writes = [] ∧
      (∀ e ∈ s.q, e.fn = .reset → e.due + L ≤ wake) ∧ (s.Has .reset ∨ PowerOn s.module)

/-- The register side. -/
structure Wires (a : Activity) : Prop where
  due : ∀ e ∈ s.q, e.fn.write?.isSome = true → e.prio = 1 ∧ e.due ≤ s.t + L
  boxes : ∀ b, s.boxCt ≤ b → s.boxes b = none
  asked : s.countOf Event.isAnswer ≤ 1
  phase : s.InPhase a s.host.phase

/-- Only the checks that a script answers for have fired. -/
def Clean : Prop :=
  ∀ c ∈ s.fired, c = .C3 ∨ c = .C4 ∨ c = .C6 ∨ c = .C11

/-- What holds in every state. -/
structure Safe (a : Activity) : Prop where
  queue : Queue s
  book : Book s.host
  doing : s.Doing a
  wires : s.Wires a
  clean : s.Clean

end Sim

end Grxcp.BoardTransport
