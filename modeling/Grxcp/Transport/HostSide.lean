import Grxcp.Transport.ModuleSide

/-!
# The host's side, and the run

The driver publishes a command into a slot and rings the doorbell, ends the oldest slot once it has a
status, and tears the queue down: it clears ENABLE, reads PTQ_STATUS until ENABLED is zero, or resets the
module when its patience is out, ends what is left as lost and starts the queue again. While it tears
down its script stands still.

A tick delivers what is due (`deliver`), watches (`watch`), and gives the script its turn (`op`) before
the next (`tick`). The loops of the script that poll are moves of their own, so every script that is made
of the driver's calls is a list of moves.
-/

namespace Grxcp.BoardTransport

open Agenda

/-- `Host.addr`. -/
def slotAddr (idx : ℕ) : ℕ :=
  RING + idx % 2 ^ RING_LOG2 * SLOT

/-- The index that a command that is done has to have. -/
def indexOk (h : Host) (index : ℕ) : Prop :=
  if h.restart then index = 0
  else if h.slack then index = h.last + 1 ∨ index = h.last + 2
  else index = h.last + 1

instance (h : Host) (index : ℕ) : Decidable (indexOk h index) := by
  unfold indexOk
  infer_instance

namespace Sim

def setHost (s : Sim) (h : Host) : Sim :=
  { s with host := h }

/-- `Host.status`. -/
def status (s : Sim) (idx : ℕ) : ℕ :=
  u32 (s.mem (slotAddr idx)) 0x30

/-- `Host.write`. -/
def hostWrite (s : Sim) (off : Reg) (val : ℕ) : Sim :=
  (if off = .ctrl then s.setHost { s.host with ctrl := val } else s).mmioWrite off val

/-- `set_seed`. -/
def setSeed (s : Sim) (seed : ℕ) : Sim :=
  let s := s.hostWrite .seed seed
  s.setHost { s.host with seed := seed, restart := true }

/-- `ring`. -/
def ring (s : Sim) : Sim :=
  s.hostWrite .tail s.host.next

/-! ## Publishing -/

/-- The loop of `take` over the lines. -/
def storeLines (raw : Line) (a : ℕ) : ℕ → Sim → Sim
  | 0, s => s
  | n + 1, s => (storeLines raw a n s).store (a + n * LINE) (lineOf raw n)

/-- `take`: a new buffer of so many lines, the data in it and the rest filled. -/
def take (s : Sim) (nbytes : ℕ) (fill : BitVec 8) (data : Line) : Sim × ℕ :=
  let a := s.host.alloc
  let n := lines nbytes
  let raw := data ++ List.replicate (n * LINE - data.length) fill
  let s := storeLines raw a n s
  (s.setHost { s.host with alloc := a + n * LINE }, a)

/-- The loop of `publish` that notes whose a line of results is. -/
def own (idx out : ℕ) : ℕ → Sim → Sim
  | 0, s => s
  | n + 1, s =>
    let s := own idx out n s
    s.setHost { s.host with owner := Function.update s.host.owner (out + n * LINE) (some idx) }

/-- `room`. -/
def hasRoom (s : Sim) : Prop :=
  s.host.next - s.host.hhead < 2 ^ RING_LOG2

/-- `publish`, after its wait for room. -/
def publish (s : Sim) (c : Cmd) : Sim :=
  let idx := s.host.next
  let (s, act) := s.take (c.M * c.K) 0 c.A
  let (s, wgt) := s.take (c.K * c.N) 0 c.W
  let (s, out) := s.take (c.M * c.N * R_BYTES) SENTINEL []
  let n := lines (c.M * c.N * R_BYTES)
  let s := own idx out n s
  let desc := packDesc (2 ^ 16 + 64) (c.bank * 2 ^ 8 ||| c.flags) c.fmt c.M c.K c.N act wgt out
  let c : Published := { c with act := act, wgt := wgt, out := out, outLines := n, seed := s.host.seed, desc := desc }
  let slot := idx % 2 ^ RING_LOG2
  let s := match s.host.slotOf slot with
    | some was => if was ∈ s.host.ended then s else s.fail .C8
    | none => s
  let s := s.store (slotAddr idx) desc
  s.setHost { s.host with
    slotOf := Function.update s.host.slotOf slot (some idx), cmds := Function.update s.host.cmds idx (some c),
      next := idx + 1 }

/-! ## Ending -/

/-- The results' buffer of a command, as it is in memory. -/
def outBytes (s : Sim) (c : Published) : Line :=
  (List.range c.outLines).flatMap fun i => s.mem (c.out + i * LINE)

/-- The check that a condition of the simulation holds. -/
def check (s : Sim) (c : Check) (ok : Prop) [Decidable ok] : Sim :=
  if ok then s else s.fail c

/-- `complete`. -/
def complete (s : Sim) (idx : ℕ) (rec : Line) (c : Published) : Sim :=
  let status := u32 rec 0x30
  let index := u32 rec 0x34
  let s := s.check .C7 (rec.take 0x30 = c.desc.take 0x30)
  let s := s.check .C3 (status = c.expect ∨ c.teardown ∧ status = LOST)
  let out := s.outBytes c
  let s :=
    if status = DONE then
      let want := gemm (c.A.map BitVec.toInt) (c.W.map BitVec.toInt) c.M c.K c.N (gemmSeed c.seed index)
      let s := s.check .C1 (((List.range (c.M * c.N)).map fun j => i32 out (4 * j)) = want)
      let s := s.check .C4 (indexOk s.host index)
      s.setHost { s.host with last := index, restart := false, slack := false }
    else if status = REFUSED ∨ status = NOT_ISSUED ∨ status = NOT_RUN then
      (s.check .C2 (out = List.replicate out.length SENTINEL)).check .C4 (index = NO_INDEX)
    else s
  s.setHost { s.host with
    ends := Function.update s.host.ends (min status 5) (s.host.ends (min status 5) + 1),
    ended := insert idx s.host.ended, hhead := idx + 1 }

/-- `try_end`, where it ends one. -/
def tryEnd (s : Sim) : Option Sim :=
  if s.host.hhead = s.host.next ∨ s.status s.host.hhead = PENDING then none
  else (s.host.cmds s.host.hhead).map fun c => s.complete s.host.hhead (s.mem (slotAddr s.host.hhead)) c

/-- The loop of `teardown` over the slots that the module has ended. -/
def endBehind : ℕ → Sim → Sim
  | 0, s => s
  | k + 1, s =>
    match s.tryEnd with
    | none => s
    | some s' => endBehind k s'

/-- The first loop of `end_lost`: a slot's status is lost. -/
def markLost (s : Sim) (idx : ℕ) : Sim :=
  let rec' := s.mem (slotAddr idx)
  s.store (slotAddr idx) (rec'.take 0x30 ++ le32 LOST ++ rec'.drop 0x34)

/-- The second loop of `end_lost`. -/
def endOne (s : Sim) (idx : ℕ) : Sim :=
  if s.status idx = PENDING then
    let s := s.fail .C10
    s.setHost { s.host with ended := insert idx s.host.ended, hhead := idx + 1 }
  else
    match s.host.cmds idx with
    | some c => s.complete idx (s.mem (slotAddr idx)) c
    | none => s

/-- `end_lost`: the slots the module will not end are the host's again. -/
def endLost (s : Sim) : Sim :=
  let idxs := List.range' s.host.hhead (s.host.next - s.host.hhead)
  let s := idxs.foldl endOne (idxs.foldl markLost s)
  s.setHost { s.host with slack := true }

/-! ## Teardown -/

/-- `restart_queue`: the tail, while disabled, is where the ring starts. -/
def restartQueue (s : Sim) : Sim :=
  let s := s.hostWrite .tail s.host.next
  let s := s.hostWrite .ctrl (s.host.ctrl / 2 * 2 + 1)
  s.setHost { s.host with origin := s.host.next }

/-- A read inside the teardown. -/
def ask (s : Sim) (off : Reg) (phase : ℕ → Phase) : Sim :=
  let (s, box) := s.mmioRead off
  s.setHost { s.host with phase := phase box }

/-- `teardown`, up to its first read. -/
def teardown (s : Sim) : Sim :=
  let s := s.setHost { s.host with teardowns := s.host.teardowns + 1 }
  let s := s.hostWrite .ctrl (s.host.ctrl / 2 * 2)
  s.ask .status (.status s.t)

/-- The ring's place, written into a module that has been reset. -/
def placeRing (s : Sim) : Sim :=
  ((s.hostWrite .baseLo RING).hostWrite .baseHi 0).hostWrite .size RING_LOG2

/-- The rest of `teardown`, when what it waits for is here. -/
def resume (s : Sim) : Option Sim :=
  match s.host.phase with
  | .script => none
  | .status t0 box => (s.boxes box).map fun v =>
    if v % 2 = 1 then
      if T_QUIESCE < s.t - t0 then
        (s.after L 1 .reset).setHost { s.host with phase := .resetting (s.t + 2 * L) }
      else s.ask .status (.status t0)
    else s.ask .head .head
  | .head box => (s.boxes box).map fun head =>
    let s := (endBehind (head - s.host.hhead) s).endLost.restartQueue
    s.setHost { s.host with phase := .script }
  | .resetting wake =>
    if s.t < wake then none
    else
      let s := (s.placeRing.setSeed s.host.seed).endLost
      let s := (s.setHost { s.host with restart := true }).restartQueue
      some (s.setHost { s.host with phase := .script })

/-! ## What is checked by itself -/

/-- `watch`: behind `PTQ_HEAD` every slot has its status. -/
def watch (s : Sim) : Sim :=
  let m := s.module
  if ¬m.enable then s
  else
    let first := max s.host.origin (m.head - 2 ^ RING_LOG2)
    s.check .C5 (∀ idx ∈ List.range' first (m.head - first),
      s.host.slotOf (idx % 2 ^ RING_LOG2) = some idx → idx ∈ s.host.ended ∨ s.status idx ≠ PENDING)

/-- `msi`. -/
def msi (s : Sim) : Sim :=
  let s := s.setHost { s.host with msis := s.host.msis + 1 }
  s.check .C6 (∀ idx ∈ List.range' s.host.hhead (s.host.irqAt - s.host.hhead),
    idx ∈ s.host.ended ∨ s.status idx ≠ PENDING)

/-! ## The run -/

/-- What an event does. -/
def handle (s : Sim) : Event → Sim
  | .write off val => s.writeReg off val
  | .read off box => s.readReg off box
  | .append box v => { s with boxes := Function.update s.boxes box (some v) }
  | .atHost g a => s.atHost g a
  | .back g a data => s.back g a data
  | .land addr data => s.land addr data
  | .go gen andThen => s.go gen andThen
  | .shot r m => s.shot r m
  | .msi => s.msi
  | .reset => s.moduleReset

/-- What a script calls. -/
inductive Op
  | publish (c : Cmd)
  | ring
  | tryEnd
  | setSeed (seed : ℕ)
  | irqEn (on : Bool)
  | irqAt
  | wedgeAt (idx : ℕ)
  | teardown
  | resume

/-- A move of the run. -/
inductive Move
  | deliver
  | watch
  | op (o : Op)
  | tick

/-- The script is not inside a teardown. -/
def free (s : Sim) : Prop :=
  match s.host.phase with
  | .script => True
  | _ => False

instance (s : Sim) : Decidable s.free := by
  unfold free
  split <;> infer_instance

instance (s : Sim) : Decidable s.hasRoom :=
  inferInstanceAs (Decidable (_ < _))

/-- A call of the script, where it can be made. -/
def call (s : Sim) : Op → Option Sim
  | .resume => s.resume
  | .publish c => if s.free ∧ s.hasRoom then some (s.publish c) else none
  | .ring => if s.free then some s.ring else none
  | .tryEnd => if s.free then s.tryEnd else none
  | .setSeed seed => if s.free then some (s.setSeed seed) else none
  | .irqEn on => if s.free then some (s.hostWrite .ctrl (if on then 3 else 1)) else none
  | .irqAt =>
    if s.free then some ((s.setHost { s.host with irqAt := s.host.next }).hostWrite .irqAt s.host.next) else none
  | .wedgeAt idx => if s.free then some (s.setModule { s.module with wedgeAt := some idx }) else none
  | .teardown => if s.free then some s.teardown else none

/-- The first entry, if it is due. -/
def due? (s : Sim) : Option (Event × Sim) :=
  match s.q with
  | [] => none
  | e :: q => if e.due ≤ s.t then some (e.fn, { s with q := q }) else none

/-- A move, where it can be made. -/
def step (s : Sim) : Move → Option Sim
  | .deliver => if s.turn then none else s.due?.map fun e => e.2.handle e.1
  | .watch => if s.turn ∨ s.due?.isSome then none else some { s.watch with turn := true }
  | .op o => if s.turn then s.call o else none
  | .tick => if s.turn then some { s with t := s.t + 1, turn := false } else none

/-- The start: the first lines of `script`. -/
def boot (rng : ℕ → Fin (JITTER + 1)) (seed : ℕ) : Sim :=
  let s : Sim := { rng := rng, turn := true }
  (s.placeRing.setSeed seed).restartQueue

end Sim

end Grxcp.BoardTransport
