import Grxcp.Transport.Link

/-!
# The module's side

The PTA module's queue and tile: one command at a time, in order. It reads the descriptor of the slot at
`head`, then the operands, runs a shot a tick and writes a line of results once it is full. The record
is written when every line of results is ordered at the host, and `head` moves when the record is.
Teardown drops what runs and reads ENABLED as zero once no line of its own is in flight.
-/

namespace Grxcp.BoardTransport

/-- The record: line 0 of the slot rewritten whole, the host's fields as the module read them. -/
def recordOf (d : Line) (status index : ℕ) : Line :=
  d.take 0x30 ++ (le32 status ++ le32 index ++ le64 0)

/-- `usable` of `got_descriptor`. -/
def usable (d : Line) : Prop :=
  u32 d 0 = 2 ^ 16 + 64 ∧ u32 d 8 = 0 ∧ u32 d 12 ≠ 0 ∧ u32 d 16 ≠ 0 ∧ u32 d 20 ≠ 0 ∧
    (u64 d 24 ||| u64 d 32 ||| u64 d 40) % LINE = 0 ∧ (u32 d 4 / 2 ^ 16 * 2 ^ 16 = 0 ∨
    u32 d 4 / 2 ^ 16 * 2 ^ 16 = AFTER_SUCCESS)

instance (d : Line) : Decidable (usable d) :=
  inferInstanceAs (Decidable (_ ∧ _ ∧ _ ∧ _ ∧ _ ∧ _ ∧ _))

namespace Sim

def setModule (s : Sim) (m : Module) : Sim :=
  { s with module := m }

def setRun (s : Sim) (r : ℕ) (run : Shots) : Sim :=
  { s with runs := Function.update s.runs r run }

def setRead (s : Sim) (g : ℕ) (read : ReadLines) : Sim :=
  { s with reads := Function.update s.reads g read }

/-- `slot`. -/
def slot (s : Sim) (idx : ℕ) : ℕ :=
  s.module.base + idx % 2 ^ s.module.sizeLog2 * SLOT

/-! ## The link -/

/-- `mmio_write`: posted, and in order a crossing later. -/
def mmioWrite (s : Sim) (off : Reg) (val : ℕ) : Sim :=
  s.after L 1 (.write off val)

/-- `mmio_read`, into a new box. -/
def mmioRead (s : Sim) (off : Reg) : Sim × ℕ :=
  ({ s with boxCt := s.boxCt + 1 }.after L 1 (.read off s.boxCt), s.boxCt)

/-- The loop of `read_lines` over the addresses. -/
def askLines (g : ℕ) : List ℕ → Sim → Sim
  | [], s => s
  | a :: addrs, s => askLines g addrs (s.draw.after s.lag 1 (.atHost g a))

/-- `read_lines`: each line read at the host a crossing or more later, and back one after. -/
def readLines (s : Sim) (addrs : List ℕ) (next : Next) : Sim :=
  askLines s.readCt addrs
    ({ s with readCt := s.readCt + 1 }.setRead s.readCt ⟨addrs, next, s.module.job, s.module.gen, []⟩)

/-- `write_line`: ordered at the host a crossing or more later, and the module learns it a crossing
after that. -/
def writeLine (s : Sim) (addr : ℕ) (data : Line) (andThen : After) : Sim :=
  let lag := s.lag
  let s := (s.setModule { s.module with inflight := s.module.inflight + 1 }).draw
  (s.after lag 0 (.land addr data)).after (lag + L) 1 (.go s.module.gen andThen)

/-! ## The queue -/

/-- `reset`: power-on, and a function-level reset. -/
def moduleReset (s : Sim) : Sim :=
  s.setModule { gen := s.module.gen + 1, resets := s.module.resets + 1, wedgeAt := s.module.wedgeAt }

/-- `settle`. -/
def settle (s : Sim) : Sim :=
  if s.module.draining ∧ s.module.inflight = 0 then
    s.setModule { s.module with enabled := false, draining := false }
  else s

/-- `kick`. -/
def kick (s : Sim) : Sim :=
  if s.module.enable ∧ ¬(s.module.busy ∨ s.module.halted ≠ 0 ∨ s.module.wedged) ∧ s.module.head ≠ s.module.tail then
    let s := s.setModule { s.module with busy := true }
    s.readLines [s.slot s.module.head] (.gotDescriptor s.module.head)
  else s

/-- `irq`. -/
def irq (s : Sim) (head : ℕ) : Sim :=
  if s.module.irqEn ∧ head = s.module.irqAt then s.after L 2 .msi else s

/-- `ended`. -/
def ended (s : Sim) (idx status job : ℕ) : Sim :=
  let s := s.setModule { s.module with busy := false }
  if job ≠ s.module.job ∨ ¬s.module.enable then s
  else
    let s := s.setModule { s.module with head := (idx + 1) % 2 ^ 32, prev := some status }
    (s.irq s.module.head).kick

/-- `end`: `head` moves, and the interrupt is raised, once the record is ordered. -/
def endSlot (s : Sim) (idx : ℕ) (d : Line) (status index : ℕ) : Sim :=
  s.writeLine (s.slot idx) (recordOf d status index) (.ended idx status s.module.job)

/-- `start`. -/
def start (s : Sim) (idx : ℕ) (d : Line) (M K N act wgt out status : ℕ) : Sim :=
  let index := s.module.gemmCt
  let s := s.setModule { s.module with gemmCt := s.module.gemmCt + 1 }
  let wl := (List.range (lines (K * N))).map fun i => wgt + i * LINE
  let al := (List.range (lines (M * K))).map fun i => act + i * LINE
  s.readLines (wl ++ al) (.shots idx d M K N out index s.module.seed wl.length status)

/-- `got_descriptor`. -/
def gotDescriptor (s : Sim) (d : Line) (idx : ℕ) : Sim :=
  if s.module.wedgeAt = some idx then
    -- it stops answering, and stays stopped
    s.setModule { s.module with wedged := true }
  else if ¬usable d then s.endSlot idx d NOT_ISSUED NO_INDEX
  else if BANKS ≤ u32 d 4 / 2 ^ 8 % 2 ^ 8 then s.endSlot idx d REFUSED NO_INDEX
  else if u32 d 4 / 2 ^ 16 * 2 ^ 16 = AFTER_SUCCESS ∧ s.module.prev ≠ none ∧ s.module.prev ≠ some DONE then
    s.endSlot idx d NOT_RUN NO_INDEX
  else s.start idx d (u32 d 12) (u32 d 16) (u32 d 20) (u64 d 24) (u64 d 32) (u64 d 40) DONE

/-- `shots`: the operands are here, and the first shot is a tick away. -/
def shots (s : Sim) (datas : List Line) (idx : ℕ) (d : Line) (M K N out index seed nw status : ℕ) : Sim :=
  let W := ((datas.take nw).flatten.take (K * N)).map BitVec.toInt
  let A := ((datas.drop nw).flatten.take (M * K)).map BitVec.toInt
  let sums := gemm A W M K N (gemmSeed seed index)
  let run : Shots := ⟨idx, d, M, N, out, index, status, resultBytes sums, lines (M * N * R_BYTES), s.module.job, 0, 0⟩
  ({ s with runCt := s.runCt + 1 }.setRun s.runCt run).after 1 1 (.shot s.runCt 0)

/-- The loop of `shot` that sends the lines that are full. -/
def sendLines (r : ℕ) : ℕ → Sim → Sim
  | 0, s => s
  | k + 1, s =>
    let run := s.runs r
    let s := s.setRun r { run with sent := run.sent + 1 }
    sendLines r k (s.writeLine (run.out + run.sent * LINE) (lineOf run.raw run.sent) (.ordered r))

/-- `shot`: one a tick, and a line goes once it is full. -/
def shot (s : Sim) (r m : ℕ) : Sim :=
  let run := s.runs r
  if run.job ≠ s.module.job then s
  else
    let full := min run.n (if m + 1 = run.M then run.n else (m + 1) * run.N * R_BYTES / LINE)
    let s := sendLines r (full - run.sent) s
    if m + 1 < run.M then s.after 1 1 (.shot r (m + 1)) else s

/-- `ordered`. -/
def ordered (s : Sim) (r : ℕ) : Sim :=
  let run := { s.runs r with ordered := (s.runs r).ordered + 1 }
  let s := s.setRun r run
  if run.ordered = run.n ∧ run.job = s.module.job then s.endSlot run.idx run.d run.status run.index else s

/-- `go` of `write_line`. -/
def go (s : Sim) (gen : ℕ) (andThen : After) : Sim :=
  if gen ≠ s.module.gen then s
  else
    let s := s.setModule { s.module with inflight := s.module.inflight - 1 }
    let s := match andThen with
      | .ordered r => s.ordered r
      | .ended idx status job => s.ended idx status job
    s.settle

/-- `at_host` of `read_lines`. -/
def atHost (s : Sim) (g a : ℕ) : Sim :=
  s.after L 1 (.back g a (s.mem a))

/-- `then` of a read. -/
def runNext (s : Sim) (datas : List Line) : Next → Sim
  | .gotDescriptor idx => s.gotDescriptor (datas.getD 0 []) idx
  | .shots idx d M K N out index seed nw status => s.shots datas idx d M K N out index seed nw status

/-- `back` of `read_lines`. The lines that are back are a dictionary under their addresses. -/
def back (s : Sim) (g a : ℕ) (data : Line) : Sim :=
  let read := s.reads g
  if (read.job, read.gen) ≠ (s.module.job, s.module.gen) then s
  else
    let got := (a, data) :: read.got.filter (·.1 ≠ a)
    let s := s.setRead g { read with got := got }
    if got.length = read.addrs.length then
      s.runNext (read.addrs.map fun x => (got.lookup x).getD []) read.next
    else s

/-! ## The registers -/

/-- `_read`. -/
def readReg (s : Sim) (off : Reg) (box : ℕ) : Sim :=
  let m := s.module
  let v := match off with
    | .status => m.enabled.toNat + 2 * (if m.halted ≠ 0 then 1 else 0) + 2 ^ 8 * m.halted
    | .head => m.head
    | _ => 0
  s.after L 2 (.append box v)

/-- `_write` of `PTQ_CTRL`. -/
def writeCtrl (s : Sim) (val : ℕ) : Sim :=
  let en : Bool := val % 2 = 1
  let s := s.setModule { s.module with irqEn := val / 2 % 2 = 1 }
  if en ∧ ¬s.module.enable then
    (s.setModule { s.module with
      enable := true, enabled := true, head := s.module.tail, prev := none, halted := 0 }).kick
  else if ¬en ∧ s.module.enable then
    -- what was running is dropped
    (s.setModule { s.module with enable := false, job := s.module.job + 1, busy := false, draining := true }).settle
  else s

/-- `_write` of `PTQ_TAIL`, the doorbell. -/
def writeTail (s : Sim) (val : ℕ) : Sim :=
  let m := s.module
  if ¬m.enable then s.setModule { m with tail := val }
  else if 2 ^ m.sizeLog2 < ((val - m.head : ℤ) % 2 ^ 32).toNat ∨ 2 ^ 31 < ((val - m.tail : ℤ) % 2 ^ 32).toNat then
    s.setModule { m with halted := 1 }
  else (s.setModule { m with tail := val }).kick

/-- `_write`. -/
def writeReg (s : Sim) (off : Reg) (val : ℕ) : Sim :=
  let m := s.module
  if m.wedged then s
  else match off with
    | .ctrl => s.writeCtrl val
    | .baseLo => if m.enable then s else s.setModule { m with base := m.base / 2 ^ 32 * 2 ^ 32 ||| val }
    | .baseHi => if m.enable then s else s.setModule { m with base := m.base % 2 ^ 32 ||| val * 2 ^ 32 }
    | .size => if m.enable then s else s.setModule { m with sizeLog2 := val }
    | .tail => s.writeTail val
    | .irqAt => s.setModule { m with irqAt := val }
    | .seed =>
      let s := if m.head ≠ m.tail ∨ m.busy then s.fail .C11 else s
      s.setModule { m with seed := val, gemmCt := 0 }
    | _ => s

end Sim

end Grxcp.BoardTransport
