import Grxcp.Lib.Registers
import Grxcp.Lib.Runs
import Grxcp.Libs.Grxblas
import Grxcp.Runtime.StreamCalls

/-!
# Descriptor slots that handles share

A mixed-precision GEMM programs two descriptor slots and launches a kernel that reads them, all on the
stream of its handle; the slots are the device's, and every handle has the same two by default. The
programs run on one device. Calls on several handles go on at the same time, each of them asking the
runtime for one thing after the other (`SlotAction.advance`), among any calls of the runtime and any
completions.

While a launch can be running, the registers hold what its own call wrote (`ReadsOwn`) in every run in
which each call that programs a slot minds the others: what uses the slot comes before it, or is done, and
no other call has programmed the slot with its launch yet to come (`reads_own`).
-/

namespace Grxcp.Runtime.Streams

/-! ## Programming a descriptor on a stream -/

/-- The writes of a descriptor are enqueued: the first has the wait list. -/
def enqueueWrites (s : Streams) (queue : Queue) : List ℕ → List DcrWrite → Streams
  | _, [] => s
  | waits, w :: ws =>
    enqueueWrites { s with board := s.board.issue ⟨queue, waits, .work (.program w)⟩ } queue [] ws

/-- `grxTensorMapProgramAsync` once its writes are known. If the driver refuses one of them, those before
it are in the queue, and the stream has no new last event. With whether the call succeeds. -/
def submitProgram (P : Platform) (s : Streams) (stream : Option ℕ) (device : ℕ) (ws : List DcrWrite)
    (r : Replies) (refused : Option ℕ) : Streams × Bool :=
  match resolveStream P s stream device r with
  | (s, .error _) => (s, false)
  | (s, .ok queue) =>
    let waits := collectWaitEvents s stream device
    match refused with
    | some n => (s.enqueueWrites queue waits (ws.take n), false)
    | none =>
      let s := s.enqueueWrites queue waits ws
      let completion := s.board.log.length - 1
      let s := { s with refs := Function.update s.refs completion 1 }
      (s.setStreamLastEvent stream device completion, true)

end Grxcp.Runtime.Streams

namespace Grxcp.Blas

open Grxcp.Runtime
open Queues (Before Covers Prec Latest)

/-! ## Calls at the same time -/

/-- What a command of the log is to the GEMMs. -/
inductive Role
  | other
  | program (call : ℕ)
  | launch (call : ℕ)
deriving DecidableEq

/-- A call in progress, and what it has yet to ask for. -/
structure Progress where
  call : ℕ
  rest : List Issue

/-- The runtime, the handles with their calls in progress, and the registers of the device's slots. Of
each call the descriptors that it programs are kept, of each command whose it is, and which commands were
done when it was issued. -/
structure SlotState where
  runtime : Runtime.Context := {}
  handles : ℕ → Context := fun _ => {}
  progress : ℕ → Option Progress := fun _ => none
  calls : ℕ := 0
  descs : ℕ → List GrxTensorMapDesc := fun _ => []
  role : ℕ → Role := fun _ => .other
  seen : ℕ → Finset ℕ := fun _ => ∅
  regs : SlotRegs := fun _ => 0

/-- The descriptors among what was asked. -/
def programs (issued : List Issue) : List GrxTensorMapDesc :=
  issued.filterMap fun
    | .launch _ => none
    | .program p => some p.desc

namespace SlotState

abbrev board (s : SlotState) : Board :=
  s.runtime.streams.board

/-- What command `i` writes. -/
def writes (s : SlotState) (i : ℕ) : Option DcrWrite :=
  match s.board.log[i]? with
  | some ⟨_, _, .work (.program w)⟩ => some w
  | _ => none

/-- The runtime's streams, with the new commands of `role`. -/
def takes (s : SlotState) (streams : Streams) (role : Role) : SlotState :=
  let new := fun i => s.board.log.length ≤ i ∧ i < streams.board.log.length
  { s with
    runtime := { s.runtime with streams }
    role := fun i => if new i then role else s.role i
    seen := fun i => if new i then s.board.done else s.seen i }

/-- A call of the runtime's, which is no GEMM. -/
def call (P : Platform) (s : SlotState) (c : ApiCall) : SlotState :=
  let x := (s.runtime.call P c).1
  { s.takes x.streams .other with runtime := x }

/-- A command completes. -/
def complete (s : SlotState) (i : ℕ) : SlotState :=
  let streams := { s.runtime.streams with board := s.board.complete i }
  { s with
    runtime := { s.runtime with streams }
    regs :=
      match s.writes i with
      | some w => if i ∉ s.board.done ∧ i ∈ streams.board.done then
          Function.update s.regs w.1 w.2 else s.regs
      | none => s.regs }

/-- A call on a handle asks the runtime for one thing. With whether it goes on. -/
def ask (P : Platform) (device : ℕ) (s : SlotState) (call kernel : ℕ) (r : Replies) (taken : ℕ) :
    Issue → SlotState × Bool
  | .launch l =>
    if l.refused.isSome then (s, true)
    else
      match Streams.submit P s.runtime.streams l.stream device (.work (.launch ⟨device, kernel⟩)) r
        fun s _ => s with
      | (streams, res) => (s.takes streams (if l.slots.isSome then .launch call else .other), res.isOk)
  | .program p =>
    let refused := if p.refused.isNone ∧ r.enqueue.isNone then none else some taken
    match Streams.submitProgram P s.runtime.streams p.stream device p.desc.writes r refused with
    | (streams, ok) => (s.takes streams (.program call), ok)

end SlotState

/-- What happens next: a call of the runtime's, a completion, a setter of a handle, a GEMM that begins on
a handle, or the next step of one. -/
inductive SlotAction
  | call (c : ApiCall)
  | complete (i : ℕ)
  | setStream (handle : ℕ) (stream : Option ℕ)
  | setTensorMapSlots (handle : ℕ) (slotA slotB : Int32)
  | gemmEx (handle : ℕ) (s : GemmExArgs) (r : LoadReplies) (h i8 : ShapeReplies) (g : GemmReplies)
  | advance (handle kernel : ℕ) (r : Replies) (taken : ℕ)

/-- A GEMM begins. -/
def SlotAction.isGemm : SlotAction → Bool
  | .gemmEx .. => true
  | _ => false

/-- What an action does. The calls on a handle are one after the other. -/
def SlotState.step (M : Machine) (P : Platform) (device : ℕ) (s : SlotState) : SlotAction → SlotState
  | .call c => s.call P c
  | .complete i => s.complete i
  | .setStream handle stream =>
    if (s.progress handle).isSome then s
    else
      let ctx := grxblasSetStream (s.handles handle) stream
      { s with handles := Function.update s.handles handle ctx }
  | .setTensorMapSlots handle slotA slotB =>
    if (s.progress handle).isSome then s
    else
      let ctx := (grxblasSetTensorMapSlots M (s.handles handle) slotA slotB).ctx
      { s with handles := Function.update s.handles handle ctx }
  | .gemmEx handle args r h i8 g =>
    if (s.progress handle).isSome then s
    else
      let o := grxblasGemmEx M device (s.handles handle) args r h i8 g
      { s with
        handles := Function.update s.handles handle o.ctx
        progress := Function.update s.progress handle (some ⟨s.calls, o.issued⟩)
        calls := s.calls + 1
        descs := Function.update s.descs s.calls (programs o.issued) }
  | .advance handle kernel r taken =>
    match s.progress handle with
    | none => s
    | some ⟨_, []⟩ => { s with progress := Function.update s.progress handle none }
    | some ⟨call, issue :: rest⟩ =>
      match s.ask P device call kernel r taken issue with
      | (s, true) => { s with progress := Function.update s.progress handle (some ⟨call, rest⟩) }
      | (s, false) => { s with progress := Function.update s.progress handle none }

/-! ## Statements -/

namespace SlotState

/-- While a GEMM's launch can be running, the registers of its slots hold what its own call wrote. -/
def ReadsOwn (s : SlotState) : Prop :=
  ∀ i call c, s.role i = .launch call → s.board.log[i]? = some c → s.board.Free i c →
    ∀ d ∈ s.descs call, ∀ field v, Writes.last (d.slot, field) d.writes = some v →
      s.regs (d.slot, field) = v

/-- A command of another call uses the slot. -/
def Uses (s : SlotState) (call : ℕ) (slot : ℤ) (i : ℕ) : Prop :=
  ∃ c, c ≠ call ∧
    ((s.role i = .program c ∧ ∃ w, s.writes i = some w ∧ w.1.1 = slot) ∨
      (s.role i = .launch c ∧ ∃ d ∈ s.descs c, d.slot = slot))

/-- A call in progress on the handle has programmed the slot, and its launch is yet to come. -/
def Holds (s : SlotState) (handle : ℕ) (slot : ℤ) : Prop :=
  ∃ p, s.progress handle = some p ∧ (∃ d ∈ s.descs p.call, d.slot = slot) ∧
    (∀ d ∈ programs p.rest, d.slot ≠ slot) ∧
    ∃ l ∈ launches p.rest, l.slots.isSome ∧ l.refused = none

/-- What a call in progress programs next has nothing to fear: what others use the slot with is done, or
comes before it, and no other call holds the slot. -/
def Minds (P : Platform) (device : ℕ) (s : SlotState) : SlotAction → Prop
  | .advance handle _ r taken => ∀ call p rest, s.progress handle = some ⟨call, .program p :: rest⟩ →
      ∀ streams queue,
        Streams.resolveStream P s.runtime.streams p.stream device r = (streams, .ok queue) →
        (p.refused = none ∧ r.enqueue = none) ∨ 0 < taken →
        (∀ i, s.Uses call p.desc.slot i → i ∈ s.board.done ∨ ∀ w : DcrWrite,
          Covers s.board.log ⟨queue, streams.collectWaitEvents p.stream device, .work (.program w)⟩ i) ∧
        ∀ handle' ≠ handle, ¬ s.Holds handle' p.desc.slot
  | _ => True

end SlotState

end Grxcp.Blas
