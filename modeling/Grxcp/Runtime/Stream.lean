import Grxcp.Lib.OrdMap
import Grxcp.Lib.Timeline
import Grxcp.Runtime.TensorMap

/-!
# Streams and events

`stream.cpp` and `event.cpp`. A stream is a driver queue with the completion event of its most recent
enqueue. Every enqueue goes through the same calls: `resolve_stream` finds the queue,
`collect_wait_events` what the command has to wait for, the driver takes the command and returns its
completion event, and `set_stream_last_event` makes that the stream's. A null stream is made on first
use. An event is a counter of the driver's, and each record raises it by one.

The driver is the log of the commands it took; a completion event goes by the index of its command in
the log, and `refs` counts the references the runtime has to it. Handles are numbers that have not
been given out before. Neither the sanitizer nor the profiler is on: they only add synchronization.
-/

namespace Grxcp.Runtime

/-! ## Commands -/

/-- A range of a driver buffer that a command names, with the pointer it was made from. -/
structure Operand where
  buffer : Option Buffer
  offset : ℕ
  address : ℕ
  size : ℕ
deriving DecidableEq

/-- What `vx_enqueue_copy`, `vx_enqueue_write`, `vx_enqueue_read`, `vx_enqueue_fill_buffer`,
`vx_enqueue_launch` and `vx_enqueue_dcr_write` name on the device. -/
inductive Work
  | copy (dst src : Operand)
  | write (dst : Operand)
  | read (src : Operand)
  | fill (dst : Operand)
  | launch (kernel : Kernel)
  | program (write : DcrWrite)
deriving DecidableEq

/-- A command. `vx_enqueue_signal` and `vx_enqueue_wait_value` are the bodies that name a counter. -/
abbrev Command :=
  Queues.Command Queue ℕ Work

/-- The driver's queues. -/
abbrev Board :=
  Queues.Board Queue ℕ Work

/-- What the layers below answer during a call: `acquire_device`, `vx_queue_create`,
`vx_event_create`, and the enqueue. -/
structure Replies where
  acquire : Option GrxError := none
  queue : Option VxError := none
  event : Option VxError := none
  enqueue : Option VxError := none
deriving DecidableEq

/-! ## The tables -/

def grxStreamNonBlocking : UInt32 := 1

/-- `StreamState`. -/
structure StreamState where
  queue : Queue
  device : ℕ
  flags : UInt32 := 0
  isNull : Bool := false
  lastEvent : Option ℕ := none
deriving DecidableEq

/-- The stream does not synchronize with the null stream. -/
def StreamState.nonBlocking (t : StreamState) : Bool :=
  t.flags &&& grxStreamNonBlocking ≠ 0

/-- `EventState`, but for its flags and host time. -/
structure EventState where
  event : ℕ
  target : ℕ := 0
  device : ℕ
  recorded : Bool := false
  completion : Option ℕ := none
deriving DecidableEq

/-- The counter value of the next record. -/
def EventState.nextTarget (ev : EventState) : ℕ :=
  (ev.target + 1) % 2 ^ 64

/-- `g_streams`, `g_null_streams` and `g_events`, and the driver. `fresh` is the next handle. -/
structure Streams where
  streams : OrdMap ℕ StreamState := .empty
  nullStreams : OrdMap ℕ StreamState := .empty
  events : OrdMap ℕ EventState := .empty
  board : Board := {}
  refs : ℕ → ℕ := fun _ => 0
  fresh : ℕ := 1

namespace Streams

/-- `vx_event_retain`, of a completion event. -/
def retain (s : Streams) (h : ℕ) : Streams :=
  { s with refs := Function.update s.refs h (s.refs h + 1) }

/-- `vx_event_release`, of a completion event. -/
def release (s : Streams) (h : ℕ) : Streams :=
  { s with refs := Function.update s.refs h (s.refs h - 1) }

/-- Release what a slot held. -/
def releaseSlot (s : Streams) : Option ℕ → Streams
  | none => s
  | some h => s.release h

/-- The driver takes a command: its completion event has the one reference that is returned. -/
def enqueue (s : Streams) (c : Command) : Streams :=
  { s with
    board := s.board.issue c
    refs := Function.update s.refs s.board.log.length 1 }

/-! ## Streams -/

/-- `make_queue`. -/
def makeQueue (P : Platform) (device id : ℕ) (r : Replies) : Except GrxError Queue :=
  match r.acquire with
  | some e => .error e
  | none =>
      if (P.device device).capabilities &&& GRX_CAP_STREAMS = 0 then .error .notSupported
      else
        match r.queue with
        | some x => .error (mapResult x)
        | none => .ok ⟨device, id⟩

/-- `null_stream_locked`. -/
def nullStreamLocked (P : Platform) (s : Streams) (device : ℕ) (r : Replies) :
    Streams × Option StreamState :=
  match s.nullStreams.find? device with
  | some t => (s, some t)
  | none =>
      match makeQueue P device s.fresh r with
      | .error _ => (s, none)
      | .ok queue =>
          let t : StreamState := { queue, device, isNull := true }
          ({ s with nullStreams := s.nullStreams.insert device t, fresh := s.fresh + 1 }, some t)

/-- `state_of`. A null handle is the null stream of the device. -/
def stateOf (P : Platform) (s : Streams) (stream : Option ℕ) (device : ℕ) (r : Replies) :
    Streams × Option StreamState :=
  match stream with
  | none => nullStreamLocked P s device r
  | some h => (s, s.streams.find? h)

/-- `state_of`, where the null stream has been made: no null stream is ever destroyed, so after
`resolve_stream` the call makes none. -/
def lookup (s : Streams) (stream : Option ℕ) (device : ℕ) : Option StreamState :=
  match stream with
  | none => s.nullStreams.find? device
  | some h => s.streams.find? h

/-- Write the state of a stream back. -/
def put (s : Streams) (stream : Option ℕ) (device : ℕ) (t : StreamState) : Streams :=
  match stream with
  | none => { s with nullStreams := s.nullStreams.insert device t }
  | some h => { s with streams := s.streams.insert h t }

/-- `resolve_stream`. -/
def resolveStream (P : Platform) (s : Streams) (stream : Option ℕ) (device : ℕ) (r : Replies) :
    Streams × Except GrxError Queue :=
  match stateOf P s stream device r with
  | (s, none) => (s, .error .invalidResourceHandle)
  | (s, some t) => (s, .ok t.queue)

/-- The last event of a stream that null-stream work of the device waits for. -/
def blockingEvent (device : ℕ) (t : StreamState) : Option ℕ :=
  if t.device ≠ device then none
  else if t.nonBlocking then none
  else t.lastEvent

/-- The events that order a stream against the null stream, or the null stream against the blocking
streams of the device. -/
def legacyEvents (s : Streams) (self : StreamState) (device : ℕ) : List ℕ :=
  if self.isNull then s.streams.entries.filterMap fun kv => blockingEvent device kv.2
  else if self.nonBlocking then []
  else
    match s.nullStreams.find? device with
    | none => []
    | some t => t.lastEvent.toList

/-- A stream is always ordered against itself. -/
def withOwn (out : List ℕ) : Option ℕ → List ℕ
  | none => out
  | some last => if last ∈ out then out else out ++ [last]

/-- `collect_wait_events`. -/
def collectWaitEvents (s : Streams) (stream : Option ℕ) (device : ℕ) : List ℕ :=
  match s.lookup stream device with
  | none => []
  | some self => withOwn (s.legacyEvents self device) self.lastEvent

/-- `set_stream_last_event`. -/
def setStreamLastEvent (s : Streams) (stream : Option ℕ) (device : ℕ) (event : ℕ) : Streams :=
  match s.lookup stream device with
  | none => s.release event
  | some t => (s.releaseSlot t.lastEvent).put stream device { t with lastEvent := some event }

/-- What every enqueue does. `note` is what the caller notes between the driver's taking the command
and the stream's new last event. -/
def submit (P : Platform) (s : Streams) (stream : Option ℕ) (device : ℕ)
    (body : Queues.Body ℕ Work) (r : Replies) (note : Streams → ℕ → Streams) :
    Streams × Except GrxError Unit :=
  match resolveStream P s stream device r with
  | (s, .error e) => (s, .error e)
  | (s, .ok queue) =>
      let waits := collectWaitEvents s stream device
      match r.enqueue with
      | some x => (s, .error (mapResult x))
      | none =>
          let completion := s.board.log.length
          let s := note (s.enqueue ⟨queue, waits, body⟩) completion
          (s.setStreamLastEvent stream device completion, .ok ())

/-- `grxStreamCreateWithPriority`, with `register_stream`. -/
def grxStreamCreate (P : Platform) (s : Streams) (device : ℕ) (out : Bool) (flags : UInt32)
    (r : Replies) : Streams × Except GrxError ℕ :=
  if out = false then (s, .error .invalidValue)
  else
    match makeQueue P device s.fresh r with
    | .error e => (s, .error e)
    | .ok queue =>
        ({ s with
            streams := s.streams.insert s.fresh { queue, device, flags }
            fresh := s.fresh + 1 }, .ok s.fresh)

/-! ## Events -/

/-- `grxEventCreateWithFlags`. -/
def grxEventCreate (P : Platform) (s : Streams) (device : ℕ) (out : Bool) (r : Replies) :
    Streams × Except GrxError ℕ :=
  if out = false then (s, .error .invalidValue)
  else
    match r.acquire with
    | some e => (s, .error e)
    | none =>
        if (P.device device).capabilities &&& GRX_CAP_EVENTS = 0 then (s, .error .notSupported)
        else
          match r.event with
          | some x => (s, .error (mapResult x))
          | none =>
              ({ s with
                  events := s.events.insert s.fresh { event := s.fresh, device }
                  fresh := s.fresh + 1 }, .ok s.fresh)

/-- What `grxEventRecord` notes of a record. -/
def noteRecord (event : ℕ) (ev : EventState) (s : Streams) (completion : ℕ) : Streams :=
  let s := s.releaseSlot ev.completion
  let s := { s with
    events := s.events.insert event
      { ev with target := ev.nextTarget, recorded := true, completion := some completion } }
  s.retain completion

/-- `grxEventRecord`. The stream is resolved on the event's device. -/
def grxEventRecord (P : Platform) (s : Streams) (event : ℕ) (stream : Option ℕ) (r : Replies) :
    Streams × Except GrxError Unit :=
  match s.events.find? event with
  | none => (s, .error .invalidResourceHandle)
  | some ev =>
      submit P s stream ev.device (.signal ev.event ev.nextTarget) r (noteRecord event ev)

/-- `grxStreamWaitEvent`. The stream is resolved on the current device. -/
def grxStreamWaitEvent (P : Platform) (s : Streams) (current : ℕ) (stream : Option ℕ) (event : ℕ)
    (r : Replies) : Streams × Except GrxError Unit :=
  match s.events.find? event with
  | none => (s, .error .invalidResourceHandle)
  | some ev =>
      if ev.recorded = false then (s, .ok ())
      else submit P s stream current (.wait ev.event ev.target) r fun s _ => s

end Streams

end Grxcp.Runtime
