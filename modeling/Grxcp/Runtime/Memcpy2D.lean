import Grxcp.Lib.Writes
import Grxcp.Runtime.StreamCalls

/-!
# Two-dimensional copies

`grxMemcpy2DAsync` and `grxMemcpy2D` of `memory.cpp`: each row of the rectangle goes through
`enqueue_copy` by itself, with its own addresses, until one of them is refused. The addresses are
64-bit words and wrap.

What a row comes to is a `Transfer` between two places: bytes of the host, of a driver buffer, or of an
NPU's DDR, which has 32-bit addresses. A refused row transfers nothing. What the layers below answer is
given for each row.
-/

namespace Grxcp.Runtime

/-! ## Transfers -/

/-- Where bytes are: in the host's memory, in a buffer of the driver's, or in the DDR of an NPU. -/
inductive Place
  | host (address : ℕ)
  | buffer (buffer : Option Buffer) (offset : ℕ)
  | ddr (device address : ℕ)
deriving DecidableEq

/-- A copy of `count` bytes that was made, or that the driver took. -/
structure Transfer where
  dst : Place
  src : Place
  count : ℕ
deriving DecidableEq

/-- The place `i` bytes on. -/
def Place.skip (p : Place) (i : ℕ) : Place :=
  match p with
  | .host address => .host (address + i)
  | .buffer b offset => .buffer b (offset + i)
  | .ddr device address => .ddr device (address + i)

/-- The bytes that a transfer writes, and where. -/
def Transfer.writes (m : Place → UInt8) (t : Transfer) : List (Place × UInt8) :=
  (List.range t.count).map fun i => (t.dst.skip i, m (t.src.skip i))

/-- Memory after transfers, the first first. -/
def carry (m : Place → UInt8) (ts : List Transfer) : Place → UInt8 :=
  ts.foldl (fun m t => Writes.apply m (t.writes m)) m

/-- What a command of the driver's names for an endpoint. -/
def Endpoint.place (e : Endpoint) (address : ℕ) : Place :=
  if e.isDevice then .buffer e.map.buffer e.map.offset else .host address

/-- What `npu_c930_mem_read` and `npu_c930_mem_write` name for an endpoint: `(uint32_t)` of it. -/
def Endpoint.ddrPlace (e : Endpoint) (device address : ℕ) : Place :=
  if e.isDevice then .ddr device (address % 2 ^ 32) else .host address

/-- The transfer that a copy is, when it goes through. -/
def transferOf (plan : Plan) (d s : Endpoint) (dst src count : ℕ) : Option Transfer :=
  match plan with
  | .fail _ => none
  | .finish => if count = 0 then none else some ⟨.host dst, .host src, count⟩
  | .copied device => some ⟨d.ddrPlace device dst, s.ddrPlace device src, count % 2 ^ 32⟩
  | .enqueue _ _ => some ⟨d.place dst, s.place src, count⟩

/-- What is answered during one copy: `npu` is what the DDR of an NPU returns. -/
structure RowReplies extends Replies where
  npu : Option GrxError := none
deriving DecidableEq

namespace Context

/-- `enqueue_copy` without blocking, with the transfer that it is. -/
def enqueueCopy (P : Platform) (x : Context) (dst src count : ℕ) (kind : MemcpyKind)
    (stream : Option ℕ) (r : RowReplies) : Context × Except GrxError (Option Transfer) :=
  let plan := copyPlan P x dst src count kind r.npu r.acquire
  match carryOut P x plan stream r.toReplies with
  | (x', .error e) => (x', .error e)
  | (x', .ok ()) => (x', .ok (transferOf plan (x.classify dst) (x.classify src) dst src count))

end Context

/-- Transfers write nowhere but where they say. -/
theorem carry_elsewhere {ts : List Transfer} {p : Place}
    (h : ∀ t ∈ ts, ∀ i < t.count, t.dst.skip i ≠ p) (m : Place → UInt8) : carry m ts p = m p := by
  induction ts generalizing m with
  | nil => rfl
  | cons t ts ih =>
    show carry (Writes.apply m (t.writes m)) ts p = m p
    rw [ih fun t' ht' => h t' (List.mem_cons_of_mem t ht'), Writes.apply_eq]
    have hlast : Writes.last p (t.writes m) = none := by
      apply Writes.last_eq_none
      intro w hw
      obtain ⟨i, hi, rfl⟩ := List.mem_map.mp hw
      exact h t List.mem_cons_self i (List.mem_range.mp hi)
    rw [hlast]
    rfl

/-! ## The calls -/

/-- The arguments of a two-dimensional copy. -/
structure Rect where
  dst : BitVec 64
  dpitch : BitVec 64
  src : BitVec 64
  spitch : BitVec 64
  width : BitVec 64
  height : BitVec 64
deriving DecidableEq

/-- `base + row * pitch`, of pointers and sizes. -/
def rowAddress (base pitch : BitVec 64) (row : ℕ) : ℕ :=
  (base + BitVec.ofNat 64 row * pitch).toNat

/-- `sync_stream`. `finish` is what `vx_queue_finish` returns. -/
def Streams.syncStream (P : Platform) (s : Streams) (stream : Option ℕ) (device : ℕ) (r : Replies)
    (finish : Option VxError) : Streams × Except GrxError Unit :=
  match stateOf P s stream device r with
  | (s, none) => (s, .error .invalidResourceHandle)
  | (s, some _) =>
      match finish with
      | some e => (s, .error (mapResult e))
      | none => (s, .ok ())

/-- What a two-dimensional copy leaves: the tables, the transfers in order, and the result. -/
structure Outcome where
  tables : Context
  moved : List Transfer
  result : Except GrxError Unit

namespace Context

/-- The loop of `grxMemcpy2DAsync`, for the next `n` rows. -/
def copyRows (P : Platform) (q : Rect) (kind : MemcpyKind) (stream : Option ℕ)
    (rows : ℕ → RowReplies) : ℕ → ℕ → Context → Outcome
  | 0, _, x => ⟨x, [], .ok ()⟩
  | n + 1, row, x =>
      match enqueueCopy P x (rowAddress q.dst q.dpitch row) (rowAddress q.src q.spitch row)
          q.width.toNat kind stream (rows row) with
      | (x, .error e) => ⟨x, [], .error e⟩
      | (x, .ok t) =>
          let rest := copyRows P q kind stream rows n (row + 1) x
          { rest with moved := t.toList ++ rest.moved }

/-- `grxMemcpy2DAsync`. -/
def grxMemcpy2DAsync (P : Platform) (x : Context) (q : Rect) (kind : MemcpyKind)
    (stream : Option ℕ) (rows : ℕ → RowReplies) : Outcome :=
  if q.width = 0 ∨ q.height = 0 then ⟨x, [], .ok ()⟩
  else if q.dpitch < q.width ∨ q.spitch < q.width then ⟨x, [], .error .invalidValue⟩
  else copyRows P q kind stream rows q.height.toNat 0 x

/-- `grxMemcpy2D`, on the null stream. `sync` and `finish` are the answers to its `sync_stream`. -/
def grxMemcpy2D (P : Platform) (x : Context) (q : Rect) (kind : MemcpyKind)
    (rows : ℕ → RowReplies) (sync : Replies) (finish : Option VxError) : Outcome :=
  let issued := grxMemcpy2DAsync P x q kind none rows
  match issued.result with
  | .error _ => issued
  | .ok () =>
      match Streams.syncStream P issued.tables.streams none issued.tables.current sync finish with
      | (streams, res) => { issued with tables := { issued.tables with streams }, result := res }

end Context

/-! ## One row -/

/-- The checks of `enqueue_copy` that come before the device is looked at. -/
structure Context.Passes (x : Context) (dst src count : ℕ) (kind : MemcpyKind) : Prop where
  dst_pos : dst ≠ 0
  src_pos : src ≠ 0
  dst_own : (x.classify dst).foreign = none
  src_own : (x.classify src).foreign = none
  kind : checkKind kind (x.classify dst).isDevice (x.classify src).isDevice = none
  dst_fits : (x.classify dst).isDevice = true → count ≤ (x.classify dst).map.size
  src_fits : (x.classify src).isDevice = true → count ≤ (x.classify src).map.size

namespace Context

variable {P : Platform} {x x' : Context} {dst src count : ℕ} {kind : MemcpyKind}
  {stream : Option ℕ} {r : RowReplies}

/-- Only its checks refuse a copy that is not on an NPU before it looks at the stream. -/
theorem copyPlan_of_passes (h : x.Passes dst src count kind) (hcount : count ≠ 0)
    (npu acquire : Option GrxError) : copyPlan P x dst src count kind npu acquire =
      if (x.classify dst).isDevice = false ∧ (x.classify src).isDevice = false then .finish
      else
        let device := copyDevice (x.classify dst) (x.classify src)
        if acquire.isNone ∧ (P.device device).type = .npu then
          match npu with
          | some e => .fail e
          | none => .copied device
        else .enqueue device (copyWork (x.classify dst) (x.classify src) dst src count) := by
  have hd : ¬((x.classify dst).isDevice = true ∧ (x.classify dst).map.size < count) :=
    fun hlt => absurd (h.dst_fits hlt.1) (by omega)
  have hs : ¬((x.classify src).isDevice = true ∧ (x.classify src).map.size < count) :=
    fun hlt => absurd (h.src_fits hlt.1) (by omega)
  unfold copyPlan
  rw [if_neg hcount, if_neg (by simp [h.dst_pos, h.src_pos])]
  dsimp only
  rw [if_neg (by simp [h.dst_own, h.src_own]), h.kind]
  rw [if_neg hd, if_neg hs] <;> rfl

/-- A copy that does not pass its checks fails. -/
theorem copyPlan_fail (h : ¬ x.Passes dst src count kind) (hcount : count ≠ 0)
    (npu acquire : Option GrxError) :
    ∃ e, copyPlan P x dst src count kind npu acquire = .fail e := by
  unfold copyPlan
  rw [if_neg hcount]
  split
  · exact ⟨_, rfl⟩
  dsimp only
  split
  · exact ⟨_, rfl⟩
  next hnull hforeign =>
  cases hkind : checkKind kind (x.classify dst).isDevice (x.classify src).isDevice with
  | some e => exact ⟨e, rfl⟩
  | none =>
    dsimp only
    have hnone : (x.classify dst).foreign = none ∧ (x.classify src).foreign = none := by
      simpa [not_or] using hforeign
    push Not at hnull
    split
    · next hhost =>
      refine absurd ⟨hnull.1, hnull.2, hnone.1, hnone.2, hkind, ?_, ?_⟩ h
      · intro hdev
        rw [hhost.1] at hdev
        cases hdev
      · intro hdev
        rw [hhost.2] at hdev
        cases hdev
    · split
      · exact ⟨_, rfl⟩
      next hd =>
      split
      · exact ⟨_, rfl⟩
      next hs =>
      refine absurd ⟨hnull.1, hnull.2, hnone.1, hnone.2, hkind, ?_, ?_⟩ h
      · exact fun hdev => not_lt.mp fun hlt => hd ⟨hdev, hlt⟩
      · exact fun hdev => not_lt.mp fun hlt => hs ⟨hdev, hlt⟩

/-- A copy is `grxMemcpyAsync`, with the transfer noted. -/
theorem enqueueCopy_eq (P : Platform) (x : Context) (dst src count : ℕ) (kind : MemcpyKind)
    (stream : Option ℕ) (r : RowReplies) :
    ((enqueueCopy P x dst src count kind stream r).1,
      (enqueueCopy P x dst src count kind stream r).2.map fun _ => ()) =
        grxMemcpyAsync P x dst src count kind stream r.npu r.toReplies := by
  unfold enqueueCopy grxMemcpyAsync
  dsimp only
  rcases carryOut P x (copyPlan P x dst src count kind r.npu r.acquire) stream r.toReplies with
    ⟨y, e | ⟨⟩⟩ <;> rfl

end Context

end Grxcp.Runtime
