import Grxcp.Libs.DescriptorSlots
import Grxcp.Runtime.SlotHistory

/-!
# Why a GEMM reads its own descriptors

`Reserved` says what holds among the commands at any time: the writes of one call are on one queue, a
launch comes after all of its call's, and a write of another call to one of its slots comes before those
or after the launch. A command that minds the others keeps it (`Reserved.program`, `Reserved.launch`), and
a launch whose call has programmed all of its descriptors reads them (`Reserved.reads`).
-/

namespace Grxcp.Runtime.Streams

variable {P : Platform} {s s' : Streams} {stream : Option ℕ} {device : ℕ} {r : Replies}

/-! ## Streams keep their queues -/

/-- The streams are there still, each with its queue, and no handle of a stream is given out twice. -/
structure Keeps (s s' : Streams) : Prop where
  queue : ∀ k t, s.state? k = some t → ∃ t', s'.state? k = some t' ∧ t'.queue = t.queue
  fresh : (∀ h t, s.state? (.user h) = some t → h < s.fresh) →
    ∀ h t, s'.state? (.user h) = some t → h < s'.fresh
  done : s'.board.done = s.board.done

theorem Keeps.refl (s : Streams) : Keeps s s :=
  ⟨fun _ t h => ⟨t, h, rfl⟩, fun h => h, rfl⟩

theorem Keeps.trans {s'' : Streams} (h : Keeps s s') (h' : Keeps s' s'') : Keeps s s'' where
  queue := by
    intro k t ht
    obtain ⟨t', ht', hq⟩ := h.queue k t ht
    obtain ⟨t'', ht'', hq'⟩ := h'.queue k t' ht'
    exact ⟨t'', ht'', hq'.trans hq⟩
  fresh := fun hs => h'.fresh (h.fresh hs)
  done := h'.done.trans h.done

/-- What is no table of streams may change. -/
theorem Keeps.of_state (hstate : s'.state? = s.state?) (hfresh : s.fresh ≤ s'.fresh)
    (hdone : s'.board.done = s.board.done) : Keeps s s' where
  queue := fun k t ht => ⟨t, by rw [hstate, ht], rfl⟩
  fresh := fun hs h t ht => (hs h t (hstate ▸ ht)).trans_le hfresh
  done := hdone

theorem Joins.keeps {k : StreamKey} {t : StreamState} (h : Joins s s' k t)
    (hs : ∀ h t, s.state? (.user h) = some t → h < s.fresh) : Keeps s s' where
  queue := by
    intro k' u hu
    refine ⟨u, ?_, rfl⟩
    rw [h.state, Function.update_of_ne, hu]
    rintro rfl
    rcases h.new with hk | rfl
    · rw [hk] at hu
      cases hu
    · exact lt_irrefl _ (hs _ u hu)
  fresh := by
    intro _ id u hu
    rw [h.state] at hu
    rw [h.fresh]
    rcases update_eq_some hu with ⟨hk, -⟩ | ⟨-, hu⟩
    · rcases h.kind with ⟨hkind, -⟩ | ⟨hkind, -⟩
      · rw [hkind] at hk
        cases hk
        exact Nat.lt_succ_self _
      · rw [hkind] at hk
        cases hk
    · exact (hs id u hu).trans (Nat.lt_succ_self _)
  done := by rw [h.board]

/-- A stream's state is written back with its queue. -/
theorem put_keeps {t t' : StreamState} (h : s.state? (keyOf stream device) = some t)
    (hq : t'.queue = t.queue) : Keeps s (s.put stream device t') where
  queue := by
    intro k u hu
    rw [put_state]
    by_cases hk : k = keyOf stream device
    · subst hk
      rw [h] at hu
      cases hu
      exact ⟨t', Function.update_self _ _ _, hq⟩
    · exact ⟨u, by rw [Function.update_of_ne hk, hu], rfl⟩
  fresh := by
    intro hs id u hu
    rw [put_state] at hu
    rw [put_fresh]
    rcases update_eq_some hu with ⟨hk, -⟩ | ⟨-, hu⟩
    · rw [← hk] at h
      exact hs id t h
    · exact hs id u hu
  done := by rw [put_board]

theorem setStreamLastEvent_keeps (s : Streams) (stream : Option ℕ) (device event : ℕ) :
    Keeps s (s.setStreamLastEvent stream device event) := by
  unfold setStreamLastEvent
  cases h : s.lookup stream device with
  | none => exact .of_state rfl le_rfl rfl
  | some t =>
    have hrelease : Keeps s (s.releaseSlot t.lastEvent) :=
      .of_state (releaseSlot_state s _) (releaseSlot_fresh s _).ge (by rw [releaseSlot_board])
    refine hrelease.trans (put_keeps (t := t) ?_ rfl)
    rw [releaseSlot_state, ← lookup_eq]
    exact h

theorem resolve_keeps (P : Platform) (stream : Option ℕ) (device : ℕ) (r : Replies)
    (hs : ∀ h t, s.state? (.user h) = some t → h < s.fresh) :
    Keeps s (resolveStream P s stream device r).1 := by
  rcases resolve_cases P s stream device r with heq | ⟨-, t, -, hj⟩
  · rw [heq]
    exact .refl s
  · exact hj.keeps hs

theorem Issues.keeps {t : StreamState} {body : Queues.Body ℕ Work}
    (h : Issues s s' stream device t body) : Keeps s s' where
  queue := by
    intro k u hu
    rw [h.state]
    by_cases hk : k = keyOf stream device
    · subst hk
      rw [h.old] at hu
      cases hu
      exact ⟨_, Function.update_self _ _ _, rfl⟩
    · exact ⟨u, by rw [Function.update_of_ne hk, hu], rfl⟩
  fresh := by
    intro hs id u hu
    rw [h.state] at hu
    rw [h.fresh]
    rcases update_eq_some hu with ⟨hk, -⟩ | ⟨-, hu⟩
    · have hold := h.old
      rw [← hk] at hold
      exact hs id t hold
    · exact hs id u hu
  done := by rw [h.board, Queues.Board.issue_done]

/-- Enqueuing adds at most the command, on the stream's queue. -/
theorem submit_keeps (P : Platform) (stream : Option ℕ) (device : ℕ) (body : Queues.Body ℕ Work)
    (r : Replies) {note : Streams → ℕ → Streams} (hn : Quiet note)
    (hs : ∀ h t, s.state? (.user h) = some t → h < s.fresh) :
    Keeps s (submit P s stream device body r note).1 ∧
      ((submit P s stream device body r note).1.board.log = s.board.log ∧
          (submit P s stream device body r note).2.isOk = false ∨
        ∃ t waits, (submit P s stream device body r note).1.board.log =
            s.board.log ++ [⟨t.queue, waits, body⟩] ∧
          (resolveStream P s stream device r).1.state? (keyOf stream device) = some t) := by
  have hresolve := resolve_keeps P stream device r hs
  rcases submit_cases P s stream device body r note with ⟨e, heq, -⟩ | ⟨t, ht, -, heq⟩
  · rw [heq]
    exact ⟨hresolve, .inl ⟨by rw [resolve_board], rfl⟩⟩
  · rw [heq]
    have hi := issues_issued ht body hn
    refine ⟨hresolve.trans hi.keeps, .inr
      ⟨t, (resolveStream P s stream device r).1.collectWaitEvents stream device, ?_, hi.old⟩⟩
    show (issued _ stream device t body note).board.log = _
    rw [hi.board, Queues.Board.issue_log, resolve_board]

end Grxcp.Runtime.Streams

namespace Grxcp.Runtime

/-- A command that programs no register. -/
def Unprogrammed (body : Queues.Body ℕ Work) : Prop :=
  ∀ w, body ≠ .work (.program w)

theorem Plan.ask_unprogrammed {plan : Plan} {stream : Option ℕ} {r : Replies} {a : Ask}
    (hplan : ∀ device w, plan ≠ .enqueue device (.program w)) (h : plan.ask stream r = some a) :
    Unprogrammed a.body := by
  cases plan with
  | enqueue device work =>
    cases h
    intro w hw
    cases hw
    exact hplan device w rfl
  | _ => cases h

namespace Context

variable {P : Platform} {x : Context}

theorem copyWork_ne_program (d s : Endpoint) (dst src count : ℕ) (w : DcrWrite) :
    copyWork d s dst src count ≠ .program w := by
  unfold copyWork
  split_ifs <;> exact nofun

theorem plan_ne_program {c : ApiCall} {p : Plan × Option ℕ × Replies} (h : plan P x c = some p)
    (device : ℕ) (w : DcrWrite) : p.1 ≠ .enqueue device (.program w) := by
  have hlaunch : ∀ (kernel : Kernel) (device' : ℕ) (acquire fits : Option GrxError),
      launchPlan kernel device' acquire fits ≠ .enqueue device (.program w) := by
    intro kernel device' acquire fits hp
    unfold launchPlan at hp
    split at hp
    · cases hp
    · split at hp <;> cases hp
  unfold plan at h
  split at h
  · obtain rfl := Option.some.inj h
    intro hp
    simp only [copyPlan] at hp
    repeat' split at hp
    all_goals first
      | exact copyWork_ne_program _ _ _ _ _ w (Plan.enqueue.inj hp).2
      | cases hp
  · obtain rfl := Option.some.inj h
    intro hp
    simp only [memsetPlan] at hp
    repeat' split at hp
    all_goals cases hp
  · split at h
    · cases h
    split at h
    · cases h
    · obtain rfl := Option.some.inj h
      exact hlaunch _ _ _ _
  · split at h
    · cases h
    · obtain rfl := Option.some.inj h
      exact hlaunch _ _ _ _
  · cases h

/-- No call of the runtime's programs a register. -/
theorem asks_unprogrammed {c : ApiCall} {a : Ask} (h : x.asks P c = some a) :
    Unprogrammed a.body := by
  unfold asks at h
  split at h
  · obtain ⟨ev, -, rfl⟩ := Option.map_eq_some_iff.mp h
    exact nofun
  · split at h
    · cases h
    · split at h
      · cases h
      · obtain rfl := Option.some.inj h
        exact nofun
  · obtain ⟨p, hp, ha⟩ := Option.bind_eq_some_iff.mp h
    exact Plan.ask_unprogrammed (plan_ne_program hp) ha

/-- What a call of the runtime's does: it adds at most one command, which programs nothing. -/
theorem call_keeps (P : Platform) (c : ApiCall)
    (hs : ∀ h t, x.streams.state? (.user h) = some t → h < x.streams.fresh) :
    Streams.Keeps x.streams (x.call P c).1.streams ∧
      ((x.call P c).1.streams.board.log = x.streams.board.log ∨
        ∃ cmd : Command, (x.call P c).1.streams.board.log = x.streams.board.log ++ [cmd] ∧
          Unprogrammed cmd.body) := by
  rcases call_cases P x c with ⟨-, heq⟩ | ⟨t, -, hj⟩ | ⟨-, hev⟩ | ⟨a, ha, hq, heq⟩
  · rw [heq]
    exact ⟨.refl _, .inl rfl⟩
  · exact ⟨hj.keeps hs, .inl (by rw [hj.board])⟩
  · exact ⟨.of_state hev.state (by rw [hev.fresh]; omega) (by rw [hev.board]), .inl (by rw [hev.board])⟩
  · rw [heq]
    obtain ⟨hkeeps, hlog⟩ := Streams.submit_keeps P a.stream a.device a.body a.replies hq hs
    refine ⟨hkeeps, hlog.imp And.left ?_⟩
    rintro ⟨t, waits, hlog, -⟩
    exact ⟨_, hlog, asks_unprogrammed ha⟩

end Context

end Grxcp.Runtime

namespace Grxcp.Blas

open Grxcp.Runtime
open Queues (Before Covers Prec Latest)

namespace SlotState

/-! ## What holds among the commands -/

/-- The writes of a call so far are its commands in the log, on one queue. -/
structure Own (s : SlotState) (call : ℕ) (ws : List DcrWrite) : Prop where
  mem : ∀ j, s.role j = .program call → ∃ w ∈ ws, s.writes j = some w
  last : ∀ k v, Writes.last k ws = some v → ∃ j, s.role j = .program call ∧
    s.writes j = some (k, v) ∧ ∀ i v', s.role i = .program call → s.writes i = some (k, v') → i ≤ j
  queue : ∀ i j a b, s.role i = .program call → s.role j = .program call →
    s.board.log[i]? = some a → s.board.log[j]? = some b → a.queue = b.queue

/-- Another call writes to the slot. -/
def Rival (s : SlotState) (call : ℕ) (slot : ℤ) (j : ℕ) : Prop :=
  ∃ c w, c ≠ call ∧ s.role j = .program c ∧ s.writes j = some w ∧ w.1.1 = slot

/-- Command `j` comes before what the call writes to the slot. -/
def Ahead (s : SlotState) (call : ℕ) (slot : ℤ) (j : ℕ) : Prop :=
  ∀ i w, s.role i = .program call → s.writes i = some w → w.1.1 = slot →
    Prec s.board.log s.seen j i

/-- The slots of a call are its own from its writes to them up to its launch. `pending` are the calls
whose launch is yet to come. -/
structure Reserved (s : SlotState) (ws : ℕ → List DcrWrite) (pending : ℕ → Prop) : Prop where
  closed : s.board.Closed
  seen : ∀ i, s.seen i ⊆ s.board.done
  range : ∀ i, s.role i ≠ .other → i < s.board.log.length
  role : ∀ i w, s.writes i = some w → ∃ call, s.role i = .program call
  latest : Latest (Prec s.board.log s.seen) s.writes s.board.done s.regs
  own : ∀ call, s.Own call (ws call)
  own_before : ∀ i call, s.role i = .launch call → ∀ j, s.role j = .program call →
    Before s.board.log j i
  apart : ∀ i call, s.role i = .launch call → ∀ w ∈ ws call, ∀ j, s.Rival call w.1.1 j →
    s.Ahead call w.1.1 j ∨ Prec s.board.log s.seen i j
  unlaunched : ∀ call, pending call → ∀ i, s.role i ≠ .launch call
  ahead : ∀ call, pending call → ∀ slot j, s.Rival call slot j → s.Ahead call slot j

/-- A command of a role is issued. -/
structure Appends (s s' : SlotState) (c : Command) (r : Role) : Prop where
  log : s'.board.log = s.board.log ++ [c]
  done : s'.board.done = s.board.done
  role : s'.role = Function.update s.role s.board.log.length r
  seen : s'.seen = Function.update s.seen s.board.log.length s.board.done
  regs : s'.regs = s.regs

section Appends

variable {s s' : SlotState} {c : Command} {r : Role} {ws : ℕ → List DcrWrite} {pending : ℕ → Prop}
  {call i j : ℕ} {slot : ℤ}

theorem writes_eq_some {w : DcrWrite} : s.writes i = some w ↔
    ∃ a, s.board.log[i]? = some a ∧ a.body = .work (.program w) := by
  unfold writes
  split
  · next q waits w' heq =>
    rw [heq]
    constructor
    · rintro ⟨⟩
      exact ⟨_, rfl, rfl⟩
    · rintro ⟨a, ⟨⟩, hbody⟩
      cases hbody
      rfl
  · next hne =>
    refine ⟨nofun, ?_⟩
    rintro ⟨⟨q, waits, body⟩, ha, hbody⟩
    dsimp only at hbody
    subst hbody
    exact absurd ha (hne q waits w)

theorem Appends.lookup (h : Appends s s' c r) (hi : i < s.board.log.length) :
    s'.board.log[i]? = s.board.log[i]? := by
  rw [h.log, Queues.getElem?_append_of_lt hi]

theorem Appends.writes_of_lt (h : Appends s s' c r) (hi : i < s.board.log.length) :
    s'.writes i = s.writes i := by
  unfold writes
  rw [h.lookup hi]

theorem Appends.role_of_ne (h : Appends s s' c r) (hi : i ≠ s.board.log.length) :
    s'.role i = s.role i := by
  rw [h.role, Function.update_of_ne hi]

theorem Appends.role_last (h : Appends s s' c r) : s'.role s.board.log.length = r := by
  rw [h.role, Function.update_self]

theorem Appends.prec_of_lt (h : Appends s s' c r) (hi : i < s.board.log.length) :
    Prec s'.board.log s'.seen j i ↔ Prec s.board.log s.seen j i := by
  rw [h.log, h.seen]
  exact Queues.prec_append_of_lt hi

theorem Appends.prec_last (h : Appends s s' c r) :
    Prec s'.board.log s'.seen j s.board.log.length ↔ Covers s.board.log c j ∨ j ∈ s.board.done := by
  rw [h.log, h.seen]
  exact Queues.prec_last

/-- A command with a role is an earlier one, or the new one. -/
theorem Appends.role_cases (h : Appends s s' c r) (hs : s.Reserved ws pending)
    (hi : s'.role i ≠ .other) :
    (i < s.board.log.length ∧ s'.role i = s.role i) ∨ i = s.board.log.length ∧ s'.role i = r := by
  by_cases hlast : i = s.board.log.length
  · subst hlast
    exact .inr ⟨rfl, h.role_last⟩
  · have hrole := h.role_of_ne hlast
    rw [hrole] at hi
    exact .inl ⟨hs.range i hi, hrole⟩

/-- What the new command is not, other commands are as they were. -/
theorem Appends.role_old (h : Appends s s' c r) (hs : s.Reserved ws pending) {r' : Role}
    (hi : s'.role i = r') (hr' : r' ≠ .other) (hr : r ≠ r') :
    i < s.board.log.length ∧ s.role i = r' := by
  rcases h.role_cases hs (by rw [hi]; exact hr') with ⟨hlt, hrole⟩ | ⟨-, hrole⟩
  · exact ⟨hlt, hrole ▸ hi⟩
  · exact absurd (hrole.symm.trans hi) hr

theorem Appends.ahead (h : Appends s s' c r) (hs : s.Reserved ws pending) (hr : r ≠ .program call)
    (ha : s.Ahead call slot j) : s'.Ahead call slot j := by
  intro i w hi hw hslot
  obtain ⟨hlt, hi⟩ := h.role_old hs hi nofun hr
  rw [h.writes_of_lt hlt] at hw
  exact (h.prec_of_lt hlt).mpr (ha i w hi hw hslot)

theorem Appends.rival (h : Appends s s' c r) (hj : j < s.board.log.length)
    (hr : s'.Rival call slot j) : s.Rival call slot j := by
  obtain ⟨d, w, hne, hrole, hw, hslot⟩ := hr
  rw [h.role_of_ne hj.ne] at hrole
  rw [h.writes_of_lt hj] at hw
  exact ⟨d, w, hne, hrole, hw, hslot⟩

theorem Appends.own (h : Appends s s' c r) (hs : s.Reserved ws pending) (hr : r ≠ .program call)
    (ho : s.Own call (ws call)) : s'.Own call (ws call) where
  mem := by
    intro j hj
    obtain ⟨hlt, hj⟩ := h.role_old hs hj nofun hr
    rw [h.writes_of_lt hlt]
    exact ho.mem j hj
  last := by
    intro k v hv
    obtain ⟨j, hj, hw, hmax⟩ := ho.last k v hv
    have hlt := hs.range j (by rw [hj]; exact nofun)
    refine ⟨j, ?_, ?_, fun i v' hi hw' => ?_⟩
    · rw [h.role_of_ne hlt.ne, hj]
    · rw [h.writes_of_lt hlt, hw]
    · obtain ⟨hlt', hi⟩ := h.role_old hs hi nofun hr
      rw [h.writes_of_lt hlt'] at hw'
      exact hmax i v' hi hw'
  queue := by
    intro i j a b hi hj ha hb
    obtain ⟨hlt, hi⟩ := h.role_old hs hi nofun hr
    obtain ⟨hlt', hj⟩ := h.role_old hs hj nofun hr
    rw [h.lookup hlt] at ha
    rw [h.lookup hlt'] at hb
    exact ho.queue i j a b hi hj ha hb

/-- What every command keeps. -/
theorem Appends.base (h : Appends s s' c r) (hs : s.Reserved ws pending) :
    s'.board.Closed ∧ (∀ i, s'.seen i ⊆ s'.board.done) ∧
      (∀ i, s'.role i ≠ .other → i < s'.board.log.length) ∧
      Latest (Prec s'.board.log s'.seen) s'.writes s'.board.done s'.regs := by
  have hlen : s'.board.log.length = s.board.log.length + 1 := by
    rw [h.log, List.length_append, List.length_singleton]
  refine ⟨?_, ?_, ?_, ?_⟩
  · have hissue := hs.closed.issue c
    constructor
    · intro i hi
      rw [h.done] at hi
      rw [h.log]
      exact hissue.issued i hi
    · intro i j he hj
      rw [h.done] at hj ⊢
      rw [h.log] at he
      exact hissue.closed i j he hj
  · intro i
    rw [h.seen, h.done]
    by_cases hi : i = s.board.log.length
    · rw [hi, Function.update_self]
    · rw [Function.update_of_ne hi]
      exact hs.seen i
  · intro i hi
    rcases h.role_cases hs hi with ⟨hlt, -⟩ | ⟨rfl, -⟩ <;> omega
  · rw [h.done, h.regs]
    refine hs.latest.congr (fun j hj => h.writes_of_lt (hs.closed.issued j hj)) ?_
    intro j i hi hp
    exact (h.prec_of_lt (hs.closed.issued i hi)).mp hp

theorem Appends.writes_cases (h : Appends s s' c r) {w : DcrWrite} (hw : s'.writes i = some w) :
    (i < s.board.log.length ∧ s.writes i = some w) ∨
      i = s.board.log.length ∧ c.body = .work (.program w) := by
  obtain ⟨a, ha, hbody⟩ := writes_eq_some.mp hw
  rw [h.log] at ha
  rcases Queues.getElem?_append_some ha with ha | ⟨hi, rfl⟩
  · exact .inl ⟨(List.getElem?_eq_some_iff.mp ha).1, writes_eq_some.mpr ⟨a, ha, hbody⟩⟩
  · exact .inr ⟨hi, hbody⟩

theorem Appends.writes_last (h : Appends s s' c r) {w : DcrWrite}
    (hbody : c.body = .work (.program w)) : s'.writes s.board.log.length = some w := by
  refine writes_eq_some.mpr ⟨c, ?_, hbody⟩
  rw [h.log]
  exact Queues.getElem?_append_last _ _

/-- Where an old launch was apart from what others write, it is from what they wrote before. -/
theorem Appends.apart (h : Appends s s' c r) (hs : s.Reserved ws pending)
    (hr : r ≠ .program call) (hi : s.role i = .launch call) {w : DcrWrite} (hw : w ∈ ws call)
    (hj : j < s.board.log.length) (hrival : s'.Rival call w.1.1 j) :
    s'.Ahead call w.1.1 j ∨ Prec s'.board.log s'.seen i j := by
  rcases hs.apart i call hi w hw j (h.rival hj hrival) with ha | hp
  · exact .inl (h.ahead hs hr ha)
  · exact .inr ((h.prec_of_lt hj).mpr hp)

/-- A command that programs nothing keeps what holds. What is to be shown is of its launch. -/
theorem Reserved.quiet (hs : s.Reserved ws pending) (h : Appends s s' c r)
    (hbody : Unprogrammed c.body) (hr : ∀ call, r ≠ .program call) {pending' : ℕ → Prop}
    (hpending : ∀ call, pending' call → pending call ∧ r ≠ .launch call)
    (hlaunch : ∀ call, r = .launch call → pending call ∧
      ∀ j, s.role j = .program call → Before s'.board.log j s.board.log.length) :
    s'.Reserved ws pending' := by
  obtain ⟨hclosed, hseen, hrange, hlatest⟩ := h.base hs
  have hrival : ∀ {call slot j}, s'.Rival call slot j → j < s.board.log.length := by
    rintro call slot j ⟨d, w, -, hrole, -, -⟩
    exact (h.role_old hs hrole nofun (hr d)).1
  refine ⟨hclosed, hseen, hrange, ?_, hlatest, ?_, ?_, ?_, ?_, ?_⟩
  · intro i w hw
    rcases h.writes_cases hw with ⟨hlt, hw⟩ | ⟨-, hw⟩
    · obtain ⟨call, hcall⟩ := hs.role i w hw
      exact ⟨call, by rw [h.role_of_ne hlt.ne, hcall]⟩
    · exact absurd hw (hbody w)
  · exact fun call => h.own hs (hr call) (hs.own call)
  · intro i call hi j hj
    obtain ⟨-, hj⟩ := h.role_old hs hj nofun (hr call)
    rcases h.role_cases hs (by rw [hi]; exact nofun) with ⟨-, hrole⟩ | ⟨rfl, hrole⟩
    · have hb := hs.own_before i call (hrole ▸ hi) j hj
      rw [h.log]
      exact hb.append
    · exact (hlaunch call (hrole.symm.trans hi)).2 j hj
  · intro i call hi w hw j hj
    rcases h.role_cases hs (by rw [hi]; exact nofun) with ⟨-, hrole⟩ | ⟨-, hrole⟩
    · exact h.apart hs (hr call) (hrole ▸ hi) hw (hrival hj) hj
    · -- until its launch, a call's slots were its own
      obtain ⟨hp, -⟩ := hlaunch call (hrole.symm.trans hi)
      exact .inl (h.ahead hs (hr call) (hs.ahead call hp _ j (h.rival (hrival hj) hj)))
  · intro call hcall i hi
    obtain ⟨hp, hne⟩ := hpending call hcall
    exact hs.unlaunched call hp i (h.role_old hs hi nofun hne).2
  · intro call hcall slot j hj
    exact h.ahead hs (hr call) (hs.ahead call (hpending call hcall).1 slot j (h.rival (hrival hj) hj))

/-- A command of the runtime's. -/
theorem Reserved.other (hs : s.Reserved ws pending) (h : Appends s s' c .other)
    (hbody : Unprogrammed c.body) : s'.Reserved ws pending :=
  hs.quiet h hbody (fun _ => nofun) (fun _ hp => ⟨hp, nofun⟩) fun _ => nofun

/-- The launch of a call, on the queue of its writes. -/
theorem Reserved.launch (hs : s.Reserved ws pending) (h : Appends s s' c (.launch call))
    (hbody : Unprogrammed c.body) (hp : pending call)
    (hq : ∀ j a, s.role j = .program call → s.board.log[j]? = some a → a.queue = c.queue) :
    s'.Reserved ws fun k => pending k ∧ k ≠ call := by
  refine hs.quiet h hbody (fun _ => nofun) (fun k hk => ⟨hk.1, ?_⟩) ?_
  · intro heq
    exact hk.2 (Role.launch.inj heq).symm
  · intro k hk
    obtain rfl := Role.launch.inj hk
    refine ⟨hp, fun j hj => ?_⟩
    have hlt := hs.range j (by rw [hj]; exact nofun)
    obtain ⟨a, ha⟩ : ∃ a, s.board.log[j]? = some a := ⟨_, List.getElem?_eq_getElem hlt⟩
    rw [h.log]
    exact Queues.before_last.mpr (Queues.covers_of_queue ha (hq j a hj ha))

theorem Appends.own_program (h : Appends s s' c (.program call)) (hs : s.Reserved ws pending)
    {w : DcrWrite} (hbody : c.body = .work (.program w))
    (hq : ∀ j a, s.role j = .program call → s.board.log[j]? = some a → a.queue = c.queue) :
    s'.Own call (ws call ++ [w]) := by
  have ho := hs.own call
  have hlast : s'.board.log[s.board.log.length]? = some c := by
    rw [h.log]
    exact Queues.getElem?_append_last _ _
  constructor
  · intro j hj
    rcases h.role_cases hs (by rw [hj]; exact nofun) with ⟨hlt, hrole⟩ | ⟨rfl, -⟩
    · obtain ⟨w', hw', hwrites⟩ := ho.mem j (hrole ▸ hj)
      exact ⟨w', List.mem_append_left _ hw', (h.writes_of_lt hlt).trans hwrites⟩
    · exact ⟨w, List.mem_append_right _ (List.mem_singleton_self w), h.writes_last hbody⟩
  · intro k v hv
    rw [Writes.last_append] at hv
    by_cases hk : w.1 = k
    · have hw : Writes.last k [w] = some w.2 := by simp [Writes.last, hk]
      rw [hw] at hv
      obtain rfl := Option.some.inj hv
      refine ⟨_, h.role_last, ?_, fun i v' hi _ => ?_⟩
      · rw [h.writes_last hbody, ← hk]
      · rcases h.role_cases hs (by rw [hi]; exact nofun) with ⟨hlt, -⟩ | ⟨rfl, -⟩
        · exact hlt.le
        · exact le_rfl
    · have hw : Writes.last k [w] = none := by simp [Writes.last, hk]
      rw [hw, Option.none_or] at hv
      obtain ⟨j, hj, hwrites, hmax⟩ := ho.last k v hv
      have hlt := hs.range j (by rw [hj]; exact nofun)
      refine ⟨j, by rw [h.role_of_ne hlt.ne, hj], by rw [h.writes_of_lt hlt, hwrites], ?_⟩
      intro i v' hi hv'
      rcases h.writes_cases hv' with ⟨hlt', hv'⟩ | ⟨-, hv'⟩
      · rw [h.role_of_ne hlt'.ne] at hi
        exact hmax i v' hi hv'
      · rw [hbody] at hv'
        cases hv'
        exact absurd rfl hk
  · intro i j a b hi hj ha hb
    rcases h.role_cases hs (by rw [hi]; exact nofun) with ⟨hlt, hrole⟩ | ⟨rfl, -⟩ <;>
      rcases h.role_cases hs (by rw [hj]; exact nofun) with ⟨hlt', hrole'⟩ | ⟨rfl, -⟩
    · rw [h.lookup hlt] at ha
      rw [h.lookup hlt'] at hb
      exact ho.queue i j a b (hrole ▸ hi) (hrole' ▸ hj) ha hb
    · rw [h.lookup hlt] at ha
      rw [hlast] at hb
      cases hb
      exact hq i a (hrole ▸ hi) ha
    · rw [h.lookup hlt'] at hb
      rw [hlast] at ha
      cases ha
      exact (hq j b (hrole' ▸ hj) hb).symm
    · rw [hlast] at ha hb
      cases ha
      cases hb
      rfl

/-- A write of a call. What uses its slot otherwise comes before it or is done, and no call with its
launch yet to come has written to the slot. -/
theorem Reserved.program (hs : s.Reserved ws pending) (h : Appends s s' c (.program call))
    {w : DcrWrite} (hbody : c.body = .work (.program w)) (hlaunch : ∀ i, s.role i ≠ .launch call)
    (hq : ∀ j a, s.role j = .program call → s.board.log[j]? = some a → a.queue = c.queue)
    (hrival : ∀ j, s.Rival call w.1.1 j → j ∈ s.board.done ∨ Covers s.board.log c j)
    (hreader : ∀ i k, k ≠ call → s.role i = .launch k → (∃ w' ∈ ws k, w'.1.1 = w.1.1) →
      i ∈ s.board.done ∨ Covers s.board.log c i)
    (hpending : ∀ k, k ≠ call → pending k → ∀ w' ∈ ws k, w'.1.1 ≠ w.1.1) :
    s'.Reserved (Function.update ws call (ws call ++ [w])) pending := by
  obtain ⟨hclosed, hseen, hrange, hlatest⟩ := h.base hs
  have hother : ∀ {k}, k ≠ call → (Role.program call) ≠ .program k :=
    fun hk heq => hk (Role.program.inj heq).symm
  refine ⟨hclosed, hseen, hrange, ?_, hlatest, ?_, ?_, ?_, ?_, ?_⟩
  · intro i w' hw
    rcases h.writes_cases hw with ⟨hlt, hw⟩ | ⟨rfl, -⟩
    · obtain ⟨k, hk⟩ := hs.role i w' hw
      exact ⟨k, by rw [h.role_of_ne hlt.ne, hk]⟩
    · exact ⟨call, h.role_last⟩
  · intro k
    by_cases hk : k = call
    · subst hk
      rw [Function.update_self]
      exact h.own_program hs hbody hq
    · rw [Function.update_of_ne hk]
      exact h.own hs (hother hk) (hs.own k)
  · intro i k hi j hj
    obtain ⟨-, hi⟩ := h.role_old hs hi nofun nofun
    have hk : k ≠ call := fun hk => hlaunch i (hk ▸ hi)
    obtain ⟨-, hj⟩ := h.role_old hs hj nofun (hother hk)
    rw [h.log]
    exact (hs.own_before i k hi j hj).append
  · intro i k hi w' hw' j hj
    obtain ⟨hlt, hi⟩ := h.role_old hs hi nofun nofun
    have hk : k ≠ call := fun hk => hlaunch i (hk ▸ hi)
    rw [Function.update_of_ne hk] at hw'
    obtain ⟨d, v, hd, hrole, hv, hslot⟩ := hj
    rcases h.role_cases hs (by rw [hrole]; exact nofun) with ⟨hjlt, -⟩ | ⟨rfl, -⟩
    · exact h.apart hs (hother hk) hi hw' hjlt ⟨d, v, hd, hrole, hv, hslot⟩
    · -- the new write is to a slot that the launch reads
      rw [h.writes_last hbody] at hv
      obtain rfl := Option.some.inj hv
      exact .inr (h.prec_last.mpr (hreader i k hk hi ⟨w', hw', hslot.symm⟩).symm)
  · intro k hk i hi
    exact hs.unlaunched k hk i (h.role_old hs hi nofun nofun).2
  · intro k hk slot j hj i v hi hv hslot
    by_cases hkc : k = call
    · subst hkc
      obtain ⟨d, v', hd, hrole, hv', hslot'⟩ := hj
      obtain ⟨hjlt, hrole⟩ := h.role_old hs hrole nofun (hother hd)
      rw [h.writes_of_lt hjlt] at hv'
      have hold : s.Rival k slot j := ⟨d, v', hd, hrole, hv', hslot'⟩
      rcases h.writes_cases hv with ⟨hlt, hv⟩ | ⟨rfl, -⟩
      · rw [h.role_of_ne hlt.ne] at hi
        exact (h.prec_of_lt hlt).mpr (hs.ahead k hk slot j hold i v hi hv hslot)
      · rw [h.writes_last hbody] at hv
        obtain rfl := Option.some.inj hv
        subst hslot
        exact h.prec_last.mpr (hrival j hold).symm
    · obtain ⟨hlt, hi⟩ := h.role_old hs hi nofun (hother hkc)
      rw [h.writes_of_lt hlt] at hv
      obtain ⟨d, v', hd, hrole, hv', hslot'⟩ := hj
      rcases h.writes_cases hv' with ⟨hjlt, hv'⟩ | ⟨rfl, -⟩
      · rw [h.role_of_ne hjlt.ne] at hrole
        exact (h.prec_of_lt hlt).mpr
          (hs.ahead k hk slot j ⟨d, v', hd, hrole, hv', hslot'⟩ i v hi hv hslot)
      · -- nobody who has written to the slot is waiting for a launch
        rw [h.writes_last hbody] at hv'
        obtain rfl := Option.some.inj hv'
        obtain ⟨w', hw', hwrites⟩ := (hs.own k).mem i hi
        rw [hv] at hwrites
        obtain rfl := Option.some.inj hwrites
        exact absurd (hslot.trans hslot'.symm) (hpending k hkc hk v hw')

/-- The commands and what is in the registers are all that matters. -/
theorem Reserved.congr (hs : s.Reserved ws pending) (hlog : s'.board.log = s.board.log)
    (hdone : s'.board.done = s.board.done) (hrole : s'.role = s.role) (hseen : s'.seen = s.seen)
    (hregs : s'.regs = s.regs) {pending' : ℕ → Prop} (hp : ∀ call, pending' call → pending call) :
    s'.Reserved ws pending' := by
  have hwrites : s'.writes = s.writes := by
    funext i
    unfold writes
    rw [hlog]
  have hown : ∀ call, s'.Own call (ws call) := by
    intro call
    obtain ⟨hmem, hlast, hqueue⟩ := hs.own call
    constructor
    · rw [hrole, hwrites]
      exact hmem
    · rw [hrole, hwrites]
      exact hlast
    · rw [hrole, hlog]
      exact hqueue
  have hrival : s'.Rival = s.Rival := by
    unfold Rival
    rw [hrole, hwrites]
  have hahead : s'.Ahead = s.Ahead := by
    unfold Ahead
    rw [hrole, hwrites, hlog, hseen]
  refine ⟨⟨?_, ?_⟩, ?_, ?_, ?_, ?_, hown, ?_, ?_, ?_, ?_⟩
  · rw [hdone, hlog]
    exact hs.closed.issued
  · rw [hdone, hlog]
    exact hs.closed.closed
  · rw [hseen, hdone]
    exact hs.seen
  · rw [hrole, hlog]
    exact hs.range
  · rw [hwrites, hrole]
    exact hs.role
  · rw [hwrites, hlog, hseen, hdone, hregs]
    exact hs.latest
  · rw [hrole, hlog]
    exact hs.own_before
  · rw [hrole, hrival, hahead, hlog, hseen]
    exact hs.apart
  · rw [hrole]
    exact fun call hcall => hs.unlaunched call (hp call hcall)
  · rw [hrival, hahead]
    exact fun call hcall => hs.ahead call (hp call hcall)

/-- A call that has issued nothing yet. -/
theorem Reserved.join (hs : s.Reserved ws pending) (hprogram : ∀ i, s.role i ≠ .program call)
    (hlaunch : ∀ i, s.role i ≠ .launch call) : s.Reserved ws fun k => pending k ∨ k = call := by
  obtain ⟨hclosed, hseen, hrange, hrole, hlatest, hown, hbefore, hapart, hun, hahead⟩ := hs
  refine ⟨hclosed, hseen, hrange, hrole, hlatest, hown, hbefore, hapart, ?_, ?_⟩
  · rintro k (hk | rfl)
    · exact hun k hk
    · exact hlaunch
  · rintro k (hk | rfl)
    · exact hahead k hk
    · exact fun _ _ _ i _ hi => absurd hi (hprogram i)

end Appends

section Complete

variable {s : SlotState} {ws : ℕ → List DcrWrite} {pending : ℕ → Prop} {i : ℕ}

/-- What completing a command does: nothing, or it is done, and what it writes is in the registers. -/
theorem complete_cases (s : SlotState) (i : ℕ) :
    (s.complete i).board = s.board ∧ (s.complete i).regs = s.regs ∨
      i ∉ s.board.done ∧ (s.complete i).board.log = s.board.log ∧
        (s.complete i).board.done = insert i s.board.done ∧
        (s.board.Closed → (s.complete i).board.Closed) ∧
        (s.complete i).regs = (s.writes i).elim s.regs fun w => Function.update s.regs w.1 w.2 := by
  rcases s.board.complete_cases i with heq | ⟨c, hc, hfree, heq⟩
  · left
    refine ⟨heq, ?_⟩
    unfold complete
    dsimp only
    rw [heq]
    cases s.writes i with
    | none => rfl
    | some w => exact if_neg fun h => h.1 h.2
  · right
    refine ⟨hfree.1, Queues.Board.complete_log, ?_, fun hclosed => hclosed.complete i, ?_⟩
    · show (s.board.complete i).done = _
      rw [heq]
    · unfold complete
      dsimp only
      rw [heq]
      cases s.writes i with
      | none => rfl
      | some w => exact if_pos ⟨hfree.1, Finset.mem_insert_self i _⟩

/-- A completion keeps what holds: nothing that is done comes after the command. -/
theorem Reserved.complete (hs : s.Reserved ws pending) (i : ℕ) :
    (s.complete i).Reserved ws pending := by
  rcases s.complete_cases i with ⟨hboard, hregs⟩ | ⟨hnew, hlog, hdone, hclosed, hregs⟩
  · exact hs.congr (congrArg _ hboard) (congrArg _ hboard) rfl rfl hregs fun _ h => h
  have hwrites : (s.complete i).writes = s.writes := by
    funext j
    unfold writes
    rw [hlog]
  have hfirst : ∀ j ∈ insert i s.board.done, ¬ Prec s.board.log s.seen i j := by
    intro j hj hp
    rcases Finset.mem_insert.mp hj with rfl | hj
    · rcases hp with hb | hmem
      · exact lt_irrefl _ hb.lt
      · exact hnew (hs.seen j hmem)
    · exact hnew (hp.mem_done hs.closed hs.seen hj)
  -- the state but for what is done and in the registers
  have hkeep := hs
  obtain ⟨-, -, hrange, hrole, -, hown, hbefore, hapart, hunlaunched, hahead⟩ := hkeep
  refine ⟨hclosed hs.closed, ?_, ?_, ?_, ?_, ?_, ?_, ?_, hunlaunched, ?_⟩
  · intro j
    rw [hdone]
    exact (hs.seen j).trans (Finset.subset_insert i _)
  · rw [hlog]
    exact hrange
  · rw [hwrites]
    exact hrole
  · rw [hwrites, hlog, hdone, hregs]
    cases hw : s.writes i with
    | none => exact hs.latest.complete hw
    | some w => exact hs.latest.write hw hfirst
  · intro call
    obtain ⟨hmem, hlast, hqueue⟩ := hown call
    refine ⟨?_, ?_, ?_⟩
    · rw [hwrites]
      exact hmem
    · rw [hwrites]
      exact hlast
    · rw [hlog]
      exact hqueue
  · rw [hlog]
    exact hbefore
  · have hrival : (s.complete i).Rival = s.Rival := by
      unfold Rival
      rw [hwrites]
      rfl
    have hah : (s.complete i).Ahead = s.Ahead := by
      unfold Ahead
      rw [hwrites, hlog]
      rfl
    rw [hrival, hah, hlog]
    exact hapart
  · have hrival : (s.complete i).Rival = s.Rival := by
      unfold Rival
      rw [hwrites]
      rfl
    have hah : (s.complete i).Ahead = s.Ahead := by
      unfold Ahead
      rw [hwrites, hlog]
      rfl
    rw [hrival, hah]
    exact hahead

end Complete

/-! ## What a launch reads -/

/-- Of descriptors of different slots, the last write to a register is its own slot's. -/
theorem last_flatMap {ds : List GrxTensorMapDesc} {d : GrxTensorMapDesc} {field : DescField}
    {v : UInt32} (hds : ds.Pairwise (·.slot ≠ ·.slot)) (hd : d ∈ ds)
    (hv : Writes.last (d.slot, field) d.writes = some v) :
    Writes.last (d.slot, field) (ds.flatMap (·.writes)) = some v := by
  induction ds with
  | nil => cases hd
  | cons e es ih =>
    obtain ⟨hhead, htail⟩ := List.pairwise_cons.mp hds
    rw [List.flatMap_cons, Writes.last_append]
    rcases List.mem_cons.mp hd with rfl | hd
    · have hnone : Writes.last (d.slot, field) (es.flatMap (·.writes)) = none := by
        apply Writes.last_eq_none
        intro w hw heq
        obtain ⟨e, he, hw⟩ := List.mem_flatMap.mp hw
        apply hhead e he
        rw [← slot_of_mem w hw, heq]
      rw [hnone, hv]
      rfl
    · rw [ih htail hd]
      rfl

/-- A launch reads what its call programmed, if the call has programmed all of its descriptors. -/
theorem Reserved.reads {s : SlotState} {ws : ℕ → List DcrWrite} {pending : ℕ → Prop}
    (hs : s.Reserved ws pending) (hdistinct : ∀ call, (s.descs call).Pairwise (·.slot ≠ ·.slot))
    (hall : ∀ i call, s.role i = .launch call → ws call = (s.descs call).flatMap (·.writes)) :
    s.ReadsOwn := by
  intro i call c hrole hc hfree d hd field v hv
  have hlast := last_flatMap (hdistinct call) hd hv
  rw [← hall i call hrole] at hlast
  obtain ⟨j, hj, hw, hmax⟩ := (hs.own call).last _ _ hlast
  -- the call's writes are done when its launch can run
  have hdone : ∀ k, s.role k = .program call → k ∈ s.board.done := by
    intro k hk
    cases hs.own_before i call hrole k hk with
    | single he => exact hfree.edge hc he
    | tail hb he => exact hs.closed.before hb (hfree.edge hc he)
  refine hs.latest.read (hdone j hj) hw fun k hk v' hv' hne => ?_
  obtain ⟨call', hcall'⟩ := hs.role k _ hv'
  by_cases hsame : call' = call
  · -- of its own writes, this is the last
    subst hsame
    have hlt : k < j := lt_of_le_of_ne (hmax k v' hcall' hv') hne
    obtain ⟨a, ha, -⟩ := writes_eq_some.mp hv'
    obtain ⟨b, hb, -⟩ := writes_eq_some.mp hw
    exact .inl (Queues.before_of_queue hlt ha hb ((hs.own call').queue k j a b hcall' hj ha hb))
  · have hrival : s.Rival call d.slot k := ⟨call', _, hsame, hcall', hv', rfl⟩
    obtain ⟨w, hwmem, hwj⟩ := (hs.own call).mem j hj
    rw [hw] at hwj
    obtain rfl := Option.some.inj hwj
    rcases hs.apart i call hrole _ hwmem k hrival with hah | hp
    · exact hah j _ hj hw rfl
    · -- a write after the launch is not done while the launch is not
      exact absurd (hp.mem_done hs.closed hs.seen hk) hfree.1

end SlotState

end Grxcp.Blas
