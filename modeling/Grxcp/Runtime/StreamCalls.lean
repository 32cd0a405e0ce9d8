import Grxcp.Runtime.Context

/-!
# What a call does to the streams

A call adds a stream, adds an event, or has the driver take one command, before which it may have made
a null stream (`Context.call_cases`). `Joins` and `Issues` say what a new stream and a command change,
and `Streams.Wired` what holds of the tables in every run: each queue has one stream, whose last event
is the completion of the last command of the queue.
-/

namespace Grxcp.Runtime

open Queues (Ordered IsLast Before Covers Feeds)

/-- A stream of either table. -/
inductive StreamKey
  | user (h : ℕ)
  | null (device : ℕ)
deriving DecidableEq

/-- The stream that a handle and a device resolve to. -/
def keyOf (stream : Option ℕ) (device : ℕ) : StreamKey :=
  match stream with
  | none => .null device
  | some h => .user h

namespace Streams

/-- The state of a stream. -/
def state? (s : Streams) : StreamKey → Option StreamState
  | .user h => s.streams.find? h
  | .null device => s.nullStreams.find? device

variable {P : Platform} {s s' : Streams} {stream : Option ℕ} {device : ℕ} {r : Replies}

theorem lookup_eq (s : Streams) (stream : Option ℕ) (device : ℕ) :
    s.lookup stream device = s.state? (keyOf stream device) := by
  cases stream <;> rfl

theorem put_state (s : Streams) (stream : Option ℕ) (device : ℕ) (t : StreamState) :
    (s.put stream device t).state? = Function.update s.state? (keyOf stream device) (some t) := by
  funext k
  cases stream <;> cases k <;>
    simp [put, state?, keyOf, OrdMap.find?_insert, Function.update_apply]

theorem put_board (s : Streams) (stream : Option ℕ) (device : ℕ) (t : StreamState) :
    (s.put stream device t).board = s.board := by
  cases stream <;> rfl

theorem put_fresh (s : Streams) (stream : Option ℕ) (device : ℕ) (t : StreamState) :
    (s.put stream device t).fresh = s.fresh := by
  cases stream <;> rfl

/-! ## A new stream -/

/-- The tables have a new stream, on a new queue of its device. -/
structure Joins (s s' : Streams) (k : StreamKey) (t : StreamState) : Prop where
  new : s.state? k = none ∨ k = .user s.fresh
  kind : k = .user s.fresh ∧ t.isNull = false ∨ k = .null t.device ∧ t.isNull = true
  queue : t.queue = ⟨t.device, s.fresh⟩
  lastEvent : t.lastEvent = none
  state : s'.state? = Function.update s.state? k (some t)
  events : s'.events = s.events
  board : s'.board = s.board
  fresh : s'.fresh = s.fresh + 1

theorem makeQueue_ok {id : ℕ} {q : Queue} (h : makeQueue P device id r = .ok q) :
    q = ⟨device, id⟩ := by
  unfold makeQueue at h
  split at h
  · cases h
  · split at h
    · cases h
    · split at h
      · cases h
      · exact (Except.ok.inj h).symm

/-- Resolving a stream may make the null stream of the device. -/
theorem resolve_cases (P : Platform) (s : Streams) (stream : Option ℕ) (device : ℕ) (r : Replies) :
    (resolveStream P s stream device r).1 = s ∨
      stream = none ∧ ∃ t : StreamState, t.device = device ∧
        Joins s (resolveStream P s stream device r).1 (.null device) t := by
  cases stream with
  | some h =>
    left
    simp only [resolveStream, stateOf]
    cases s.streams.find? h <;> rfl
  | none =>
    simp only [resolveStream, stateOf, nullStreamLocked]
    cases hfind : s.nullStreams.find? device with
    | some t => exact .inl rfl
    | none =>
      cases hq : makeQueue P device s.fresh r with
      | error e => exact .inl rfl
      | ok q =>
        refine .inr ⟨trivial, { queue := q, device, isNull := true }, rfl, ?_⟩
        refine ⟨.inl hfind, .inr ⟨rfl, rfl⟩, makeQueue_ok hq, rfl, ?_, rfl, rfl, rfl⟩
        exact put_state s none device _

/-- Resolving a stream issues nothing. -/
theorem resolve_board (P : Platform) (s : Streams) (stream : Option ℕ) (device : ℕ) (r : Replies) :
    (resolveStream P s stream device r).1.board = s.board := by
  rcases resolve_cases P s stream device r with heq | ⟨-, t, -, hj⟩
  · rw [heq]
  · exact hj.board

/-- A stream that is resolved is there, with its queue. -/
theorem resolve_ok {q : Queue} (h : (resolveStream P s stream device r).2 = .ok q) :
    ∃ t, (resolveStream P s stream device r).1.lookup stream device = some t ∧ t.queue = q := by
  cases stream with
  | some id =>
    simp only [resolveStream, stateOf] at h ⊢
    cases hfind : s.streams.find? id with
    | none =>
      rw [hfind] at h
      cases h
    | some t =>
      rw [hfind] at h
      exact ⟨t, hfind, Except.ok.inj h⟩
  | none =>
    simp only [resolveStream, stateOf, nullStreamLocked] at h ⊢
    cases hfind : s.nullStreams.find? device with
    | some t =>
      rw [hfind] at h
      exact ⟨t, hfind, Except.ok.inj h⟩
    | none =>
      rw [hfind] at h
      cases hq : makeQueue P device s.fresh r with
      | error e =>
        rw [hq] at h
        cases h
      | ok q' =>
        rw [hq] at h
        refine ⟨_, ?_, Except.ok.inj h⟩
        simp [lookup, OrdMap.find?_insert]

/-- A stream that is not resolved is not there. -/
theorem resolve_error {e : GrxError} (h : (resolveStream P s stream device r).2 = .error e) :
    (resolveStream P s stream device r).1.lookup stream device = none := by
  cases stream with
  | some id =>
    simp only [resolveStream, stateOf] at h ⊢
    cases hfind : s.streams.find? id with
    | none => exact hfind
    | some t =>
      rw [hfind] at h
      cases h
  | none =>
    simp only [resolveStream, stateOf, nullStreamLocked] at h ⊢
    cases hfind : s.nullStreams.find? device with
    | some t =>
      rw [hfind] at h
      cases h
    | none =>
      rw [hfind] at h
      cases hq : makeQueue P device s.fresh r with
      | error e => exact hfind
      | ok q =>
        rw [hq] at h
        cases h

theorem create_cases (P : Platform) (s : Streams) (device : ℕ) (out : Bool) (flags : UInt32)
    (r : Replies) : (grxStreamCreate P s device out flags r).1 = s ∨
      ∃ t : StreamState, t.device = device ∧
        Joins s (grxStreamCreate P s device out flags r).1 (.user s.fresh) t := by
  unfold grxStreamCreate
  split
  · exact .inl rfl
  · split
    · exact .inl rfl
    · next q hq =>
      refine .inr ⟨{ queue := q, device, flags }, rfl, ?_⟩
      refine ⟨.inr rfl, .inl ⟨rfl, rfl⟩, makeQueue_ok hq, rfl, ?_, rfl, rfl, rfl⟩
      exact put_state s (some s.fresh) device _

/-! ## A command -/

/-- The driver has taken a command of the stream, and its completion is the stream's last event. -/
structure Issues (s s' : Streams) (stream : Option ℕ) (device : ℕ) (t : StreamState)
    (body : Queues.Body ℕ Work) : Prop where
  old : s.state? (keyOf stream device) = some t
  board : s'.board = s.board.issue ⟨t.queue, s.collectWaitEvents stream device, body⟩
  state : s'.state? = Function.update s.state? (keyOf stream device)
    (some { t with lastEvent := some s.board.log.length })
  fresh : s'.fresh = s.fresh

/-- What a caller notes leaves the streams and the driver alone. -/
def Quiet (note : Streams → ℕ → Streams) : Prop :=
  ∀ s i, (note s i).state? = s.state? ∧ (note s i).board = s.board ∧ (note s i).fresh = s.fresh

theorem quiet_id : Quiet fun s _ => s :=
  fun _ _ => ⟨rfl, rfl, rfl⟩

theorem releaseSlot_state (s : Streams) (h : Option ℕ) : (s.releaseSlot h).state? = s.state? := by
  cases h <;> rfl

theorem releaseSlot_board (s : Streams) (h : Option ℕ) : (s.releaseSlot h).board = s.board := by
  cases h <;> rfl

theorem releaseSlot_fresh (s : Streams) (h : Option ℕ) : (s.releaseSlot h).fresh = s.fresh := by
  cases h <;> rfl

theorem quiet_noteRecord (event : ℕ) (ev : EventState) : Quiet (noteRecord event ev) :=
  fun s _ => ⟨releaseSlot_state s _, releaseSlot_board s _, releaseSlot_fresh s _⟩

/-- The tables after a stream's command, from those in which its stream was found. -/
def issued (s : Streams) (stream : Option ℕ) (device : ℕ) (t : StreamState)
    (body : Queues.Body ℕ Work) (note : Streams → ℕ → Streams) : Streams :=
  let c : Command := ⟨t.queue, s.collectWaitEvents stream device, body⟩
  (note (s.enqueue c) s.board.log.length).setStreamLastEvent stream device s.board.log.length

theorem issues_issued {t : StreamState} (hold : s.lookup stream device = some t)
    (body : Queues.Body ℕ Work) {note : Streams → ℕ → Streams} (hn : Quiet note) :
    Issues s (s.issued stream device t body note) stream device t body := by
  obtain ⟨hstate, hboard, hfresh⟩ :=
    hn (s.enqueue ⟨t.queue, s.collectWaitEvents stream device, body⟩) s.board.log.length
  rw [lookup_eq] at hold
  have hlook : (note (s.enqueue ⟨t.queue, s.collectWaitEvents stream device, body⟩)
      s.board.log.length).lookup stream device = some t := by
    rw [lookup_eq, hstate]
    exact hold
  simp only [issued, setStreamLastEvent, hlook]
  constructor
  · exact hold
  · rw [put_board, releaseSlot_board, hboard]
    rfl
  · rw [put_state, releaseSlot_state, hstate]
    rfl
  · rw [put_fresh, releaseSlot_fresh, hfresh]
    rfl

theorem setStreamLastEvent_log (s : Streams) (stream : Option ℕ) (device event : ℕ) :
    (s.setStreamLastEvent stream device event).board.log = s.board.log := by
  unfold setStreamLastEvent
  cases s.lookup stream device with
  | none => rfl
  | some t => rw [put_board, releaseSlot_board]

/-- What an enqueue does: it stops after resolving its stream, or the driver takes the command. -/
theorem submit_cases (P : Platform) (s : Streams) (stream : Option ℕ) (device : ℕ)
    (body : Queues.Body ℕ Work) (r : Replies) (note : Streams → ℕ → Streams) :
    (∃ e, submit P s stream device body r note =
        ((resolveStream P s stream device r).1, .error e) ∧ (r.enqueue = none →
          (resolveStream P s stream device r).1.lookup stream device = none)) ∨
      ∃ t, (resolveStream P s stream device r).1.lookup stream device = some t ∧
        r.enqueue = none ∧ submit P s stream device body r note =
          ((resolveStream P s stream device r).1.issued stream device t body note, .ok ()) := by
  have hok := @resolve_ok P s stream device r
  have herr := @resolve_error P s stream device r
  unfold submit
  rcases hres : resolveStream P s stream device r with ⟨s', e | q⟩ <;> rw [hres] at hok herr
  · exact .inl ⟨e, rfl, fun _ => herr rfl⟩
  · obtain ⟨t, ht, rfl⟩ := hok rfl
    simp only []
    cases henq : r.enqueue with
    | some x => exact .inl ⟨mapResult x, rfl, fun h => by cases h⟩
    | none => exact .inr ⟨t, ht, rfl, rfl⟩

/-! ## The wait list -/

theorem blockingEvent_eq_some {u : StreamState} {i : ℕ} : blockingEvent device u = some i ↔
    u.device = device ∧ u.nonBlocking = false ∧ u.lastEvent = some i := by
  unfold blockingEvent
  by_cases hd : u.device = device <;> cases u.nonBlocking <;> simp [hd]

theorem mem_withOwn {out : List ℕ} {last : Option ℕ} {i : ℕ} :
    i ∈ withOwn out last ↔ last = some i ∨ i ∈ out := by
  cases last with
  | none => simp [withOwn]
  | some l =>
    rw [withOwn, Option.some.injEq]
    split
    · next hm => exact ⟨.inr, fun h => h.elim (fun h => h ▸ hm) id⟩
    · rw [List.mem_append, List.mem_singleton, or_comm, eq_comm]

theorem mem_legacyEvents {t : StreamState} {i : ℕ} : i ∈ s.legacyEvents t device ↔
    (t.isNull = true ∧ ∃ h u, s.state? (.user h) = some u ∧ u.device = device ∧
      u.nonBlocking = false ∧ u.lastEvent = some i) ∨
    (t.isNull = false ∧ t.nonBlocking = false ∧
      ∃ n, s.state? (.null device) = some n ∧ n.lastEvent = some i) := by
  unfold legacyEvents
  split
  · next hn =>
    simp only [hn, List.mem_filterMap, blockingEvent_eq_some, true_and, Bool.true_eq_false,
      false_and, or_false]
    constructor
    · rintro ⟨⟨h, u⟩, hmem, hu⟩
      exact ⟨h, u, OrdMap.find?_eq_some_iff.mpr hmem, hu⟩
    · rintro ⟨h, u, hmem, hu⟩
      exact ⟨(h, u), OrdMap.find?_eq_some_iff.mp hmem, hu⟩
  · next hn =>
    split
    · next hb => simp [hn, hb]
    · next hb =>
      have hfind : s.nullStreams.find? device = s.state? (.null device) := rfl
      rw [hfind]
      cases s.state? (.null device) with
      | none => simp [hn]
      | some n => simp [hn, hb, Option.mem_toList]

theorem mem_collectWaitEvents {t : StreamState} (ht : s.state? (keyOf stream device) = some t)
    {i : ℕ} : i ∈ s.collectWaitEvents stream device ↔
      t.lastEvent = some i ∨ i ∈ s.legacyEvents t device := by
  rw [collectWaitEvents, lookup_eq, ht]
  exact mem_withOwn

/-! ## Queues and streams -/

/-- Each queue has one stream, whose last event is the last command of the queue. -/
structure Wired (s : Streams) : Prop where
  fresh : ∀ k t, s.state? k = some t → t.queue.id < s.fresh
  unique : ∀ k k' t t', s.state? k = some t → s.state? k' = some t' → t.queue = t'.queue → k = k'
  user : ∀ h t, s.state? (.user h) = some t → h < s.fresh ∧ t.isNull = false
  null : ∀ d t, s.state? (.null d) = some t → t.device = d ∧ t.isNull = true
  device : ∀ k t, s.state? k = some t → t.queue.device = t.device
  last : ∀ k t, s.state? k = some t → ∀ i, t.lastEvent = some i ↔ IsLast s.board.log t.queue i
  owner : ∀ (i : ℕ) (c : Command), s.board.log[i]? = some c →
    ∃ k t, s.state? k = some t ∧ t.queue = c.queue

theorem update_eq_some {f : StreamKey → Option StreamState} {k k' : StreamKey}
    {t u : StreamState} (h : Function.update f k (some t) k' = some u) :
    k' = k ∧ u = t ∨ k' ≠ k ∧ f k' = some u := by
  by_cases hk : k' = k
  · subst hk
    rw [Function.update_self] at h
    exact .inl ⟨rfl, (Option.some.inj h).symm⟩
  · rw [Function.update_of_ne hk] at h
    exact .inr ⟨hk, h⟩

theorem Wired.empty : ({} : Streams).Wired := by
  have hnone : ∀ k, ({} : Streams).state? k = none := by
    intro k
    cases k <;> rfl
  constructor
  · intro k t h
    rw [hnone] at h
    cases h
  · intro k k' t t' h
    rw [hnone] at h
    cases h
  · intro h t hk
    rw [hnone] at hk
    cases hk
  · intro d t h
    rw [hnone] at h
    cases h
  · intro k t h
    rw [hnone] at h
    cases h
  · intro k t h
    rw [hnone] at h
    cases h
  · intro i c hc
    cases hc

/-- The tables of streams and the log are all that matters. -/
theorem Wired.congr (h : s.Wired) (hstate : s'.state? = s.state?)
    (hlog : s'.board.log = s.board.log) (hfresh : s.fresh ≤ s'.fresh) : s'.Wired := by
  constructor
  · intro k t hk
    exact (h.fresh k t (hstate ▸ hk)).trans_le hfresh
  · rw [hstate]
    exact h.unique
  · intro id t hk
    obtain ⟨hlt, hnull⟩ := h.user id t (hstate ▸ hk)
    exact ⟨hlt.trans_le hfresh, hnull⟩
  · rw [hstate]
    exact h.null
  · rw [hstate]
    exact h.device
  · rw [hstate, hlog]
    exact h.last
  · rw [hstate, hlog]
    exact h.owner

theorem Wired.joins (h : s.Wired) {k : StreamKey} {t : StreamState} (hj : Joins s s' k t) :
    s'.Wired := by
  have hnone : s.state? k = none := by
    rcases hj.new with hk | rfl
    · exact hk
    · by_contra hk
      obtain ⟨u, hu⟩ := Option.ne_none_iff_exists'.mp hk
      exact lt_irrefl _ (h.user _ u hu).1
  have hid : t.queue.id = s.fresh := by rw [hj.queue]
  constructor
  · intro k' u hu
    rw [hj.state] at hu
    rw [hj.fresh]
    rcases update_eq_some hu with ⟨-, rfl⟩ | ⟨-, hu⟩
    · omega
    · exact (h.fresh k' u hu).trans (Nat.lt_succ_self _)
  · intro k₁ k₂ t₁ t₂ h₁ h₂ hq
    rw [hj.state] at h₁ h₂
    rcases update_eq_some h₁ with ⟨rfl, rfl⟩ | ⟨-, old₁⟩ <;>
      rcases update_eq_some h₂ with ⟨rfl, rfl⟩ | ⟨-, old₂⟩
    · rfl
    · have := h.fresh _ _ old₂
      rw [← hq] at this
      omega
    · have := h.fresh _ _ old₁
      rw [hq] at this
      omega
    · exact h.unique _ _ _ _ old₁ old₂ hq
  · intro id u hu
    rw [hj.state] at hu
    rw [hj.fresh]
    rcases update_eq_some hu with ⟨rfl, rfl⟩ | ⟨-, hu⟩
    · rcases hj.kind with ⟨hk, hnull⟩ | ⟨hk, -⟩
      · cases hk
        exact ⟨Nat.lt_succ_self _, hnull⟩
      · cases hk
    · obtain ⟨hlt, hnull⟩ := h.user id u hu
      exact ⟨hlt.trans (Nat.lt_succ_self _), hnull⟩
  · intro d u hu
    rw [hj.state] at hu
    rcases update_eq_some hu with ⟨rfl, rfl⟩ | ⟨-, hu⟩
    · rcases hj.kind with ⟨hk, -⟩ | ⟨hk, hnull⟩
      · cases hk
      · cases hk
        exact ⟨rfl, hnull⟩
    · exact h.null d u hu
  · intro k' u hu
    rw [hj.state] at hu
    rcases update_eq_some hu with ⟨-, rfl⟩ | ⟨-, hu⟩
    · rw [hj.queue]
    · exact h.device k' u hu
  · intro k' u hu i
    rw [hj.state] at hu
    rw [hj.board]
    rcases update_eq_some hu with ⟨-, rfl⟩ | ⟨-, hu⟩
    · -- no command is on the new queue
      rw [hj.lastEvent]
      refine ⟨fun hi => absurd hi (by simp), fun ⟨⟨c, hc, hq⟩, _⟩ => ?_⟩
      obtain ⟨k₁, t₁, ht₁, hq₁⟩ := h.owner i c hc
      have := h.fresh k₁ t₁ ht₁
      rw [hq₁, hq] at this
      omega
    · exact h.last k' u hu i
  · intro i c hc
    rw [hj.board] at hc
    obtain ⟨k', u, hu, hq⟩ := h.owner i c hc
    refine ⟨k', u, ?_, hq⟩
    rw [hj.state, Function.update_of_ne, hu]
    rintro rfl
    rw [hnone] at hu
    cases hu

theorem Wired.issues (h : s.Wired) {t : StreamState} {body : Queues.Body ℕ Work}
    (hi : Issues s s' stream device t body) : s'.Wired := by
  have hlog : s'.board.log = s.board.log ++ [⟨t.queue, s.collectWaitEvents stream device, body⟩] := by
    rw [hi.board, Queues.Board.issue_log]
  -- a stream is as it was, but for its last event
  have hold : ∀ k u, s'.state? k = some u → ∃ u₀, s.state? k = some u₀ ∧ u.queue = u₀.queue ∧
      u.device = u₀.device ∧ u.isNull = u₀.isNull := by
    intro k u hu
    rw [hi.state] at hu
    rcases update_eq_some hu with ⟨rfl, rfl⟩ | ⟨-, hu⟩
    · exact ⟨t, hi.old, rfl, rfl, rfl⟩
    · exact ⟨u, hu, rfl, rfl, rfl⟩
  constructor
  · intro k u hu
    obtain ⟨u₀, hu₀, hq, -, -⟩ := hold k u hu
    rw [hq, hi.fresh]
    exact h.fresh k u₀ hu₀
  · intro k₁ k₂ t₁ t₂ h₁ h₂ hq
    obtain ⟨u₁, hu₁, hq₁, -, -⟩ := hold k₁ t₁ h₁
    obtain ⟨u₂, hu₂, hq₂, -, -⟩ := hold k₂ t₂ h₂
    exact h.unique k₁ k₂ u₁ u₂ hu₁ hu₂ (hq₁ ▸ hq₂ ▸ hq)
  · intro id u hu
    obtain ⟨u₀, hu₀, -, -, hn⟩ := hold _ u hu
    rw [hn, hi.fresh]
    exact h.user id u₀ hu₀
  · intro d u hu
    obtain ⟨u₀, hu₀, -, hd, hn⟩ := hold _ u hu
    rw [hd, hn]
    exact h.null d u₀ hu₀
  · intro k u hu
    obtain ⟨u₀, hu₀, hq, hd, -⟩ := hold k u hu
    rw [hq, hd]
    exact h.device k u₀ hu₀
  · intro k u hu i
    rw [hi.state] at hu
    rw [hlog]
    rcases update_eq_some hu with ⟨rfl, rfl⟩ | ⟨hne, hu⟩
    · have hlast := Queues.isLast_append_self s.board.log
        ⟨t.queue, s.collectWaitEvents stream device, body⟩
      refine ⟨fun he => ?_, fun he => ?_⟩
      · cases he
        exact hlast
      · rw [hlast.unique he]
    · rw [Queues.isLast_append_of_ne]
      · exact h.last k u hu i
      · exact fun hq => hne (h.unique _ _ _ _ hu hi.old hq.symm)
  · intro i c hc
    have hnew : ∀ k u, s.state? k = some u → ∃ u', s'.state? k = some u' ∧ u'.queue = u.queue := by
      intro k u hu
      rw [hi.state]
      by_cases hk : k = keyOf stream device
      · subst hk
        rw [hi.old] at hu
        cases hu
        exact ⟨_, Function.update_self _ _ _, rfl⟩
      · exact ⟨u, by rw [Function.update_of_ne hk, hu], rfl⟩
    rw [hlog] at hc
    rcases Queues.getElem?_append_some hc with hc | ⟨-, rfl⟩
    · obtain ⟨k, u, hu, hq⟩ := h.owner i c hc
      obtain ⟨u', hu', hq'⟩ := hnew k u hu
      exact ⟨k, u', hu', hq'.trans hq⟩
    · obtain ⟨u', hu', hq'⟩ := hnew _ t hi.old
      exact ⟨_, u', hu', hq'⟩

theorem Wired.resolve (h : s.Wired) (P : Platform) (stream : Option ℕ) (device : ℕ) (r : Replies) :
    (resolveStream P s stream device r).1.Wired := by
  rcases resolve_cases P s stream device r with heq | ⟨-, t, -, hj⟩
  · rw [heq]
    exact h
  · exact h.joins hj

theorem Wired.submit (h : s.Wired) (P : Platform) (stream : Option ℕ) (device : ℕ)
    (body : Queues.Body ℕ Work) (r : Replies) {note : Streams → ℕ → Streams} (hn : Quiet note) :
    (submit P s stream device body r note).1.Wired := by
  have hs := h.resolve P stream device r
  rcases submit_cases P s stream device body r note with ⟨e, heq, -⟩ | ⟨t, ht, -, heq⟩ <;>
    rw [heq]
  · exact hs
  · exact hs.issues (issues_issued ht body hn)

/-- The tables have a new event. -/
structure AddsEvent (s s' : Streams) (device : ℕ) : Prop where
  state : s'.state? = s.state?
  board : s'.board = s.board
  events : s'.events = s.events.insert s.fresh { event := s.fresh, device }
  fresh : s'.fresh = s.fresh + 1

theorem eventCreate_cases (P : Platform) (s : Streams) (device : ℕ) (out : Bool) (r : Replies) :
    (grxEventCreate P s device out r).1 = s ∨
      AddsEvent s (grxEventCreate P s device out r).1 device := by
  unfold grxEventCreate
  split
  · exact .inl rfl
  · split
    · exact .inl rfl
    · split
      · exact .inl rfl
      · split
        · exact .inl rfl
        · exact .inr ⟨rfl, rfl, rfl, rfl⟩

end Streams

/-! ## Calls -/

/-- What a call wants enqueued. -/
structure Ask where
  stream : Option ℕ
  device : ℕ
  body : Queues.Body ℕ Work
  replies : Replies
  note : Streams → ℕ → Streams

/-- Have it enqueued. -/
def Ask.submit (P : Platform) (s : Streams) (a : Ask) : Streams × Except GrxError Unit :=
  Streams.submit P s a.stream a.device a.body a.replies a.note

/-- What a plan wants enqueued. -/
def Plan.ask (plan : Plan) (stream : Option ℕ) (replies : Replies) : Option Ask :=
  match plan with
  | .fail _ => none
  | .finish => none
  | .copied _ => none
  | .enqueue device work =>
      some { stream, device, body := .work work, replies, note := fun s _ => s }

namespace Context

variable {P : Platform} {x : Context} {c : ApiCall}

/-- The plan of a copy, a memset or a launch, with its stream. -/
def plan (P : Platform) (x : Context) : ApiCall → Option (Plan × Option ℕ × Replies)
  | .memcpyAsync dst src count kind stream npu r =>
      some (copyPlan P x dst src count kind npu r.acquire, stream, r)
  | .memsetAsync dst count stream r => some (x.memsetPlan dst count, stream, r)
  | .launchKernel stub stream l r =>
      match (x.modules.lookupRegistration stub x.current r.acquire l).2 with
      | none => none
      | some kernel =>
          match l.args with
          | some _ => none
          | none => some (launchPlan kernel x.current r.acquire l.fits, stream, r)
  | .launchFunction func stream l r =>
      match x.modules.functions.find? func with
      | none => none
      | some f => some (launchPlan f.kernel f.device r.acquire l.fits, stream, r)
  | _ => none

/-- What a call wants enqueued, if it gets that far. -/
def asks (P : Platform) (x : Context) : ApiCall → Option Ask
  | .eventRecord event stream replies =>
      (x.streams.events.find? event).map fun ev =>
        { stream, device := ev.device, body := .signal ev.event ev.nextTarget, replies
          note := Streams.noteRecord event ev }
  | .streamWaitEvent stream event replies =>
      match x.streams.events.find? event with
      | none => none
      | some ev =>
          if ev.recorded = false then none
          else
            some { stream, device := x.current, body := .wait ev.event ev.target, replies
                   note := fun s _ => s }
  | c => (plan P x c).bind fun p => p.1.ask p.2.1 p.2.2

/-- What a call does to the streams, `s'` being what it makes of them. -/
inductive Does (P : Platform) (x : Context) (c : ApiCall) (s' : Streams) : Prop
  | keeps (asks : x.asks P c = none) (same : s' = x.streams)
  | joins (t : StreamState) (asks : x.asks P c = none)
      (joins : Streams.Joins x.streams s' (.user x.streams.fresh) t)
  | event (asks : x.asks P c = none) (event : Streams.AddsEvent x.streams s' x.current)
  | submits (a : Ask) (asks : x.asks P c = some a) (quiet : Streams.Quiet a.note)
      (submits : s' = (a.submit P x.streams).1)

theorem Plan.ask_quiet {plan : Plan} {stream : Option ℕ} {r : Replies} {a : Ask}
    (h : plan.ask stream r = some a) : Streams.Quiet a.note := by
  cases plan with
  | fail e => cases h
  | finish => cases h
  | copied device => cases h
  | enqueue device work =>
    cases h
    exact Streams.quiet_id

theorem carryOut_streams (P : Platform) (x : Context) (plan : Plan) (stream : Option ℕ)
    (r : Replies) : (carryOut P x plan stream r).1.streams =
      (plan.ask stream r).elim x.streams fun a => (a.submit P x.streams).1 := by
  cases plan <;> rfl

/-- Carrying out a plan is all a copy, a memset or a launch does to the streams. -/
theorem Does.carryOut {plan : Plan} {stream : Option ℕ} {r : Replies} {x' : Context}
    (hx : x'.streams = x.streams) (ha : x.asks P c = plan.ask stream r) :
    Does P x c (carryOut P x' plan stream r).1.streams := by
  rw [carryOut_streams, hx]
  cases hplan : plan.ask stream r with
  | none => exact .keeps (ha.trans hplan) rfl
  | some a => exact .submits a (ha.trans hplan) (Plan.ask_quiet hplan) rfl

theorem call_cases (P : Platform) (x : Context) (c : ApiCall) :
    Does P x c (x.call P c).1.streams := by
  cases c with
  | streamCreate out flags r =>
    rcases Streams.create_cases P x.streams x.current out flags r with h | ⟨t, -, h⟩
    · exact .keeps rfl h
    · exact .joins t rfl h
  | eventCreate out r =>
    rcases Streams.eventCreate_cases P x.streams x.current out r with h | h
    · exact .keeps rfl h
    · exact .event rfl h
  | eventRecord event stream r =>
    cases hev : x.streams.events.find? event with
    | none =>
      refine .keeps (by rw [asks, hev, Option.map_none]) ?_
      simp only [call, noHandle, onStreams, Streams.grxEventRecord, hev]
    | some ev =>
      refine .submits _ (by rw [asks, hev, Option.map_some])
        (Streams.quiet_noteRecord event ev) ?_
      simp only [call, noHandle, onStreams, Streams.grxEventRecord, hev]
      rfl
  | streamWaitEvent stream event r =>
    cases hev : x.streams.events.find? event with
    | none =>
      refine .keeps (by rw [asks, hev]) ?_
      simp only [call, noHandle, onStreams, Streams.grxStreamWaitEvent, hev]
    | some ev =>
      by_cases hrec : ev.recorded = false
      · refine .keeps (by rw [asks, hev]; exact if_pos hrec) ?_
        simp only [call, noHandle, onStreams, Streams.grxStreamWaitEvent, hev, if_pos hrec]
      · refine .submits _ (by rw [asks, hev]; exact if_neg hrec) Streams.quiet_id ?_
        simp only [call, noHandle, onStreams, Streams.grxStreamWaitEvent, hev, if_neg hrec]
        rfl
  | memcpyAsync dst src count kind stream npu r => exact Does.carryOut rfl rfl
  | memsetAsync dst count stream r => exact Does.carryOut rfl rfl
  | launchKernel stub stream l r =>
    simp only [call, noHandle, grxLaunchKernel]
    cases hk : x.modules.lookupRegistration stub x.current r.acquire l with
    | mk modules kernel =>
      cases kernel with
      | none => exact .keeps (by simp [asks, plan, hk]) rfl
      | some kernel =>
        cases hargs : l.args with
        | some e => exact .keeps (by simp [asks, plan, hk, hargs]) rfl
        | none => exact Does.carryOut rfl (by simp [asks, plan, hk, hargs])
  | launchFunction func stream l r =>
    simp only [call, noHandle, grxLaunchFunction]
    cases hf : x.modules.functions.find? func with
    | none => exact .keeps (by simp [asks, plan, hf]) rfl
    | some f => exact Does.carryOut rfl (by simp [asks, plan, hf])
  | setDevice device acquire =>
    refine .keeps rfl ?_
    cases acquire <;> rfl
  | mallocHost out size acquire mapped =>
    refine .keeps rfl ?_
    simp only [call, grxMallocHost]
    repeat' split
    all_goals rfl
  | freeHost address =>
    refine .keeps rfl ?_
    simp only [call, noHandle, grxFreeHost]
    repeat' split
    all_goals rfl
  | _ => exact .keeps rfl rfl

/-- Calls and completions keep queues and streams together. -/
theorem wired_step (h : x.streams.Wired) (m : Move) : (x.step P m).streams.Wired := by
  cases m with
  | complete i => exact h.congr rfl Queues.Board.complete_log le_rfl
  | call c =>
    rcases call_cases P x c with ⟨-, hs⟩ | ⟨t, -, hj⟩ | ⟨-, hev⟩ | ⟨a, -, hquiet, hs⟩
    · rw [step, hs]
      exact h
    · exact h.joins hj
    · exact h.congr hev.state (congrArg _ hev.board) (by rw [step, hev.fresh]; omega)
    · rw [step, hs]
      exact h.submit P a.stream a.device a.body a.replies hquiet

end Context

end Grxcp.Runtime
