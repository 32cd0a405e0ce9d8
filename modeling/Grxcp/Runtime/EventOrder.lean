import Grxcp.Lib.Runs
import Grxcp.Runtime.StreamCalls

/-!
# What a wait for an event waits for

An event is a counter, and `grxStreamWaitEvent` has the stream wait until the counter reaches the value
of the event's last record. A later record raises the same counter, so if its stream is faster, the wait
passes before what it is for. Work behind a wait keeps to the order in every run in which each record
comes after the work that the pending waits of its event are for, or those waits are held for the work
in some other way (`Context.RecordsInTurn`, `waits_hold`).

`Streams.Tallied` is what holds of the events in such a run: a counter has been signalled up to the
target of its event, and a wait is for the last signal before it.
-/

namespace Grxcp.Runtime

open Queues (Before Works Awaits Guarded Leads Shields bodyAt)

/-- Command `r` is the last record of the event that the stream waits for in command `w`. -/
def LastRecord (log : Queues.Log Queue ℕ Work) (r w : ℕ) : Prop :=
  r < w ∧ ∃ event v target, bodyAt log r = some (.signal event v) ∧
    bodyAt log w = some (.wait event target) ∧
      ∀ k v', r < k → k < w → bodyAt log k ≠ some (.signal event v')

/-- A record's value has not come round to zero, and the record comes after the work that the pending
waits of its event are for, or these are held for the work. -/
def InTurn (b : Board) (c : Command) : Prop :=
  ∀ event v, c.body = .signal event v → v ≠ 0 ∧
    ∀ r w target, bodyAt b.log w = some (.wait event target) → Awaits b.log r w → w ∉ b.done →
      ∀ y, Works b.log y → Guarded b.log y r → y ∉ b.done → Leads b.log y w ∨ Shields b.log c y

namespace Streams

/-- Nothing after a wait for an event is done before the work that the last record before it follows. -/
def WaitsHold (s : Streams) : Prop :=
  ∀ r w x y, LastRecord s.board.log r w → Before s.board.log w x → Works s.board.log y →
    Guarded s.board.log y r → x ∈ s.board.done → y ∈ s.board.done

/-- Each event has its own counter, signalled up to the event's target, and the board is timely. -/
structure Tallied (s : Streams) : Prop where
  timely : s.board.Timely
  own : ∀ h ev, s.events.find? h = some ev → ev.event = h ∧ h < s.fresh ∧ ev.target < 2 ^ 64
  signals : ∀ i h v, bodyAt s.board.log i = some (.signal h v) →
    ∃ ev, s.events.find? h = some ev ∧ v ≤ ev.target
  last : ∀ h ev, s.events.find? h = some ev → ev.recorded = true →
    ∃ r, bodyAt s.board.log r = some (.signal h ev.target)
  awaits : ∀ r w, LastRecord s.board.log r w → Awaits s.board.log r w

variable {s s' : Streams} {c : Command} {stream : Option ℕ} {device : ℕ}

theorem Tallied.empty : ({} : Streams).Tallied where
  timely := .empty
  own := by
    intro h ev hev
    cases hev
  signals := by
    intro i h v hi
    cases hi
  last := by
    intro h ev hev
    cases hev
  awaits := by
    rintro r w ⟨-, event, v, target, hr, -⟩
    cases hr

/-- The events and the log are all that matters, and that the board is timely. -/
theorem Tallied.congr (h : s.Tallied) (hevents : s'.events = s.events)
    (hlog : s'.board.log = s.board.log) (hfresh : s.fresh ≤ s'.fresh) (ht : s'.board.Timely) :
    s'.Tallied where
  timely := ht
  own := by
    intro id ev hev
    obtain ⟨he, hlt, ht⟩ := h.own id ev (hevents ▸ hev)
    exact ⟨he, hlt.trans_le hfresh, ht⟩
  signals := by
    rw [hevents, hlog]
    exact h.signals
  last := by
    rw [hevents, hlog]
    exact h.last
  awaits := by
    rw [hlog]
    exact h.awaits

theorem Tallied.joins (h : s.Tallied) {k : StreamKey} {t : StreamState} (hj : Joins s s' k t) :
    s'.Tallied := by
  refine h.congr hj.events (congrArg _ hj.board) (by rw [hj.fresh]; omega) ?_
  rw [hj.board]
  exact h.timely

theorem Tallied.addsEvent (h : s.Tallied) (he : AddsEvent s s' device) : s'.Tallied := by
  have hnew : ∀ id ev, s.events.find? id = some ev → s'.events.find? id = some ev := by
    intro id ev hev
    have := (h.own id ev hev).2.1
    rw [he.events, OrdMap.find?_insert, if_neg (by omega), hev]
  have hold : ∀ id ev, s'.events.find? id = some ev →
      id = s.fresh ∧ ev = { event := s.fresh, device } ∨ s.events.find? id = some ev := by
    intro id ev hev
    rw [he.events, OrdMap.find?_insert] at hev
    by_cases hid : id = s.fresh
    · rw [if_pos hid] at hev
      exact .inl ⟨hid, (Option.some.inj hev).symm⟩
    · rw [if_neg hid] at hev
      exact .inr hev
  constructor
  · rw [he.board]
    exact h.timely
  · intro id ev hev
    rw [he.fresh]
    rcases hold id ev hev with ⟨rfl, rfl⟩ | hev
    · exact ⟨rfl, Nat.lt_succ_self _, Nat.two_pow_pos 64⟩
    · obtain ⟨hown, hlt, ht⟩ := h.own id ev hev
      exact ⟨hown, hlt.trans (Nat.lt_succ_self _), ht⟩
  · intro i id v hi
    rw [he.board] at hi
    obtain ⟨ev, hev, hv⟩ := h.signals i id v hi
    exact ⟨ev, hnew id ev hev, hv⟩
  · intro id ev hev hrec
    rw [he.board]
    rcases hold id ev hev with ⟨rfl, rfl⟩ | hev
    · cases hrec
    · exact h.last id ev hev hrec
  · rw [he.board]
    exact h.awaits

/-! ## A command -/

theorem lastRecord_append {log : Queues.Log Queue ℕ Work} {r w : ℕ} (h : LastRecord (log ++ [c]) r w) :
    LastRecord log r w ∨ w = log.length ∧ ∃ event v target, c.body = .wait event target ∧
      bodyAt log r = some (.signal event v) ∧
        ∀ k v', r < k → bodyAt log k ≠ some (.signal event v') := by
  obtain ⟨hrw, event, v, target, hr, hw, hlast⟩ := h
  rcases Queues.bodyAt_append_some hw with hw | ⟨rfl, hb⟩
  · have hwl := Queues.bodyAt_lt hw
    refine .inl ⟨hrw, event, v, target, ?_, hw, fun k v' hrk hkw => ?_⟩
    · rw [← hr, Queues.bodyAt_append_of_lt (hrw.trans hwl)]
    · rw [← Queues.bodyAt_append_of_lt (hkw.trans hwl)]
      exact hlast k v' hrk hkw
  · refine .inr ⟨rfl, event, v, target, hb.symm, ?_, fun k v' hrk hk => ?_⟩
    · rw [← hr, Queues.bodyAt_append_of_lt hrw]
    · exact hlast k v' hrk (Queues.bodyAt_lt hk) (Queues.bodyAt_append_mono hk)

/-- Waits stay waits for the last record if a new one is. -/
theorem Tallied.awaits_issue (h : s.Tallied)
    (hnew : ∀ event v target r, c.body = .wait event target →
      bodyAt s.board.log r = some (.signal event v) →
        (∀ k v', r < k → bodyAt s.board.log k ≠ some (.signal event v')) → v = target) :
    ∀ r w, LastRecord (s.board.log ++ [c]) r w → Awaits (s.board.log ++ [c]) r w := by
  intro r w hr
  rcases lastRecord_append hr with hr | ⟨rfl, event, v, target, hb, hr, hlast⟩
  · have ha := h.awaits r w hr
    exact (Queues.awaits_append_of_lt ha.lt_length).mpr ha
  · obtain rfl := hnew event v target r hb hr hlast
    refine ⟨Queues.bodyAt_lt hr, event, v, Queues.bodyAt_append_mono hr, ?_⟩
    rw [Queues.bodyAt_append_last, hb]

/-- The driver takes a command that is not a record. -/
theorem Tallied.issue (h : s.Tallied) (hadmits : s.board.Admits c)
    (hc : ∀ event v, c.body ≠ .signal event v)
    (hawaits : ∀ r w, LastRecord (s.board.log ++ [c]) r w → Awaits (s.board.log ++ [c]) r w)
    (hboard : s'.board = s.board.issue c) (hevents : s'.events = s.events)
    (hfresh : s'.fresh = s.fresh) : s'.Tallied := by
  constructor
  · rw [hboard]
    exact h.timely.issue hadmits
  · rw [hevents, hfresh]
    exact h.own
  · intro i id v hi
    rw [hboard] at hi
    rw [hevents]
    rcases Queues.bodyAt_append_some hi with hi | ⟨-, hb⟩
    · exact h.signals i id v hi
    · exact absurd hb.symm (hc id v)
  · intro id ev hev hrec
    rw [hevents] at hev
    rw [hboard]
    obtain ⟨r, hr⟩ := h.last id ev hev hrec
    exact ⟨r, Queues.bodyAt_append_mono hr⟩
  · rw [hboard]
    exact hawaits

theorem Tallied.work (h : s.Tallied) {u : Work} (hc : c.body = .work u)
    (hboard : s'.board = s.board.issue c) (hevents : s'.events = s.events)
    (hfresh : s'.fresh = s.fresh) : s'.Tallied := by
  refine h.issue ?_ ?_ (h.awaits_issue ?_) hboard hevents hfresh
  · constructor <;> intro event v hb <;> rw [hc] at hb <;> cases hb
  · intro event v hb
    rw [hc] at hb
    cases hb
  · intro event v target r hb
    rw [hc] at hb
    cases hb

theorem Tallied.signals_le (h : s.Tallied) {id : ℕ} {ev : EventState}
    (hev : s.events.find? id = some ev) {r v : ℕ} (hr : bodyAt s.board.log r = some (.signal id v)) :
    v ≤ ev.target := by
  obtain ⟨ev', hev', hv⟩ := h.signals r id v hr
  rw [hev] at hev'
  cases hev'
  exact hv

/-- A wait for the target of an event is for the event's last record. -/
theorem Tallied.wait (h : s.Tallied) {id : ℕ} {ev : EventState} (hev : s.events.find? id = some ev)
    (hrec : ev.recorded = true) (hc : c.body = .wait ev.event ev.target)
    (hboard : s'.board = s.board.issue c) (hevents : s'.events = s.events)
    (hfresh : s'.fresh = s.fresh) : s'.Tallied := by
  obtain ⟨rfl, -, -⟩ := h.own id ev hev
  obtain ⟨r₀, hr₀⟩ := h.last ev.event ev hev hrec
  refine h.issue ?_ ?_ (h.awaits_issue ?_) hboard hevents hfresh
  · constructor <;> intro event v hb <;> rw [hc] at hb <;> cases hb
    exact ⟨⟨r₀, hr₀⟩, fun r v hr => h.signals_le hev hr⟩
  · intro event v hb
    rw [hc] at hb
    cases hb
  · intro event v target r hb hr hlast
    rw [hc] at hb
    cases hb
    -- a record after that of the target would have a greater value
    rcases (not_lt.mp fun hlt => hlast r₀ ev.target hlt hr₀).eq_or_lt with rfl | hlt
    · rw [hr₀] at hr
      cases hr
      rfl
    · have hrise := h.timely.rising r₀ r ev.event ev.target v hlt hr₀ hr
      exact absurd (h.signals_le hev hr) (not_le.mpr hrise)

/-- The driver takes a record in turn. -/
theorem Tallied.record (h : s.Tallied) {id : ℕ} {ev : EventState} (hev : s.events.find? id = some ev)
    (hc : c.body = .signal ev.event ev.nextTarget) (hturn : InTurn s.board c) (i : ℕ)
    (hboard : s'.board = s.board.issue c) (hfresh : s'.fresh = s.fresh)
    (hevents : s'.events = s.events.insert id
      { ev with target := ev.nextTarget, recorded := true, completion := some i }) :
    s'.Tallied := by
  obtain ⟨rfl, hlt, htarget⟩ := h.own id ev hev
  obtain ⟨hzero, hguard⟩ := hturn ev.event ev.nextTarget hc
  have hnext : ev.nextTarget = ev.target + 1 := by
    unfold EventState.nextTarget at hzero ⊢
    omega
  have hbound : ev.nextTarget < 2 ^ 64 := by
    unfold EventState.nextTarget
    omega
  have hmax : ∀ r v, bodyAt s.board.log r = some (.signal ev.event v) → v < ev.nextTarget := by
    intro r v hr
    have := h.signals_le hev hr
    omega
  have hadmits : s.board.Admits c := by
    constructor
    · intro event v hb
      rw [hc] at hb
      cases hb
    · intro event v hb
      rw [hc] at hb
      cases hb
      exact ⟨by omega, hmax⟩
    · intro event v hb r w target hw ha hwd y hy hg hyd
      rw [hc] at hb
      cases hb
      exact hguard r w target hw ha hwd y hy hg hyd
  have hold : ∀ id' ev', s'.events.find? id' = some ev' →
      id' = ev.event ∧ ev'.event = ev.event ∧ ev'.target = ev.nextTarget ∨
        id' ≠ ev.event ∧ s.events.find? id' = some ev' := by
    intro id' ev' hev'
    rw [hevents, OrdMap.find?_insert] at hev'
    by_cases hid : id' = ev.event
    · rw [if_pos hid] at hev'
      cases hev'
      exact .inl ⟨hid, rfl, rfl⟩
    · rw [if_neg hid] at hev'
      exact .inr ⟨hid, hev'⟩
  constructor
  · rw [hboard]
    exact h.timely.issue hadmits
  · intro id' ev' hev'
    rw [hfresh]
    rcases hold id' ev' hev' with ⟨rfl, he, ht⟩ | ⟨-, hev'⟩
    · exact ⟨he, hlt, ht ▸ hbound⟩
    · exact h.own id' ev' hev'
  · intro i id' v hi
    rw [hboard] at hi
    rw [hevents, OrdMap.find?_insert]
    by_cases hid : id' = ev.event
    · rw [if_pos hid]
      refine ⟨_, rfl, ?_⟩
      rcases Queues.bodyAt_append_some hi with hi | ⟨-, hb⟩
      · exact (hmax i v (hid ▸ hi)).le
      · rw [hc] at hb
        cases hb
        exact le_rfl
    · rw [if_neg hid]
      rcases Queues.bodyAt_append_some hi with hi | ⟨-, hb⟩
      · exact h.signals i id' v hi
      · rw [hc] at hb
        cases hb
        exact absurd rfl hid
  · intro id' ev' hev' hrec
    rw [hboard]
    rcases hold id' ev' hev' with ⟨rfl, -, ht⟩ | ⟨-, hev'⟩
    · refine ⟨s.board.log.length, ?_⟩
      rw [Queues.Board.issue_log, Queues.bodyAt_append_last, hc, ht]
    · obtain ⟨r, hr⟩ := h.last id' ev' hev' hrec
      exact ⟨r, Queues.bodyAt_append_mono hr⟩
  · rw [hboard]
    refine h.awaits_issue fun event v target r hb => ?_
    rw [hc] at hb
    cases hb

/-! ## Calls -/

theorem releaseSlot_events (s : Streams) (h : Option ℕ) : (s.releaseSlot h).events = s.events := by
  cases h <;> rfl

theorem put_events (s : Streams) (stream : Option ℕ) (device : ℕ) (t : StreamState) :
    (s.put stream device t).events = s.events := by
  cases stream <;> rfl

theorem setStreamLastEvent_events (s : Streams) (stream : Option ℕ) (device event : ℕ) :
    (s.setStreamLastEvent stream device event).events = s.events := by
  unfold setStreamLastEvent
  cases s.lookup stream device with
  | none => rfl
  | some t => rw [put_events, releaseSlot_events]

theorem noteRecord_events (id : ℕ) (ev : EventState) (s : Streams) (completion : ℕ) :
    (noteRecord id ev s completion).events = s.events.insert id
      { ev with target := ev.nextTarget, recorded := true, completion := some completion } := by
  rw [← releaseSlot_events s ev.completion]
  rfl

theorem resolve_events (P : Platform) (s : Streams) (stream : Option ℕ) (device : ℕ) (r : Replies) :
    (resolveStream P s stream device r).1.events = s.events := by
  rcases resolve_cases P s stream device r with heq | ⟨-, t, -, hj⟩
  · rw [heq]
  · exact hj.events

theorem Tallied.resolve (h : s.Tallied) (P : Platform) (stream : Option ℕ) (device : ℕ)
    (r : Replies) : (resolveStream P s stream device r).1.Tallied := by
  rcases resolve_cases P s stream device r with heq | ⟨-, t, -, hj⟩
  · rw [heq]
    exact h
  · exact h.joins hj

end Streams

/-- The command that the driver takes, if it takes one. -/
def Ask.command (P : Platform) (s : Streams) (a : Ask) : Option Command :=
  let s := (Streams.resolveStream P s a.stream a.device a.replies).1
  if a.replies.enqueue = none then
    (s.lookup a.stream a.device).map fun t => ⟨t.queue, s.collectWaitEvents a.stream a.device, a.body⟩
  else none

namespace Context

variable {P : Platform} {x : Context} {c : ApiCall} {a : Ask}

/-- What a call can want enqueued: work, a record, or a wait. -/
inductive Asking (x : Context) (c : ApiCall) (a : Ask) : Prop
  | work (u : Work) (body : a.body = .work u) (note : a.note = fun s _ => s)
  | record (event : ℕ) (stream : Option ℕ) (replies : Replies) (ev : EventState)
      (call : c = .eventRecord event stream replies) (find : x.streams.events.find? event = some ev)
      (body : a.body = .signal ev.event ev.nextTarget) (note : a.note = Streams.noteRecord event ev)
  | wait (event : ℕ) (ev : EventState) (find : x.streams.events.find? event = some ev)
      (recorded : ev.recorded = true) (body : a.body = .wait ev.event ev.target)
      (note : a.note = fun s _ => s)

theorem Asking.of_plan {plan : Plan} {stream : Option ℕ} {r : Replies}
    (h : plan.ask stream r = some a) : Asking x c a := by
  cases plan with
  | fail e => cases h
  | finish => cases h
  | copied device => cases h
  | enqueue device work =>
    cases h
    exact .work work rfl rfl

theorem asking (h : x.asks P c = some a) : Asking x c a := by
  have hplan : (plan P x c).bind (fun p => p.1.ask p.2.1 p.2.2) = some a → Asking x c a := by
    intro hp
    obtain ⟨q, -, hq⟩ := Option.bind_eq_some_iff.mp hp
    exact .of_plan hq
  cases c with
  | eventRecord event stream replies =>
    obtain ⟨ev, hev, rfl⟩ := Option.map_eq_some_iff.mp h
    exact .record event stream replies ev rfl hev rfl rfl
  | streamWaitEvent stream event replies =>
    rw [asks] at h
    split at h
    · cases h
    · next ev hev =>
      split at h
      · cases h
      · next hrec =>
        cases h
        exact .wait event ev hev (Bool.eq_true_of_not_eq_false hrec) rfl rfl
  | _ => exact hplan h

/-- If the move is a record that the driver takes, it is in turn. -/
def RecordsInTurn (P : Platform) (x : Context) (m : Move) : Prop :=
  ∀ event stream replies a c, m = .call (.eventRecord event stream replies) →
    x.asks P (.eventRecord event stream replies) = some a → a.command P x.streams = some c →
      InTurn x.streams.board c

theorem tallied_submit (h : x.streams.Tallied) (ha : x.asks P c = some a)
    (hturn : x.RecordsInTurn P (.call c)) : (a.submit P x.streams).1.Tallied := by
  have hs := h.resolve P a.stream a.device a.replies
  have hboard := Streams.resolve_board P x.streams a.stream a.device a.replies
  have hevents := Streams.resolve_events P x.streams a.stream a.device a.replies
  unfold Ask.submit
  rcases Streams.submit_cases P x.streams a.stream a.device a.body a.replies a.note with
    ⟨e, heq, -⟩ | ⟨t, ht, henq, heq⟩ <;> rw [heq]
  · exact hs
  · cases asking ha with
    | work u hb hn =>
      have hi := Streams.issues_issued ht a.body (hn ▸ Streams.quiet_id)
      refine hs.work hb hi.board ?_ hi.fresh
      rw [Streams.issued, Streams.setStreamLastEvent_events, hn]
      rfl
    | record event stream replies ev hc hf hb hn =>
      have hi := Streams.issues_issued ht a.body (hn ▸ Streams.quiet_noteRecord event ev)
      subst hc
      have hcommand : a.command P x.streams = some ⟨t.queue,
          Streams.collectWaitEvents (Streams.resolveStream P x.streams a.stream a.device a.replies).1
            a.stream a.device, a.body⟩ := by
        simp only [Ask.command, henq, if_true, ht, Option.map_some]
      have hturn := hturn event stream replies a _ rfl ha hcommand
      rw [← hboard] at hturn
      refine hs.record (hevents ▸ hf) hb hturn
        (Streams.resolveStream P x.streams a.stream a.device a.replies).1.board.log.length
        hi.board hi.fresh ?_
      rw [Streams.issued, Streams.setStreamLastEvent_events, hn, Streams.noteRecord_events]
      rfl
    | wait event ev hf hr hb hn =>
      have hi := Streams.issues_issued ht a.body (hn ▸ Streams.quiet_id)
      refine hs.wait (hevents ▸ hf) hr hb hi.board ?_ hi.fresh
      rw [Streams.issued, Streams.setStreamLastEvent_events, hn]
      rfl

theorem tallied_step (h : x.streams.Tallied) {m : Move} (hm : x.RecordsInTurn P m) :
    (x.step P m).streams.Tallied := by
  cases m with
  | complete i =>
    exact h.congr rfl Queues.Board.complete_log le_rfl (h.timely.complete i)
  | call c =>
    rcases call_cases P x c with ⟨-, hs⟩ | ⟨t, -, hj⟩ | ⟨-, hev⟩ | ⟨a, ha, -, hs⟩
    · rw [step, hs]
      exact h
    · exact h.joins hj
    · exact h.addsEvent hev
    · rw [step, hs]
      exact tallied_submit h ha hm

end Context

/-- Work on a stream after a wait for an event is never done before the work that preceded the event's
last record, if each record of the run is in turn. -/
theorem waits_hold (P : Platform) (ms : List Move)
    (h : Runs.Along (Context.step P) (Context.RecordsInTurn P) {} ms) :
    (Runs.after (Context.step P) {} ms).streams.WaitsHold := by
  have ht : (Runs.after (Context.step P) {} ms).streams.Tallied :=
    Runs.invariant (I := fun x => x.streams.Tallied) (fun x m hx hm => Context.tallied_step hx hm) h .empty
  intro r w x y hr hx hy hg hd
  exact ht.timely.wait_guards (ht.awaits r w hr) hx hy hg hd

/-- A kernel is launched on stream 1, and its event recorded there; stream 3 waits for the event, and
launches a kernel of its own. -/
def launchAndWait : List Move :=
  [.call (.moduleLoad none {}), .call (.moduleGetFunction 1 {}), .call (.streamCreate true 0 {}),
    .call (.streamCreate true 0 {}), .call (.streamCreate true 0 {}), .call (.eventCreate true {}),
    .call (.launchFunction 2 (some 1) {} {}), .call (.eventRecord 4 (some 1) {}),
    .call (.streamWaitEvent (some 3) 4 {}), .call (.launchFunction 2 (some 3) {} {})]

/-- The event is recorded again on stream 2, which is idle. -/
def recordAgain : Move :=
  .call (.eventRecord 4 (some 2) {})

theorem recordsInTurn_of_ne {P : Platform} {x : Context} {m : Move}
    (h : ∀ event stream replies, m ≠ .call (.eventRecord event stream replies)) :
    x.RecordsInTurn P m := by
  intro event stream replies a c hm
  exact absurd hm (h event stream replies)

theorem recordsInTurn_of_command {P : Platform} {x : Context} {event : ℕ} {stream : Option ℕ}
    {replies : Replies} {c : Command}
    (hc : (x.asks P (.eventRecord event stream replies)).bind (fun a => a.command P x.streams) = some c)
    (ht : InTurn x.streams.board c) :
    x.RecordsInTurn P (.call (.eventRecord event stream replies)) := by
  rintro _ _ _ a d ⟨⟩ ha hd
  rw [ha, Option.bind_some, hd] at hc
  cases hc
  exact ht

/-- The event is recorded again when the kernel is done that it was first recorded after. -/
theorem waits_hold_done : (Runs.after (Context.step plain) {}
    (launchAndWait ++ [.complete 0, recordAgain, .complete 4, .complete 2, .complete 3])).streams.WaitsHold := by
  refine waits_hold plain _ ?_
  have hfirst : Context.RecordsInTurn plain (Runs.after (Context.step plain) {} (launchAndWait.take 7))
      (.call (.eventRecord 4 (some 1) {})) := by
    refine recordsInTurn_of_command (c := ⟨⟨0, 1⟩, [0], .signal 4 1⟩) (by decide +kernel) ?_
    have hlog : (Runs.after (Context.step plain) {} (launchAndWait.take 7)).streams.board.log =
        [⟨⟨0, 1⟩, [], .work (.launch ⟨0, 2⟩)⟩] := by
      decide +kernel
    rintro _ _ ⟨⟩
    refine ⟨by decide, fun r w target hw => ?_⟩
    -- nothing waits yet
    rw [hlog] at hw
    have hlt : w < 1 := Queues.bodyAt_lt hw
    obtain rfl : w = 0 := by omega
    cases hw
  have hsecond : Context.RecordsInTurn plain
      (Runs.after (Context.step plain) {} (launchAndWait ++ [.complete 0])) recordAgain := by
    refine recordsInTurn_of_command (c := ⟨⟨0, 2⟩, [], .signal 4 2⟩) (by decide +kernel) ?_
    have hlog : (Runs.after (Context.step plain) {} (launchAndWait ++ [.complete 0])).streams.board.log =
        [⟨⟨0, 1⟩, [], .work (.launch ⟨0, 2⟩)⟩, ⟨⟨0, 1⟩, [0], .signal 4 1⟩, ⟨⟨0, 3⟩, [], .wait 4 1⟩,
          ⟨⟨0, 3⟩, [2], .work (.launch ⟨0, 2⟩)⟩] := by
      decide +kernel
    have hdone : (Runs.after (Context.step plain) {} (launchAndWait ++ [.complete 0])).streams.board.done =
        {0} := by
      decide +kernel
    rintro _ _ ⟨⟩
    refine ⟨by decide, fun r w target hw ha hwd y hy hg hyd => ?_⟩
    -- the wait is for command 1, and command 0 is done
    rw [hlog] at ha hg
    rw [hdone] at hyd
    have hr : r = 1 := by
      obtain ⟨hrw, e, v, hr, hw'⟩ := ha
      have hlt : r < 4 := Queues.bodyAt_lt hr
      interval_cases r <;> cases hr
      rfl
    have := hg.lt
    obtain rfl : y = 0 := by omega
    exact absurd (Finset.mem_singleton_self 0) hyd
  rw [Runs.along_append]
  constructor
  · simp only [launchAndWait, Runs.along_cons, Runs.along_nil, and_true]
    refine ⟨?_, ?_, ?_, ?_, ?_, ?_, ?_, hfirst, ?_, ?_⟩ <;>
      exact recordsInTurn_of_ne (by rintro _ _ _ ⟨⟩)
  · simp only [Runs.along_cons, Runs.along_nil, and_true]
    rw [Runs.after_append] at hsecond
    refine ⟨?_, hsecond, ?_, ?_, ?_⟩ <;> exact recordsInTurn_of_ne (by rintro _ _ _ ⟨⟩)

/-- Before it is done, the second record lets the wait pass. -/
theorem waits_hold_not : ¬∀ (P : Platform) (ms : List Move),
    (Runs.after (Context.step P) {} ms).streams.WaitsHold := by
  intro h
  have hwaits := h plain (launchAndWait ++ [recordAgain, .complete 4, .complete 2, .complete 3])
  have hlog : (Runs.after (Context.step plain) {} (launchAndWait ++
      [recordAgain, .complete 4, .complete 2, .complete 3])).streams.board.log =
      [⟨⟨0, 1⟩, [], .work (.launch ⟨0, 2⟩)⟩, ⟨⟨0, 1⟩, [0], .signal 4 1⟩, ⟨⟨0, 3⟩, [], .wait 4 1⟩,
        ⟨⟨0, 3⟩, [2], .work (.launch ⟨0, 2⟩)⟩, ⟨⟨0, 2⟩, [], .signal 4 2⟩] := by
    decide +kernel
  have hdone : (Runs.after (Context.step plain) {} (launchAndWait ++
      [recordAgain, .complete 4, .complete 2, .complete 3])).streams.board.done = {2, 3, 4} := by
    decide +kernel
  unfold Streams.WaitsHold at hwaits
  rw [hlog, hdone] at hwaits
  have hzero := hwaits 1 2 3 0 ⟨by decide, 4, 1, 1, rfl, rfl, fun k v' hk hk' => by omega⟩
    (Queues.before_of_queue (by decide) rfl rfl rfl) ⟨_, rfl⟩
    (.of_before (Queues.before_of_queue (by decide) rfl rfl rfl)) (by decide)
  exact absurd hzero (by decide)

end Grxcp.Runtime
