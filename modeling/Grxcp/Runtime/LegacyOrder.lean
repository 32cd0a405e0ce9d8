import Grxcp.Lib.Runs
import Grxcp.Runtime.StreamCalls

/-!
# The order of the default stream

The null stream of a device and the blocking streams of the device are to be ordered as their work was
issued. Every enqueue collects the last events that see to it, but it looks for the null stream of the
device that the caller passed, and that may not be the device of the stream. So the order holds in
exactly the runs in which each command of a blocking stream is issued with the stream's own device,
or comes after the last command of its null stream in some other way (`legacy_order`).
-/

namespace Grxcp.Runtime

open Queues (Ordered IsLast Before Covers Feeds)

/-- The first is the null stream of a device, the second one of its blocking streams. -/
structure Legacy (t u : StreamState) : Prop where
  device : t.device = u.device
  null : t.isNull = true
  user : u.isNull = false
  blocking : u.nonBlocking = false

namespace Streams

/-- The queues are of a null stream and of a blocking stream of one device. -/
def LegacyQueues (s : Streams) (q q' : Queue) : Prop :=
  ∃ k k' t u, s.state? k = some t ∧ s.state? k' = some u ∧ t.queue = q ∧ u.queue = q' ∧
    (Legacy t u ∨ Legacy u t)

/-- Work on the null stream of a device and on its blocking streams is ordered as it was issued. -/
def LegacyOrdered (s : Streams) : Prop :=
  Ordered s.LegacyQueues s.board.log

/-- A blocking stream is resolved with its own device, or it waits in another way for the last command
of the null stream of its own device. -/
def MindsDevice (s : Streams) (stream : Option ℕ) (device : ℕ) : Prop :=
  ∀ h t, stream = some h → s.state? (.user h) = some t → t.nonBlocking = false →
    t.device ≠ device → ∀ n l, s.state? (.null t.device) = some n → n.lastEvent = some l →
      ∃ j, (t.lastEvent = some j ∨ j ∈ s.legacyEvents t device) ∧
        (l = j ∨ Before s.board.log l j)

variable {P : Platform} {s s' : Streams} {stream : Option ℕ} {device : ℕ}

/-- What a stream waits for is in the log. -/
theorem Wired.legacyEvents_lt (h : s.Wired) {t : StreamState} {j : ℕ}
    (hj : j ∈ s.legacyEvents t device) : ∃ c, s.board.log[j]? = some c := by
  rcases mem_legacyEvents.mp hj with ⟨-, id, u, hu, -, -, hlast⟩ | ⟨-, -, n, hn, hlast⟩
  · obtain ⟨⟨c, hc, -⟩, -⟩ := (h.last _ u hu j).mp hlast
    exact ⟨c, hc⟩
  · obtain ⟨⟨c, hc, -⟩, -⟩ := (h.last _ n hn j).mp hlast
    exact ⟨c, hc⟩

/-- A command comes after what it collected and after the last command of its queue. -/
theorem Wired.covers_iff (h : s.Wired) {t : StreamState}
    (ht : s.state? (keyOf stream device) = some t) (body : Queues.Body ℕ Work) {l : ℕ} :
    Covers s.board.log ⟨t.queue, s.collectWaitEvents stream device, body⟩ l ↔
      ∃ j, (t.lastEvent = some j ∨ j ∈ s.legacyEvents t device) ∧
        (l = j ∨ Before s.board.log l j) := by
  constructor
  · rintro ⟨k, ⟨c, hc, hk⟩, hl⟩
    rcases hk with hq | hk
    · obtain ⟨j, hj⟩ := Queues.exists_isLast hc
      rw [hq] at hj
      refine ⟨j, .inl ((h.last _ t ht j).mpr hj), ?_⟩
      rcases hj.eq_or_before hc hq with rfl | hkj
      · exact hl
      · rcases hl with rfl | hl
        · exact .inr hkj
        · exact .inr (hl.trans hkj)
    · exact ⟨k, (mem_collectWaitEvents ht).mp hk, hl⟩
  · rintro ⟨j, hj, hl⟩
    have hlog : ∃ c, s.board.log[j]? = some c := by
      rcases hj with hj | hj
      · obtain ⟨⟨c, hc, -⟩, -⟩ := (h.last _ t ht j).mp hj
        exact ⟨c, hc⟩
      · exact h.legacyEvents_lt hj
    obtain ⟨c, hc⟩ := hlog
    exact ⟨j, ⟨c, hc, .inr ((mem_collectWaitEvents ht).mpr hj)⟩, hl⟩

/-! ## One enqueue -/

theorem LegacyQueues.mono (hstate : ∀ k t, s.state? k = some t → ∃ t', s'.state? k = some t' ∧
    t'.queue = t.queue ∧ t'.device = t.device ∧ t'.isNull = t.isNull ∧
    t'.nonBlocking = t.nonBlocking) {q q' : Queue} (h : s.LegacyQueues q q') :
    s'.LegacyQueues q q' := by
  obtain ⟨k, k', t, u, ht, hu, rfl, rfl, hl⟩ := h
  obtain ⟨t', ht', htq, htd, htn, htb⟩ := hstate k t ht
  obtain ⟨u', hu', huq, hud, hun, hub⟩ := hstate k' u hu
  refine ⟨k, k', t', u', ht', hu', htq, huq, hl.imp (fun h => ?_) fun h => ?_⟩
  · exact ⟨htd.trans (h.device.trans hud.symm), htn.trans h.null, hun.trans h.user,
      hub.trans h.blocking⟩
  · exact ⟨hud.trans (h.device.trans htd.symm), hun.trans h.null, htn.trans h.user,
      htb.trans h.blocking⟩

/-- A command changes nothing of a stream but its last event. -/
theorem Issues.state_iff {t : StreamState} {body : Queues.Body ℕ Work}
    (hi : Issues s s' stream device t body) (q q' : Queue) :
    s'.LegacyQueues q q' ↔ s.LegacyQueues q q' := by
  constructor
  · refine LegacyQueues.mono fun k u hu => ?_
    rw [hi.state] at hu
    rcases update_eq_some hu with ⟨rfl, rfl⟩ | ⟨-, hu⟩
    · exact ⟨t, hi.old, rfl, rfl, rfl, rfl⟩
    · exact ⟨u, hu, rfl, rfl, rfl, rfl⟩
  · refine LegacyQueues.mono fun k u hu => ?_
    rw [hi.state]
    by_cases hk : k = keyOf stream device
    · subst hk
      rw [hi.old] at hu
      cases hu
      exact ⟨_, Function.update_self _ _ _, rfl, rfl, rfl, rfl⟩
    · exact ⟨u, by rw [Function.update_of_ne hk, hu], rfl, rfl, rfl, rfl⟩

/-- A stream without commands adds nothing to be ordered. -/
theorem Wired.ordered_joins (h : s.Wired) {k : StreamKey} {t : StreamState}
    (hj : Joins s s' k t) : s'.LegacyOrdered ↔ s.LegacyOrdered := by
  have hold : ∀ k' u, s.state? k' = some u → s'.state? k' = some u := by
    intro k' u hu
    rw [hj.state, Function.update_of_ne, hu]
    rintro rfl
    rcases hj.new with hk | rfl
    · rw [hk] at hu
      cases hu
    · exact lt_irrefl _ (h.user _ u hu).1
  have hback : ∀ (i : ℕ) (c : Command), s.board.log[i]? = some c → ∀ k' u, s'.state? k' = some u →
      u.queue = c.queue → s.state? k' = some u := by
    intro i c hc k' u hu hq
    rw [hj.state] at hu
    rcases update_eq_some hu with ⟨-, rfl⟩ | ⟨-, hu⟩
    · -- the queue of a command is older than the new one
      obtain ⟨k₁, u₁, hu₁, hq₁⟩ := h.owner i c hc
      have := h.fresh k₁ u₁ hu₁
      rw [hq₁, ← hq, hj.queue] at this
      exact absurd this (lt_irrefl _)
    · exact hu
  unfold LegacyOrdered
  rw [hj.board]
  constructor
  · rintro ho i j a b hij ha hb ⟨k₁, k₂, t₁, t₂, h₁, h₂, hq₁, hq₂, hl⟩
    exact ho i j a b hij ha hb ⟨k₁, k₂, t₁, t₂, hold _ _ h₁, hold _ _ h₂, hq₁, hq₂, hl⟩
  · rintro ho i j a b hij ha hb ⟨k₁, k₂, t₁, t₂, h₁, h₂, hq₁, hq₂, hl⟩
    exact ho i j a b hij ha hb
      ⟨k₁, k₂, t₁, t₂, hback i a ha _ _ h₁ hq₁, hback j b hb _ _ h₂ hq₂, hq₁, hq₂, hl⟩

/-- A command keeps the order if and only if it minds the device of its stream. -/
theorem Wired.ordered_issues (h : s.Wired) {t : StreamState} {body : Queues.Body ℕ Work}
    (hi : Issues s s' stream device t body) :
    s'.LegacyOrdered ↔ s.LegacyOrdered ∧ s.MindsDevice stream device := by
  have hrel : s'.LegacyQueues = s.LegacyQueues := by
    funext q q'
    exact propext (hi.state_iff q q')
  unfold LegacyOrdered
  rw [hrel, hi.board, Queues.Board.issue_log, Queues.ordered_append]
  refine and_congr_right fun _ => ?_
  simp only [h.covers_iff hi.old]
  constructor
  · intro hnew id t' hid ht' hb hd n l hn hl
    subst hid
    rw [show s.state? (.user id) = some t from hi.old] at ht'
    cases ht'
    have hlegacy : Legacy n t :=
      ⟨(h.null _ n hn).1, (h.null _ n hn).2, (h.user id t hi.old).2, hb⟩
    exact hnew n.queue l ⟨_, _, n, t, hn, hi.old, rfl, rfl, .inl hlegacy⟩
      ((h.last _ n hn l).mp hl)
  · rintro hm q l ⟨k, k', u, t', hu, ht', rfl, hq, hl⟩ hlast
    obtain rfl := h.unique _ _ _ _ ht' hi.old hq
    rw [hi.old] at ht'
    cases ht'
    have hlast := (h.last k u hu l).mpr hlast
    rcases hl with hl | hl
    · -- the command is on a blocking stream, the other on the null stream of its device
      cases k with
      | user id =>
        have := (h.user id u hu).2
        rw [hl.null] at this
        cases this
      | null d =>
        obtain rfl : d = t.device := (h.null d u hu).1.symm.trans hl.device
        by_cases hd : t.device = device
        · refine ⟨l, .inr (mem_legacyEvents.mpr (.inr ⟨hl.user, hl.blocking, u, ?_, hlast⟩)),
            .inl rfl⟩
          rw [← hd]
          exact hu
        · cases hs : stream with
          | none =>
            have hold := hi.old
            rw [hs] at hold
            exact absurd (h.null _ t hold).1 hd
          | some id =>
            have hold := hi.old
            rw [hs] at hold
            exact hm id t hs hold hl.blocking hd u l hu hlast
    · -- the command is on a null stream, the other on a blocking stream of its device
      have hkey : keyOf stream device = .null device := by
        cases hs : stream with
        | none => rfl
        | some id =>
          have hold := hi.old
          rw [hs] at hold
          have := (h.user id t hold).2
          rw [hl.null] at this
          cases this
      have hold := hi.old
      rw [hkey] at hold
      cases k with
      | null d =>
        have := (h.null d u hu).2
        rw [hl.user] at this
        cases this
      | user id =>
        refine ⟨l, .inr (mem_legacyEvents.mpr (.inl ⟨hl.null, id, u, hu, ?_, hl.blocking, hlast⟩)),
          .inl rfl⟩
        exact hl.device.symm.trans (h.null _ t hold).1

theorem mindsDevice_none : s.MindsDevice none device := by
  intro id t hid
  cases hid

theorem Wired.ordered_submit (h : s.Wired) (P : Platform) (a : Ask) (hq : Quiet a.note) :
    (a.submit P s).1.LegacyOrdered ↔
      s.LegacyOrdered ∧ (a.replies.enqueue = none → s.MindsDevice a.stream a.device) := by
  have hw := h.resolve P a.stream a.device a.replies
  have hopen : (resolveStream P s a.stream a.device a.replies).1.LegacyOrdered ↔
      s.LegacyOrdered := by
    rcases resolve_cases P s a.stream a.device a.replies with heq | ⟨-, t, -, hj⟩
    · rw [heq]
    · exact h.ordered_joins hj
  have hminds : (resolveStream P s a.stream a.device a.replies).1.MindsDevice a.stream a.device ↔
      s.MindsDevice a.stream a.device := by
    rcases resolve_cases P s a.stream a.device a.replies with heq | ⟨hnone, -⟩
    · rw [heq]
    · -- only a null stream is made, and it is resolved with its own device
      rw [hnone]
      exact ⟨fun _ => mindsDevice_none, fun _ => mindsDevice_none⟩
  unfold Ask.submit
  rcases submit_cases P s a.stream a.device a.body a.replies a.note with
    ⟨e, heq, hfail⟩ | ⟨t, ht, henq, heq⟩ <;> rw [heq]
  · rw [hopen]
    refine ⟨fun ho => ⟨ho, fun henq => hminds.mp fun id t hid ht => ?_⟩, And.left⟩
    have hlook := hfail henq
    have hkey : keyOf a.stream a.device = .user id := by rw [hid, keyOf]
    rw [lookup_eq, hkey, ht] at hlook
    cases hlook
  · rw [hw.ordered_issues (issues_issued ht a.body hq), hopen, hminds]
    exact and_congr_right fun _ => ⟨fun hm _ => hm, fun hm => hm henq⟩

end Streams

namespace Context

variable {P : Platform} {x : Context}

/-- If the move is a call that has a command taken, the call minds the device of its stream. -/
def MindsDevice (P : Platform) (x : Context) (m : Move) : Prop :=
  ∀ c a, m = .call c → x.asks P c = some a → a.replies.enqueue = none →
    x.streams.MindsDevice a.stream a.device

/-- A move keeps the order if and only if it minds the device. -/
theorem legacy_step (h : x.streams.Wired) (m : Move) :
    (x.step P m).streams.LegacyOrdered ↔ x.streams.LegacyOrdered ∧ x.MindsDevice P m := by
  have hasks : ∀ {c : ApiCall}, x.asks P c = none → x.MindsDevice P (.call c) := by
    rintro c hnone _ a ⟨⟩ ha
    rw [hnone] at ha
    cases ha
  cases m with
  | complete i =>
    have hlog : (x.step P (.complete i)).streams.board.log = x.streams.board.log :=
      Queues.Board.complete_log
    unfold Streams.LegacyOrdered
    rw [hlog]
    refine ⟨fun ho => ⟨ho, ?_⟩, And.left⟩
    rintro c a ⟨⟩
  | call c =>
    rcases call_cases P x c with ⟨hnone, hs⟩ | ⟨t, hnone, hj⟩ | ⟨hnone, hev⟩ | ⟨a, ha, hq, hs⟩
    · rw [step, hs]
      exact ⟨fun ho => ⟨ho, hasks hnone⟩, And.left⟩
    · rw [step, h.ordered_joins hj]
      exact ⟨fun ho => ⟨ho, hasks hnone⟩, And.left⟩
    · have heq : (x.call P c).1.streams.LegacyOrdered ↔ x.streams.LegacyOrdered := by
        unfold Streams.LegacyOrdered Streams.LegacyQueues
        rw [hev.board, hev.state]
      rw [step, heq]
      exact ⟨fun ho => ⟨ho, hasks hnone⟩, And.left⟩
    · rw [step, hs, h.ordered_submit P a hq]
      refine and_congr_right fun _ => ⟨?_, fun hm => hm c a rfl ha⟩
      rintro hm _ a' ⟨⟩ ha'
      rw [ha] at ha'
      cases ha'
      exact hm

end Context

/-- Work on the null stream of a device and on its blocking streams is ordered as it was issued, by
queue order and wait lists, in exactly the runs whose every command minds the device of its stream. -/
theorem legacy_order (P : Platform) (ms : List Move) :
    (Runs.after (Context.step P) {} ms).streams.LegacyOrdered ↔
      Runs.Along (Context.step P) (Context.MindsDevice P) {} ms := by
  have hrun : ∀ (ms : List Move) (x : Context), x.streams.Wired →
      ((Runs.after (Context.step P) x ms).streams.LegacyOrdered ↔
        x.streams.LegacyOrdered ∧ Runs.Along (Context.step P) (Context.MindsDevice P) x ms) := by
    intro ms
    induction ms with
    | nil => exact fun x _ => ⟨fun ho => ⟨ho, trivial⟩, And.left⟩
    | cons m ms ih =>
      intro x hx
      rw [Runs.after_cons, ih _ (Context.wired_step hx m), Context.legacy_step hx,
        Runs.along_cons, and_assoc]
  rw [hrun ms {} Streams.Wired.empty]
  exact ⟨And.right, fun h => ⟨Queues.ordered_nil, h⟩⟩

/-- Two records on the null stream of device 0, and then, while device 1 is current, a wait for the
first of them on a blocking stream of device 0. -/
def waitFromOtherDevice : List Move :=
  [.call (.streamCreate true 0 {}), .call (.eventCreate true {}), .call (.eventCreate true {}),
    .call (.eventRecord 2 none {}), .call (.eventRecord 3 none {}), .call (.setDevice 1 none),
    .call (.streamWaitEvent (some 1) 2 {})]

/-- Nothing orders the wait after the second record. -/
theorem legacy_order_other_device :
    ¬(Runs.after (Context.step plain) {} waitFromOtherDevice).streams.LegacyOrdered := by
  have hlog : (Runs.after (Context.step plain) {} waitFromOtherDevice).streams.board.log =
      [⟨⟨0, 4⟩, [], .signal 2 1⟩, ⟨⟨0, 4⟩, [0], .signal 3 1⟩, ⟨⟨0, 1⟩, [], .wait 2 1⟩] := by
    decide +kernel
  have hnull : (Runs.after (Context.step plain) {} waitFromOtherDevice).streams.state? (.null 0) =
      some { queue := ⟨0, 4⟩, device := 0, isNull := true, lastEvent := some 1 } := by
    decide +kernel
  have huser : (Runs.after (Context.step plain) {} waitFromOtherDevice).streams.state? (.user 1) =
      some { queue := ⟨0, 1⟩, device := 0, lastEvent := some 2 } := by
    decide +kernel
  intro ho
  have hb := ho 1 2 ⟨⟨0, 4⟩, [0], .signal 3 1⟩ ⟨⟨0, 1⟩, [], .wait 2 1⟩ (by decide)
    (by rw [hlog]; rfl) (by rw [hlog]; rfl)
    ⟨_, _, _, _, hnull, huser, rfl, rfl, .inl ⟨rfl, rfl, rfl, by decide⟩⟩
  rw [hlog] at hb
  obtain ⟨c, hc, hf⟩ := Queues.before_succ.mp hb
  cases hc
  exact absurd hf (by decide)

end Grxcp.Runtime
