import Grxcp.Transport.Calls

/-!
# Teardown

The teardown's write reaches the module a crossing later, and every read of PTQ_STATUS after it says
whether the queue has stopped. Once it has, or the module has been reset after a patience longer than any
line can be in flight, nothing of the module's is left in flight, and the host ends what is pending and
starts the queue again (`teardown_spec`, `resume_spec`).
-/

namespace Grxcp.BoardTransport

open Agenda Runs Sim

variable {s s' : Sim} {a : Activity} {off : Reg} {ws : List (Reg × ℕ)}

/-! ## A read inside the teardown -/

/-- A register has been asked for, and nothing else. -/
structure Asking (s s' : Sim) (a : Activity) (off : Reg) : Prop where
  queue : Queue s'
  book : Book s'.host
  doing : s'.Doing a
  due : ∀ e ∈ s'.q, e.fn.write?.isSome = true → e.prio = 1 ∧ e.due ≤ s'.t + L
  boxes : ∀ b, s'.boxCt ≤ b → s'.boxes b = none
  asked : s'.countOf Event.isAnswer ≤ 1
  reset : ¬s'.Has .reset
  clean : s'.Clean
  reads : ∀ r b, s'.Has (.read r b) → r = off ∧ b = s.boxCt
  appends : ∀ b v, ¬s'.Has (.append b v)
  order : ∀ e ∈ s'.q, ∀ e' ∈ s'.q, e.fn.write?.isSome = true → (∃ r b, e'.fn = .read r b) → ¬e'.Before e
  writes : s'.writes = s.writes
  lt : s.boxCt < s'.boxCt
  fresh : s'.boxes s.boxCt = none
  entry : ∀ e ∈ s'.q, (∀ r b, e.fn ≠ .read r b) → e ∈ s.q

theorem Resting.ask (h : Resting s a) (off : Reg) (phase : ℕ → Phase) : Asking s (s.ask off phase) a off := by
  set s₁ : Sim := { s with boxCt := s.boxCt + 1, host := { s.host with phase := phase s.boxCt } } with hs₁
  have hask : s.ask off phase = s₁.after L 1 (.read off s.boxCt) := rfl
  have hq₁ : Queue s₁ := h.queue.move rfl rfl rfl rfl rfl (fun _ _ => ⟨rfl, rfl⟩) le_rfl (fun _ _ => rfl) rfl le_rfl rfl
  have hd₁ : s₁.Doing a := by
    have hsame : SameData s s₁ := .beside rfl rfl rfl rfl rfl rfl rfl rfl rfl rfl
    exact hsame.doing h.doing
  rw [hask]
  constructor
  case queue => exact hq₁.after (by decide) Bool.noConfusion (fun _ _ he => Event.noConfusion he) rfl trivial
  case book => exact h.book.notes rfl rfl rfl rfl rfl rfl rfl h.book.seeds
  case doing => exact (SameData.push s₁ rfl).doing hd₁
  case due =>
    intro e he hw
    rcases mem_push.mp he with rfl | he
    · exact absurd hw Bool.false_ne_true
    · exact h.due e he hw
  case boxes => exact fun b hb => h.boxes b (Nat.le_of_succ_le hb)
  case asked =>
    rw [countOf_after]
    exact (Nat.add_le_add_right (countOf_isAnswer_of_noAnswers h.answers).le _)
  case reset => exact fun hx => h.reset ((has_after.mp hx).resolve_left Event.noConfusion)
  case clean => exact h.clean
  case reads =>
    intro r b hx
    rcases has_after.mp hx with hx | hx
    · obtain ⟨rfl, rfl⟩ := Event.read.inj hx
      exact ⟨rfl, rfl⟩
    · exact absurd hx (h.answers.1 r b)
  case appends => exact fun b v hx => h.answers.2 b v ((has_after.mp hx).resolve_left Event.noConfusion)
  case order =>
    intro e he e' he' hw hr
    rcases mem_push.mp he with rfl | he
    · exact absurd hw Bool.false_ne_true
    rcases mem_push.mp he' with rfl | he'
    · -- the writes in flight are due no later, and were sent before
      obtain ⟨hp, hd⟩ := h.due e he hw
      exact (before_of_later hd hp (Nat.lt_succ_of_le (h.queue.num e he))).2
    · obtain ⟨r, b, hr⟩ := hr
      exact absurd ⟨e', he', hr⟩ (h.answers.1 r b)
  case writes => exact writes_after rfl
  case lt => exact Nat.lt_succ_self _
  case fresh => exact h.boxes _ le_rfl
  case entry =>
    intro e he hne
    rcases mem_push.mp he with rfl | he
    · exact absurd rfl (hne off s.boxCt)
    · exact he

/-- The state of a teardown that asks for PTQ_STATUS. -/
theorem Asking.status (h : Asking s s' a .status) {t0 : ℕ} (hp : s'.host.phase = .status t0 s.boxCt)
    (hlines : ∀ e ∈ s.q, e.fn.isLine = true → e.due ≤ t0 + (3 * L + JITTER))
    (hstate : (a ≠ .torn ∧ a ≠ .dead ∧ (∀ e ∈ s'.q, e.fn.write?.isSome = true → e.due ≤ t0 + L) ∧
        ∃ ws v, s'.writes = ws ++ [(.ctrl, v)] ∧ v % 2 = 0 ∧ (a = .wedged ∨ Leads s' ws)) ∨
      (s'.writes = [] ∧ (a = .torn ∧ s'.module.seed = s'.host.seed ∧ s'.module.tail ≤ s'.host.next ∨ a = .wedged))) :
    s'.Safe a := by
  refine ⟨h.queue, h.book, h.doing, ⟨h.due, h.boxes, h.asked, ?_⟩, h.clean⟩
  rw [hp]
  refine ⟨h.lt, h.reset, fun e he hl => hlines e (h.entry e he fun r b hr => ?_) hl, h.reads, h.order,
    fun b v hx => absurd hx (h.appends b v), fun v hv => absurd (hv.symm.trans h.fresh) (Option.some_ne_none v), hstate⟩
  rw [hr] at hl
  exact Bool.noConfusion hl

/-! ## The queue is torn down -/

theorem teardown_spec (h : s.Safe a) (hp : s.host.phase = .script) : s.teardown.Safe a := by
  obtain ⟨hr, ht, hd, hlead⟩ := h.script hp
  have hset : Resting (s.setHost { s.host with teardowns := s.host.teardowns + 1 }) a :=
    hr.setHost (h.book.notes rfl rfl rfl rfl rfl rfl rfl h.book.seeds) rfl rfl rfl
  set s₁ := s.setHost { s.host with teardowns := s.host.teardowns + 1 } with hs₁
  obtain ⟨hr₂, hws₂, ctrl, hhost₂⟩ := hset.hostWrite .ctrl (s₁.host.ctrl / 2 * 2)
  have hmod : (s₁.hostWrite .ctrl (s₁.host.ctrl / 2 * 2)).module = s.module := hostWrite_module _ _ _
  have htime : (s₁.hostWrite .ctrl (s₁.host.ctrl / 2 * 2)).t = s.t := hostWrite_t _ _ _
  have hall : s.teardown = (s₁.hostWrite .ctrl (s₁.host.ctrl / 2 * 2)).ask .status
      (.status (s₁.hostWrite .ctrl (s₁.host.ctrl / 2 * 2)).t) := rfl
  rw [hall]
  generalize s₁.hostWrite .ctrl (s₁.host.ctrl / 2 * 2) = s₂ at hr₂ hws₂ hhost₂ hmod htime
  have hask := hr₂.ask .status (.status s₂.t)
  refine hask.status rfl (fun e he hl => ?_) (.inl ⟨ht, hd, fun e he hw => (hask.due e he hw).2, s.writes, _,
    hask.writes.trans hws₂, Nat.mul_mod_left _ _, hlead.imp_right fun hl => ?_⟩)
  · have hsoon := hr₂.queue.soon e he hl
    have hsum : 3 * L + JITTER = L + (2 * L + JITTER) := by decide
    omega
  · obtain ⟨hhead, hnext, hcmds, hseed⟩ : s₂.host.hhead = s.host.hhead ∧ s₂.host.next = s.host.next ∧
        s₂.host.cmds = s.host.cmds ∧ s₂.host.seed = s.host.seed := by
      rw [hhost₂]
      exact ⟨rfl, rfl, rfl, rfl⟩
    exact hl.notes hmod hhead hnext hcmds hseed

/-! ## The queue is started again -/

/-- The writes leave the queue off, on the host's ring and under its seed. -/
def Primed (s : Sim) (ws : List (Reg × ℕ)) : Prop :=
  ∃ σ : Track, σ.Starts s ∧ Along Track.apply (Track.Ok s.host) σ ws ∧ (Runs.after Track.apply σ ws).enable = false ∧
    (Runs.after Track.apply σ ws).base = RING ∧ (Runs.after Track.apply σ ws).size = RING_LOG2 ∧
    (Runs.after Track.apply σ ws).seed = s.host.seed ∧ (Runs.after Track.apply σ ws).tail ≤ s.host.next

/-- With nothing pending, the tail is written where the ring starts, and the queue enabled there. -/
theorem Resting.restart (h : Resting s .off) (hp : Primed s s.writes) (hidle : s.host.hhead = s.host.next) :
    Resting s.restartQueue .off ∧ Leads s.restartQueue s.restartQueue.writes ∧
      s.restartQueue.host.phase = s.host.phase := by
  obtain ⟨hr₁, hws₁, c₁, hh₁⟩ := h.hostWrite .tail s.host.next
  have hm₁ : (s.hostWrite .tail s.host.next).module = s.module := hostWrite_module _ _ _
  have hall : s.restartQueue =
      ((s.hostWrite .tail s.host.next).hostWrite .ctrl ((s.hostWrite .tail s.host.next).host.ctrl / 2 * 2 + 1)).setHost
        { ((s.hostWrite .tail s.host.next).hostWrite .ctrl
            ((s.hostWrite .tail s.host.next).host.ctrl / 2 * 2 + 1)).host with
          origin := ((s.hostWrite .tail s.host.next).hostWrite .ctrl
            ((s.hostWrite .tail s.host.next).host.ctrl / 2 * 2 + 1)).host.next } := rfl
  rw [hall]
  generalize s.hostWrite .tail s.host.next = s₁ at hr₁ hws₁ hh₁ hm₁
  obtain ⟨hr₂, hws₂, c₂, hh₂⟩ := hr₁.hostWrite .ctrl (s₁.host.ctrl / 2 * 2 + 1)
  have hm₂ : (s₁.hostWrite .ctrl (s₁.host.ctrl / 2 * 2 + 1)).module = s₁.module := hostWrite_module _ _ _
  have hodd : (s₁.host.ctrl / 2 * 2 + 1) % 2 = 1 := by omega
  generalize s₁.host.ctrl / 2 * 2 + 1 = v at hodd hr₂ hws₂ hh₂ hm₂
  generalize s₁.hostWrite .ctrl v = s₂ at hr₂ hws₂ hh₂ hm₂
  rw [hh₁] at hh₂
  rw [hws₁, List.append_assoc] at hws₂
  have hr₃ : Resting (s₂.setHost { s₂.host with origin := s₂.host.next }) .off :=
    hr₂.setHost (hr₂.book.notes rfl rfl rfl rfl rfl rfl rfl hr₂.book.seeds) rfl rfl rfl
  obtain ⟨hhead, hnext, hcmds, hseed', hphase⟩ : s₂.host.hhead = s.host.hhead ∧ s₂.host.next = s.host.next ∧
      s₂.host.cmds = s.host.cmds ∧ s₂.host.seed = s.host.seed ∧ s₂.host.phase = s.host.phase := by
    rw [hh₂]
    exact ⟨rfl, rfl, rfl, rfl, rfl⟩
  refine ⟨hr₃, ?_, hphase⟩
  change Leads _ s₂.writes
  rw [hws₂]
  -- the books have nothing pending, so the tail may be anywhere
  have hnone : ∀ idx c, s.host.hhead ≤ idx → s.host.cmds idx ≠ some c := fun idx c hge hc =>
    absurd (h.book.wf idx c hc).2.2 (hidle ▸ hge).not_gt
  suffices hlead : Leads s (s.writes ++ ([(.tail, s.host.next)] ++ [(.ctrl, v)])) from
    hlead.notes (hm₂.trans hm₁) hhead hnext hcmds hseed'
  obtain ⟨σ, hs, halong, hoff, hbase, hsize, hseed, htail⟩ := hp
  refine ⟨σ, hs, (along_append σ _ _).mpr ⟨halong, ⟨htail, le_rfl, fun idx c hge _ hc => absurd hc (hnone idx c hge)⟩,
    ⟨hodd, fun _ => ⟨?_, hbase, hsize, hidle.symm⟩⟩, trivial⟩, ?_, ?_, ?_⟩
  · change (!(Runs.after Track.apply σ s.writes).enable) = true
    rw [hoff]
    rfl
  all_goals rw [after_append]
  · exact decide_eq_true hodd
  · exact hseed
  · exact le_rfl

/-- All that was pending is ended: a queue that is off has nothing to do. -/
theorem Resting.rested (h : Resting s a) (hs : Shorter s s') (hoff : s.module.enable = false)
    (hen : s.module.enabled = false)
    (hdr : s.module.draining = false) (hw : s.module.wedged = false) (hbusy : s.module.busy = false) (hr : s.NoReads)
    (hsh : s.NoShots) (hl : s.NoLines) (hidle : s'.host.hhead = s'.host.next) : Resting s' .off := by
  obtain ⟨⟨mem, f, h', rfl⟩, hends, hbook, -, hfired⟩ := hs
  refine ⟨?_, hbook, ⟨hoff, hen, hdr, hw, hbusy, hr, hsh, hl, fun idx c hge hc => ?_⟩, h.due, h.boxes, h.answers,
    h.reset, fun c hc => ?_⟩
  · exact h.queue.move rfl rfl rfl rfl rfl (fun _ _ => ⟨rfl, rfl⟩) le_rfl (fun _ _ => rfl) rfl le_rfl rfl
  · exact absurd (hbook.wf idx c hc).2.2 (hidle ▸ hge).not_gt
  · rcases hfired c hc with hc | rfl | rfl
    · exact h.clean c hc
    · exact .inl rfl
    · exact .inr (.inl rfl)

/-- The script goes on after a teardown. -/
theorem Resting.free (h : Resting s .off) (hl : Leads s s.writes) :
    (s.setHost { s.host with phase := .script }).Safe .off := by
  have hset : Resting (s.setHost { s.host with phase := .script }) .off :=
    h.setHost (h.book.notes rfl rfl rfl rfl rfl rfl rfl h.book.seeds) rfl rfl rfl
  exact hset.safe rfl Activity.noConfusion Activity.noConfusion (.inr (hl.notes rfl rfl rfl rfl rfl))

/-- The ring's place and the seed, written to a module at power-on. -/
theorem PowerOn.primed {m : Module} (hm : PowerOn m) (hs : s.module = m) (seed : ℕ) (hseed : s.host.seed = seed) :
    Primed s [(.baseLo, RING), (.baseHi, 0), (.size, RING_LOG2), (.seed, seed)] := by
  subst hs hseed
  refine ⟨⟨false, 0, 0, 0, 0, false⟩, ⟨hm.enable.symm, hm.base.symm, hm.size.symm, hm.seed.symm, hm.tail.le,
    Bool.noConfusion,
    fun idx c _ hlt => ?_⟩, ⟨trivial, trivial, trivial, fun idx c _ hlt => absurd hlt (Nat.not_lt_zero idx),
      trivial⟩, rfl, ?_, rfl, rfl,
    Nat.zero_le _⟩
  · rw [hm.tail] at hlt
    exact absurd hlt (Nat.not_lt_zero idx)
  · change ((0 / 2 ^ 32 * 2 ^ 32 ||| RING) % 2 ^ 32 ||| 0 * 2 ^ 32) = RING
    decide

/-- The ring's place is written. -/
theorem Resting.placeRing (h : Resting s a) :
    Resting s.placeRing a ∧ s.placeRing.writes = s.writes ++ [(.baseLo, RING), (.baseHi, 0), (.size, RING_LOG2)] := by
  obtain ⟨h₁, hw₁⟩ := h.mmioWrite .baseLo RING
  obtain ⟨h₂, hw₂⟩ := h₁.mmioWrite .baseHi 0
  obtain ⟨h₃, hw₃⟩ := h₂.mmioWrite .size RING_LOG2
  refine ⟨h₃, ?_⟩
  change (((s.mmioWrite .baseLo RING).mmioWrite .baseHi 0).mmioWrite .size RING_LOG2).writes = _
  rw [hw₃, hw₂, hw₁, List.append_assoc, List.append_assoc]
  rfl

/-! ## The rest of a teardown -/

/-- The queue that was torn down, once nothing of its own is in flight, or its module reset. -/
theorem Sim.Doing.kept (hd : s.Doing a) (hb : Book s.host) (ha : a = .torn ∨ a = .wedged) :
    ∀ idx c, s.host.hhead ≤ idx → s.host.cmds idx = some c → Kept s.mem idx c := by
  intro idx c hge hc
  have hwf := (hb.wf idx c hc).1
  rcases ha with rfl | rfl
  · obtain ⟨-, -, -, -, -, -, -, -, -, -, -, hbef, hk⟩ := hd
    rcases Nat.lt_or_ge idx s.module.head with hlt | hge'
    · exact (hbef idx c hge hlt hc).kept hwf
    · exact hk idx c hge hge' hc
  · obtain ⟨-, hf, -, -, -, -, -, hm⟩ := hd
    rcases Nat.lt_trichotomy idx s.module.head with hlt | rfl | hgt
    · exact (hf.before idx c hge hlt hc).kept hwf
    · exact (hm c hc).kept hwf
    · exact (hf.later idx c hgt hc).kept hwf

/-- The patience is out: no line can be in flight any more, and the module is to be reset. -/
theorem reset_asked (h : s.Safe a) {t0 box : ℕ} (hp : s.host.phase = .status t0 box) (hlate : T_QUIESCE < s.t - t0)
    (hws : s.writes = []) (hans : s.NoAnswers) :
    ((s.after L 1 .reset).setHost { s.host with phase := .resetting (s.t + 2 * L) }).Safe .dead := by
  have hphase := h.wires.phase
  rw [hp] at hphase
  obtain ⟨hbox, hreset, hlines, hreads, horder, happ, hanswer, hstate⟩ := hphase
  have hst := (hstate.resolve_left fun ⟨_, _, _, ws, w, hws', _⟩ =>
    List.append_ne_nil_of_right_ne_nil ws (List.cons_ne_nil _ _) (hws'.symm.trans hws)).2
  have ha : a = .torn ∨ a = .wedged := hst.imp_left And.left
  -- a line in flight would have been due long before
  have hquiet : ∀ e ∈ s.q, e.fn.isLine = false := by
    intro e he
    refine Bool.eq_false_iff.mpr fun hl => ?_
    have hsoon := hlines e he hl
    have hdue := h.queue.due e he
    change 60 < s.t - t0 at hlate
    change e.due ≤ t0 + 18 at hsoon
    omega
  have hnone : ∀ {fn : Event}, fn.isLine = true → ¬s.Has fn := by
    rintro fn hl ⟨e, he, rfl⟩
    exact absurd ((hquiet e he).symm.trans hl) Bool.noConfusion
  have hkept := h.doing.kept h.book ha
  have hdead : s.Doing .dead := by
    refine ⟨?_, ?_, fun r m hx => hnone rfl hx, ⟨fun gen x hx => hnone rfl hx, fun x d hx => hnone rfl hx⟩, hkept⟩
    · rcases ha with rfl | rfl
      · exact .inl h.doing.1
      · exact .inr ⟨h.doing.2.2.1, h.doing.1, h.doing.2.1⟩
    · rcases ha with rfl | rfl
      · exact h.doing.2.2.2.2.2.2.2.1
      · exact h.doing.2.2.2.1
  have hb := h.book
  have hbook : Book { s.host with phase := .resetting (s.t + 2 * L) } :=
    hb.notes rfl rfl rfl rfl rfl rfl rfl hb.seeds
  have hr : Resting s .dead := ⟨h.queue, hb, hdead, h.wires.due, h.wires.boxes, hans, hreset, h.clean⟩
  have hr' := hr.setHost hbook rfl rfl rfl
  refine ⟨?_, hbook, (SameData.push _ rfl).doing hr'.doing, ⟨fun e he hw => ?_, hr.boxes, ?_, ?_⟩, h.clean⟩
  · exact hr'.queue.after (by decide) Bool.noConfusion (fun _ _ he => Event.noConfusion he) rfl trivial
  · rcases mem_push.mp he with rfl | he
    · exact absurd hw Bool.false_ne_true
    · exact hr.due e he hw
  · refine (countOf_after (s := s) _).trans_le ?_
    rw [countOf_isAnswer_of_noAnswers hans]
    decide
  · refine ⟨rfl, ⟨fun r b hx => ?_, fun b v hx => ?_⟩, (writes_after (s := s) rfl).trans hws, fun e he hr => ?_,
      .inl (has_after.mpr (.inl rfl))⟩
    · exact hans.1 r b ((has_after.mp hx).resolve_left Event.noConfusion)
    · exact hans.2 b v ((has_after.mp hx).resolve_left Event.noConfusion)
    · rcases mem_push.mp he with rfl | he
      · exact (Nat.add_assoc s.t L L).trans_le (by rw [Nat.two_mul])
      · exact absurd ⟨e, he, hr⟩ hreset

/-- The module has stopped: what it has recorded is ended, the rest is lost, and the queue starts again. -/
theorem head_spec (h : s.Safe a) {box : ℕ} (hp : s.host.phase = .head box) {head : ℕ} (hbox : s.boxes box = some head) :
    ∃ a, (((endBehind (head - s.host.hhead) s).endLost.restartQueue).setHost
      { ((endBehind (head - s.host.hhead) s).endLost.restartQueue).host with phase := .script }).Safe a := by
  have hphase := h.wires.phase
  rw [hp] at hphase
  obtain ⟨rfl, hoff, hseed, htail, hreset, hws, -, -, -, hanswer⟩ := hphase
  obtain ⟨rfl, hans⟩ := hanswer _ hbox
  have hr := h.resting hans hreset
  have hkept := h.doing.kept h.book (.inl rfl)
  obtain ⟨he, hen, hw, hbusy, hbase, hsize, hdr, hreads, hshots, -, -, hbef, -⟩ := h.doing
  have hdrain : s.module.draining = false := hen.symm.trans hoff
  have hlines : s.NoLines := h.queue.noLines (h.queue.inflight.symm.trans (hdr hdrain))
  -- first what has its record, then the rest, whose slots are as the host wrote them or lost
  obtain ⟨hshort₁, hmem₁⟩ := endBehind_eq (max s.module.head s.host.hhead) (s.module.head - s.host.hhead) h.book
    (by omega)
    fun idx c hge hlt hc => hbef idx c hge ((lt_max_iff.mp hlt).resolve_right hge.not_gt) hc
  obtain ⟨hshort₂, hidle⟩ := endLost_spec hshort₁.book fun idx c hge hc =>
    hmem₁ ▸ hkept idx c (hshort₁.le.trans hge) (hshort₁.ends.cmds ▸ hc)
  have hshort := hshort₁.trans hshort₂
  have hrest := hr.rested hshort he hoff hdrain hw hbusy hreads hshots hlines hidle
  generalize (endBehind (s.module.head - s.host.hhead) s).endLost = s₁ at hshort hidle hrest
  have hprimed : Primed s₁ s₁.writes := by
    obtain ⟨⟨mem, f, h', rfl⟩, hends, -, -, -⟩ := hshort
    change Primed _ s.writes
    rw [hws]
    refine ⟨⟨false, RING, RING_LOG2, s.host.seed, s.module.tail, false⟩,
      ⟨he.symm, hbase.symm, hsize.symm, hseed.symm, le_rfl, Bool.noConfusion, fun idx c hge _ hc => ?_⟩, trivial,
      rfl, rfl, rfl, hends.seed.symm, htail.trans_eq hends.next.symm⟩
    exact absurd (hrest.book.wf idx c hc).2.2 (hidle ▸ hge).not_gt
  obtain ⟨hrest', hlead, -⟩ := hrest.restart hprimed hidle
  exact ⟨_, hrest'.free hlead⟩

/-- The module has been reset: everything pending is lost, and the queue is set up again. -/
theorem wake_spec (h : s.Safe a) (hturn : s.turn = true) {wake : ℕ} (hp : s.host.phase = .resetting wake)
    (hlate : wake ≤ s.t) :
    let s₁ := (s.placeRing.setSeed s.host.seed).endLost
    let s₂ := (s₁.setHost { s₁.host with restart := true }).restartQueue
    ∃ a, (s₂.setHost { s₂.host with phase := .script }).Safe a := by
  intro s₁ s₂
  have hphase := h.wires.phase
  rw [hp] at hphase
  obtain ⟨rfl, hans, hws, hdue, hon⟩ := hphase
  -- the reset was due a crossing before
  have hreset : ¬s.Has .reset := by
    rintro ⟨e, he, hfn⟩
    have hle := hdue e he hfn
    have hlt := h.queue.due e he
    rw [hturn] at hlt
    change e.due + 4 ≤ wake at hle
    change s.t + 1 ≤ e.due at hlt
    omega
  have hon := hon.resolve_left hreset
  obtain ⟨-, hreads, hshots, hlines, hkept⟩ := h.doing
  obtain ⟨hr₁, hws₁⟩ := (h.resting hans hreset).placeRing
  rw [hws, List.nil_append] at hws₁
  obtain ⟨hr₂, hws₂⟩ := hr₁.mmioWrite .seed s.host.seed
  have hbook : Book { s.host with seed := s.host.seed, restart := true } :=
    hr₂.book.notes rfl rfl rfl rfl rfl rfl rfl hr₂.book.seeds
  have hr₃ : Resting (s.placeRing.setSeed s.host.seed) .dead := hr₂.setHost hbook rfl rfl rfl
  have hws₃ : (s.placeRing.setSeed s.host.seed).writes =
      [(.baseLo, RING), (.baseHi, 0), (.size, RING_LOG2), (.seed, s.host.seed)] := by
    refine Eq.trans (show _ = (s.placeRing.mmioWrite .seed s.host.seed).writes from rfl) ?_
    rw [hws₂, hws₁]
    rfl
  obtain ⟨hshort, hidle⟩ := endLost_spec (s := s.placeRing.setSeed s.host.seed) hr₃.book hr₃.doing.2.2.2.2
  have hrest : Resting s₁ .off :=
    hr₃.rested hshort hon.enable hon.enabled hon.draining hon.wedged hon.busy hr₃.doing.2.1
    (fun r m hx => absurd hx (hr₃.doing.2.2.1 r m)) hr₃.doing.2.2.2.1 hidle
  have hrest₁ : Resting (s₁.setHost { s₁.host with restart := true }) .off :=
    hrest.setHost (hrest.book.notes rfl rfl rfl rfl rfl rfl rfl hrest.book.seeds) rfl rfl rfl
  have hwritten : (s₁.setHost { s₁.host with restart := true }).writes =
      [(.baseLo, RING), (.baseHi, 0), (.size, RING_LOG2), (.seed, s.host.seed)] := by
    obtain ⟨⟨mem, f, h', hstate⟩, -⟩ := hshort
    change s₁.writes = _
    rw [show s₁ = _ from hstate]
    exact hws₃
  have hprimed : Primed (s₁.setHost { s₁.host with restart := true })
    (s₁.setHost { s₁.host with restart := true }).writes := by
    rw [hwritten]
    have hmod : s₁.module = s.module := by
      obtain ⟨⟨mem, f, h', hstate⟩, -⟩ := hshort
      rw [show s₁ = _ from hstate]
      rfl
    exact hon.primed (s := s₁.setHost { s₁.host with restart := true }) hmod s.host.seed hshort.ends.seed
  obtain ⟨hrest', hlead, -⟩ := hrest₁.restart hprimed hidle
  exact ⟨_, hrest'.free hlead⟩

/-- A teardown goes on, where what it waits for is here. -/
theorem resume_spec (h : s.Safe a) (hturn : s.turn = true) (hres : s.resume = some s') : ∃ a, s'.Safe a := by
  unfold Sim.resume at hres
  cases hp : s.host.phase with
  | script => rw [hp] at hres; exact absurd hres.symm (Option.some_ne_none _)
  | head box =>
    rw [hp] at hres
    obtain ⟨head, hbox, rfl⟩ := Option.map_eq_some_iff.mp hres
    exact head_spec h hp hbox
  | resetting wake =>
    rw [hp] at hres
    dsimp only at hres
    split at hres
    · exact absurd hres.symm (Option.some_ne_none _)
    case isFalse hwake =>
      obtain rfl := Option.some.inj hres
      exact wake_spec h hturn hp (Nat.le_of_not_lt hwake)
  | status t0 box =>
    rw [hp] at hres
    obtain ⟨v, hbox, rfl⟩ := Option.map_eq_some_iff.mp hres
    have hphase := h.wires.phase
    rw [hp] at hphase
    obtain ⟨-, hreset, hlines, -, -, -, hanswer, hstate⟩ := hphase
    obtain ⟨hws, hans, hv⟩ := hanswer v hbox
    have hst := (hstate.resolve_left fun ⟨_, _, _, ws, w, hws', _⟩ =>
      List.append_ne_nil_of_right_ne_nil ws (List.cons_ne_nil _ _) (hws'.symm.trans hws)).2
    have hr := h.resting hans hreset
    by_cases hodd : v % 2 = 1
    · rw [if_pos hodd]
      by_cases hlate : T_QUIESCE < s.t - t0
      · rw [if_pos hlate]
        exact ⟨_, reset_asked h hp hlate hws hans⟩
      · rw [if_neg hlate]
        have hask := hr.ask .status (.status t0)
        exact ⟨a, hask.status rfl hlines (.inr ⟨hask.writes.trans hws, hst⟩)⟩
    · rw [if_neg hodd]
      obtain ⟨rfl, hoff⟩ := hv.resolve_left hodd
      obtain ⟨-, hseed, htail⟩ := hst.resolve_right Activity.noConfusion
      have hask := hr.ask .head .head
      refine ⟨.torn, hask.queue, hask.book, hask.doing, ⟨hask.due, hask.boxes, hask.asked, ?_⟩, hask.clean⟩
      exact ⟨rfl, hoff, hseed, htail, hask.reset, hask.writes.trans hws, hask.lt, hask.reads,
        fun b w hx => absurd hx (hask.appends b w), fun w hw => absurd (hw.symm.trans hask.fresh)
          (Option.some_ne_none w)⟩

end Grxcp.BoardTransport
