import Grxcp.Transport.Landing
import Grxcp.Transport.Registers

/-!
# Deliveries

Whatever is due next, its delivery keeps what holds in every state (`handle_spec`). The write that ends
the queue drops the job at hand (`Sim.Doing.tear`); the read of a register comes after every write before
it, so its answer is of the module that they have led to.
-/

namespace Grxcp.BoardTransport

open Agenda Runs Sim

variable {s s' : Sim} {a : Activity} {e : Entry Event} {q : List (Entry Event)} {off : Reg} {val : ℕ}
  {ws : List (Reg × ℕ)}

/-! ## The queue is torn down -/

/-- The job is dropped: what is in flight of it is stale, and belongs to the command at `head`. -/
theorem Sim.Doing.tear (hd : s.Doing a) (hq : Queue s) (hb : Book s.host) (ht : a ≠ .torn) (hdead : a ≠ .dead)
    (hw : a ≠ .wedged)
    (he : s.module.enable = true) {m : Module} (henable : m.enable = false) (hjob : m.job = s.module.job + 1)
    (hgen : m.gen = s.module.gen) (hbusy : m.busy = false) (hwedged : m.wedged = s.module.wedged)
    (hhead : m.head = s.module.head)
    (hbase : m.base = s.module.base) (hsize : m.sizeLog2 = s.module.sizeLog2) (hon : m.enabled = m.draining)
    (hdr : m.draining = false → m.inflight = 0) : (s.setModule m).Doing .torn := by
  have hup := hd.up ht hdead he
  have hevent : ∀ {fn}, s.Has fn → EvOk s fn := by
    rintro fn ⟨e, hin, rfl⟩
    exact hq.ok e hin
  have hstale : ∀ g, g < s.readCt → ¬(s.setModule m).Live g := by
    rintro g hg ⟨hj, hg'⟩
    have hle := (hq.jobs g hg).2 (hg'.trans hgen)
    exact absurd ((hj.trans hjob).symm.trans_le hle) (Nat.not_succ_le_self _)
  have hold : ∀ {j}, j ≤ s.module.job → j ≠ m.job := fun hj => ((Nat.lt_succ_of_le hj).trans_eq hjob.symm).ne
  -- what each stage has in flight and in the slot at `head`
  have hparts : s.Front ∧ s.module.wedged = false ∧ (∀ x d, s.Has (.land x d) → s.Stray x d) ∧
      ∀ c, s.host.hhead ≤ s.module.head → s.host.cmds s.module.head = some c → Kept s.mem s.module.head c := by
    cases a with
    | off => exact absurd (he.symm.trans hd.1) Bool.noConfusion
    | torn => exact absurd rfl ht
    | dead => exact absurd rfl hdead
    | wedged => exact absurd rfl hw
    | idle =>
      obtain ⟨-, hf, hw', -, -, -, hl, -, hfresh⟩ := hd
      exact ⟨hf, hw', fun x d hx => absurd hx (hl.2 x d), fun c _ hc => (hfresh c hc).kept (hb.wf _ c hc).1⟩
    | reading g =>
      obtain ⟨-, hf, hw', -, -, hl, -, -, c, hc, hfresh, -⟩ := hd
      refine ⟨hf, hw', fun x d hx => absurd hx (hl.2 x d), fun c' _ hc' => ?_⟩
      obtain rfl := Option.some.inj (hc.symm.trans hc')
      exact hfresh.kept (hb.wf _ c hc).1
    | shooting r =>
      obtain ⟨-, hf, hw', -, -, hle, -, c, hc, hs⟩ := hd
      refine ⟨hf, hw', fun x d hx => ?_, fun c' _ hc' => ?_⟩
      · obtain ⟨i, hi, hxi, -⟩ := hs.lands x d hx
        exact ⟨hle, c, hc, .inl ⟨i, hi.trans_le hs.sent, hxi⟩⟩
      · obtain rfl := Option.some.inj (hc.symm.trans hc')
        unfold Kept
        rw [hs.slot]
        exact ⟨(hb.wf _ c hc).1.desc_length, rfl⟩
    | recording st index =>
      obtain ⟨-, hf, hw', -, -, -, -, -, c, hc, hs⟩ := hd
      have hlen := (hb.wf _ c hc).1.desc_length
      refine ⟨hf, hw', fun x d hx => ?_, fun c' hle hc' => ?_⟩
      · obtain ⟨hxs, hds, hle, -⟩ := hs.lands x d hx
        exact ⟨hle, c, hc, .inr ⟨hxs, hds ▸ recordOf_length hlen _ _, hds ▸ recordOf_take hlen _ _⟩⟩
      · obtain rfl := Option.some.inj (hc.symm.trans hc')
        unfold Kept
        rcases hs.slot hle with hm | ⟨hm, -⟩ <;> rw [hm]
        · exact ⟨recordOf_length hlen _ _, recordOf_take hlen _ _⟩
        · exact ⟨hlen, rfl⟩
  obtain ⟨hf, hw', hstray, hkept⟩ := hparts
  refine ⟨henable, hon, hwedged.trans hw', hbusy, hbase.trans hup.base, hsize.trans hup.size, hdr, ?_, ?_, ?_, ?_,
    ?_, ?_⟩
  · exact fun g hl => ⟨fun x hx => hstale g (hevent hx) hl, fun x d hx => hstale g (hevent hx) hl⟩
  · exact fun r n hx => hold (hevent (show s.Has _ from hx)).2
  · intro gen x hx
    have hok := hevent (show s.Has _ from hx)
    cases x with
    | ordered r => exact hold hok.2.2
    | ended idx st job => exact hold hok.2
  · intro x d hx
    obtain ⟨hle, c, hc, hwhere⟩ := hstray x d hx
    unfold Stray
    change s.host.hhead ≤ m.head ∧ ∃ c, s.host.cmds m.head = some c ∧ (_ ∨ x = slotAddr m.head ∧ _)
    rw [hhead]
    exact ⟨hle, c, hc, hwhere⟩
  · intro idx c hge hlt hc
    exact hf.before idx c hge (hlt.trans_eq hhead) hc
  · intro idx c hge hge' hc
    rcases Nat.eq_or_lt_of_le (hhead.symm.trans_le hge') with rfl | hlt
    · exact hkept c hge hc
    · exact (hf.later idx c hlt hc).kept (hb.wf idx c hc).1

/-- The write that clears ENABLE. -/
theorem writeCtrl_off (hq : Queue s) (hb : Book s.host) (hd : s.Doing a) (ht : a ≠ .torn) (hdead : a ≠ .dead)
    (hw : a ≠ .wedged) (hl : Leads s []) (heven : val % 2 = 0) :
    ∃ m : Module, s.writeReg .ctrl val = s.setModule m ∧ Queue (s.setModule m) ∧ (s.setModule m).Doing .torn ∧
      m.seed = s.host.seed ∧ m.tail ≤ s.host.next := by
  obtain ⟨σ, hs, -, hen, hseed, htail⟩ := hl
  have he : s.module.enable = true := hs.enable.symm.trans hen
  have hwed : ¬s.module.wedged = true := fun hwed => hw (hd.eq_wedged hdead hwed)
  have hup := hd.up ht hdead he
  have hodd : ¬decide (val % 2 = 1) = true := fun h => by
    have := of_decide_eq_true h
    omega
  unfold Sim.writeReg
  dsimp only
  rw [if_neg hwed]
  unfold Sim.writeCtrl
  dsimp only
  rw [if_neg fun hcond => hodd hcond.1, if_pos ⟨hodd, he⟩]
  unfold Sim.settle
  split
  case isTrue hlast =>
    refine ⟨_, rfl, hq.setModule _ rfl (Nat.le_succ _) rfl, ?_, hs.seed.symm.trans hseed, hs.tail.trans htail⟩
    exact hd.tear hq hb ht hdead hw he rfl rfl rfl rfl rfl rfl rfl rfl rfl fun _ => hlast.2
  case isFalse =>
    refine ⟨_, rfl, hq.setModule _ rfl (Nat.le_succ _) rfl, ?_, hs.seed.symm.trans hseed, hs.tail.trans htail⟩
    exact hd.tear hq hb ht hdead hw he rfl rfl rfl rfl rfl rfl rfl rfl hup.enabled fun h => Bool.noConfusion h

/-! ## Register writes -/

/-- A register write has been taken: the phase is all that is left to see to. -/
theorem Wrote.safe (hw : Wrote (s.withQ q) s' ws) (h : s.Safe a) (hq : s.q = e :: q)
    (hphase : ∀ a', a' ≠ .torn → a' ≠ .dead → (a' = .wedged ∨ Leads s' ws) → s'.InPhase a' s.host.phase) :
    ∃ a', s'.Safe a' := by
  obtain ⟨a', ht', hd', hdoing, hl⟩ := hw.doing
  have hentry : ∀ e' ∈ s'.q, e'.fn.isControl = true → e' ∈ s.q := fun e' he' hc =>
    mem_of_cons hq (entry_of_control hw.control he' hc)
  refine ⟨a', hw.queue, hw.host ▸ h.book, hdoing, ⟨fun e' he' hwr => ?_, ?_, ?_, ?_⟩, fun c hc => ?_⟩
  · rw [hw.t]
    exact h.wires.due e' (hentry e' he' (write_isControl hwr)) hwr
  · rw [hw.boxCt, hw.boxes]
    exact h.wires.boxes
  · exact asked_of_control hw.control ((countOf_withQ_le hq _).trans h.wires.asked)
  · rw [hw.host]
    exact hphase a' ht' hd' hl
  · rcases hw.fired c hc with hc | hc
    · exact .inr (.inr (.inr hc))
    · exact h.clean c hc

theorem write_spec (h : s.Safe a) (hq : s.q = e :: q) (hfn : e.fn = .write off val) :
    ∃ a, ((s.withQ q).writeReg off val).Safe a := by
  have hqueue := h.queue.drop hq (show e.fn.isGo = false from hfn ▸ rfl)
  have hdoing := (SameData.drop hq (show e.fn.isControl = true from hfn ▸ rfl)).doing h.doing
  have hwrites : s.writes = (off, val) :: (s.withQ q).writes := writes_cons_some hq (hfn ▸ rfl)
  have hne : s.writes ≠ [] := hwrites ▸ List.cons_ne_nil _ _
  have hphase := h.wires.phase
  cases hp : s.host.phase with
  | script =>
    rw [hp] at hphase
    obtain ⟨ht, hd, hans, hreset, hlead⟩ := hphase
    have hwrote : Wrote _ _ (s.withQ q).writes := writeReg_spec hqueue h.book hdoing ht hd
      (hlead.imp_right fun hl => (hwrites ▸ hl : Leads s _).of_eq rfl rfl)
    have hhas : ∀ {fn : Event}, fn.isControl = true → Sim.Has _ fn → s.Has fn := fun hc hx =>
      ((has_of_control hwrote.control hc).mp hx).of_cons hq
    refine hwrote.safe h hq fun a' ht' hd' hl => ?_
    rw [hp]
    refine ⟨ht', hd', ⟨fun r b hx => hans.1 r b (hhas rfl hx), fun b v hx => hans.2 b v (hhas rfl hx)⟩,
      fun hx => hreset (hhas rfl hx), ?_⟩
    rw [writes_of_control hwrote.control]
    exact hl
  | status t0 box =>
    rw [hp] at hphase
    obtain ⟨hbox, hreset, hlines, hreads, horder, happ, hanswer, hstate⟩ := hphase
    obtain ⟨ht, hd, hlate, ws, v, hws, hv, hlead⟩ := hstate.resolve_right fun hbad => hne hbad.1
    rw [hwrites] at hws
    cases ws with
    | nil =>
      -- the write is the teardown's own
      obtain ⟨hhere, hrest⟩ := List.cons.inj hws
      obtain ⟨rfl, rfl⟩ := Prod.mk.inj hhere
      have hphase' : ∀ {s'} {a'}, s'.control = (s.withQ q).control → s'.boxes = s.boxes → s'.boxCt = s.boxCt →
          (∀ e' ∈ s'.q, e'.fn.isLine = true → e' ∈ s.q) →
          (a' = .torn ∧ s'.module.seed = s'.host.seed ∧ s'.module.tail ≤ s'.host.next ∨ a' = .wedged) →
          Sim.InPhase s' a' (.status t0 box) := by
        intro s' a' hcontrol hboxes hct hline hst
        have hhas : ∀ {fn : Event}, fn.isControl = true → s'.Has fn → s.Has fn := fun hc hx =>
          ((has_of_control hcontrol hc).mp hx).of_cons hq
        have hempty : s'.writes = [] := (writes_of_control hcontrol).trans hrest
        refine ⟨hct ▸ hbox, fun hx => hreset (hhas rfl hx), fun e' he' hl => hlines e' (hline e' he' hl) hl,
          fun r b hx => hreads r b (hhas rfl hx), fun e' he' _ _ hwr => absurd hwr (not_write hempty he'),
            fun b v' hx => absurd (happ b v' (hhas rfl hx)).2.1 hne,
          fun v' hv' => absurd (hanswer v' (hboxes ▸ hv')).1 hne, .inr ⟨hempty, hst⟩⟩
      -- a wedged module takes no write, any other lets go of its command here
      by_cases hw : a = .wedged
      · subst hw
        have hskip : (s.withQ q).writeReg .ctrl val = s.withQ q := if_pos h.doing.2.2.1
        rw [hskip]
        refine ⟨.wedged, hqueue, h.book, hdoing, ⟨fun e' he' => h.wires.due e' (mem_of_cons hq he'), h.wires.boxes,
          (countOf_withQ_le hq _).trans h.wires.asked, ?_⟩, h.clean⟩
        change Sim.InPhase _ _ s.host.phase
        rw [hp]
        exact hphase' rfl rfl rfl (fun e' he' _ => mem_of_cons hq he') (.inr rfl)
      · obtain ⟨m, hm, hqueue', htorn, hseed, htail⟩ := writeCtrl_off (s := s.withQ q) hqueue h.book hdoing ht hd hw
          ((hlead.resolve_left hw).of_eq rfl rfl) hv
        rw [hm]
        refine ⟨.torn, hqueue', h.book, htorn, ⟨fun e' he' => h.wires.due e' (mem_of_cons hq he'), h.wires.boxes,
          (countOf_withQ_le hq _).trans h.wires.asked, ?_⟩, h.clean⟩
        change Sim.InPhase _ _ s.host.phase
        rw [hp]
        exact hphase' rfl rfl rfl (fun e' he' _ => mem_of_cons hq he') (.inl ⟨rfl, hseed, htail⟩)
    | cons w ws =>
      obtain ⟨rfl, hrest⟩ := List.cons.inj hws
      have hwrote : Wrote _ _ ws := writeReg_spec hqueue h.book hdoing ht hd (hlead.imp_right fun hl =>
        hl.of_eq rfl rfl)
      have hhas : ∀ {fn : Event}, fn.isControl = true → Sim.Has _ fn → s.Has fn := fun hc hx =>
        ((has_of_control hwrote.control hc).mp hx).of_cons hq
      have hentry : ∀ {e'}, e' ∈ ((s.withQ q).writeReg off val).q → e'.fn.isControl = true → e' ∈ s.q := fun he' hc =>
        mem_of_cons hq (entry_of_control hwrote.control he' hc)
      -- a write from before the teardown: the queue goes on as it did, and the teardown's is still behind it
      -- the head of the agenda is a write, so it is no later than the teardown's
      have hnow : s.t ≤ t0 + L := by
        have hin : e ∈ s.q := hq ▸ List.mem_cons_self
        exact ((Nat.le_add_right _ _).trans (h.queue.due e hin)).trans (hlate e hin (hfn ▸ rfl))
      refine hwrote.safe h hq fun a' ht' hd' hl => ?_
      rw [hp]
      refine ⟨hwrote.boxCt ▸ hbox, fun hx => hreset (hhas rfl hx), fun e' he' hl' => ?_, fun r b hx =>
        hreads r b (hhas rfl hx),
        fun e' he' e'' he'' hwr hrd => ?_, fun b v' hx => absurd (happ b v' (hhas rfl hx)).2.1 hne,
        fun v' hv' => absurd (hanswer v' (hwrote.boxes ▸ hv')).1 hne,
        .inl ⟨ht', hd', fun e' he' hwr => hlate e' (hentry he' (write_isControl hwr)) hwr, ws, v, ?_, hv, hl⟩⟩
      · have hsoon := hwrote.queue.soon e' he' hl'
        rw [hwrote.t] at hsoon
        have hsum : 3 * L + JITTER = L + (2 * L + JITTER) := by decide
        change e'.due ≤ s.t + _ at hsoon
        omega
      · refine horder e' (hentry he' (write_isControl hwr)) e'' (hentry he'' ?_) hwr hrd
        obtain ⟨r, b, hrd⟩ := hrd
        rw [hrd]
        rfl
      · exact (writes_of_control hwrote.control).trans hrest
  | head box =>
    rw [hp] at hphase
    exact absurd hphase.2.2.2.2.2.1 hne
  | resetting wake =>
    rw [hp] at hphase
    exact absurd hphase.2.2.1 hne

/-! ## Reads of registers -/

/-- With the only question or answer taken off, none is left. -/
theorem none_asked (h : s.Safe a) (hq : s.q = e :: q) (hfn : e.fn.isAnswer = true) : (s.withQ q).NoAnswers := by
  have hone := h.wires.asked
  rw [countOf_cons hq, hfn] at hone
  have hzero : (s.withQ q).countOf Event.isAnswer = 0 := Nat.le_zero.mp (Nat.le_of_succ_le_succ hone)
  exact ⟨fun r b hx => absurd (countOf_eq_zero hzero hx) Bool.noConfusion,
    fun b v hx => absurd (countOf_eq_zero hzero hx) Bool.noConfusion⟩

/-- A register is read: every write before it has been delivered. -/
theorem read_spec (h : s.Safe a) {box : ℕ} (hq : s.q = e :: q) (hfn : e.fn = .read off box) :
    ((s.withQ q).readReg off box).Safe a := by
  obtain ⟨v, hv, hread⟩ : ∃ v, (off = .status → v % 2 = s.module.enabled.toNat) ∧ (off = .head → v = s.module.head) ∧
      (s.withQ q).readReg off box = (s.withQ q).after L 2 (.append box v) := by
    cases off <;> refine ⟨_, fun he => ?_, fun he => ?_, rfl⟩ <;> first | exact Reg.noConfusion he | rfl | skip
    have hbit := Bool.toNat_le s.module.enabled
    change (s.module.enabled.toNat + 2 * (if s.module.halted ≠ 0 then 1 else 0) + 2 ^ 8 * s.module.halted) % 2 = _
    omega
  obtain ⟨hhead, hread⟩ := hread
  rw [hread]
  have hhere : s.Has (.read off box) := hfn ▸ has_head hq
  have hdata : SameData s (s.withQ q) := .drop hq (hfn ▸ rfl)
  have hdoing : ((s.withQ q).after L 2 (.append box v)).Doing a := (SameData.push _ rfl).doing (hdata.doing h.doing)
  have hqueue : Queue ((s.withQ q).after L 2 (.append box v)) :=
    (h.queue.drop hq (hfn ▸ rfl)).after (show 1 ≤ L by decide) Bool.noConfusion
      (fun _ _ he => Event.noConfusion he) rfl (show EvOk (s.withQ q) (.append box v) from trivial)
  have hwrites : ((s.withQ q).after L 2 (.append box v)).writes = s.writes :=
    (writes_after rfl).trans (writes_cons hq (hfn ▸ rfl))
  obtain ⟨hnoread, hnoappend⟩ := none_asked h hq (hfn ▸ rfl)
  have hentry : ∀ e' ∈ ((s.withQ q).after L 2 (.append box v)).q, (∀ b w, e'.fn ≠ .append b w) → e' ∈ s.q := by
    intro e' he' hne
    rcases mem_push.mp he' with rfl | he'
    · exact absurd rfl (hne box v)
    · exact mem_of_cons hq he'
  -- one question at a time: this is the only one
  have hempty : (∀ r b, s.Has (.read r b) → r = off ∧ b = box) := by
    intro r b hx
    rcases (has_cons hq).mp hx with hx | hx
    · obtain ⟨rfl, rfl⟩ := Event.read.inj (hx.trans hfn)
      exact ⟨rfl, rfl⟩
    · exact absurd hx (hnoread r b)
  refine ⟨hqueue, h.book, hdoing, ⟨fun e' he' hwr => ?_, h.wires.boxes, ?_, ?_⟩, h.clean⟩
  · refine h.wires.due e' (hentry e' he' fun b w hw => ?_) hwr
    rw [hw] at hwr
    exact Bool.noConfusion hwr
  · have hone := h.wires.asked
    rw [countOf_cons hq, hfn] at hone
    exact (countOf_after _).trans_le hone
  have hphase := h.wires.phase
  change Sim.InPhase _ _ s.host.phase
  cases hp : s.host.phase with
  | script =>
    rw [hp] at hphase
    exact absurd hhere (hphase.2.2.1.1 off box)
  | resetting wake =>
    rw [hp] at hphase
    exact absurd hhere (hphase.2.1.1 off box)
  | status t0 box' =>
    rw [hp] at hphase
    obtain ⟨hbox, hreset, hlines, hreads, horder, happ, hanswer, hstate⟩ := hphase
    obtain ⟨rfl, rfl⟩ := hreads off box hhere
    -- the read is next, and no write is after it
    have hnone : s.writes = [] := by
      refine List.filterMap_eq_nil_iff.mpr fun e' he' => Option.not_isSome_iff_eq_none.mp fun hwr => ?_
      have hle : e.Before e' := by
        rcases List.mem_cons.mp (hq ▸ he') with rfl | hin
        · rw [hfn] at hwr
          exact Bool.noConfusion hwr
        · exact (hq ▸ h.queue.sorted : Sorted (e :: q)).head_le hin
      exact horder e' he' e (hq ▸ List.mem_cons_self) hwr ⟨_, _, hfn⟩ hle
    have hst := hstate.resolve_left fun ⟨_, _, _, ws, w, hws, _⟩ =>
      List.append_ne_nil_of_right_ne_nil ws (List.cons_ne_nil _ _) (hws.symm.trans hnone)
    -- what the read says of ENABLED is so already when it is read, and stays so
    have hstopped : v % 2 = 1 ∨ s.Stopped a := by
      by_cases hen : s.module.enabled = true
      · exact .inl ((hv rfl).trans (by rw [hen]; rfl))
      · refine .inr ⟨?_, Bool.eq_false_iff.mpr hen⟩
        rcases hst.2 with ⟨ha, -⟩ | rfl
        · exact ha
        · exact absurd h.doing.1.enabled hen
    refine ⟨hbox, fun hx => hreset ((has_after.mp hx).resolve_left Event.noConfusion |>.of_cons hq), fun e' he' hl =>
      ?_, fun r b hx => absurd ((has_after.mp hx).resolve_left Event.noConfusion) (hnoread r b),
      fun e' he' _ _ hwr => absurd hwr (not_write (hwrites.trans hnone) he'), fun b w hx => ?_,
      fun w hw => absurd hhere ((hanswer w hw).2.1.1 _ _), .inr ⟨hwrites.trans hst.1, hst.2⟩⟩
    · refine hlines e' (hentry e' he' fun b w hw => ?_) hl
      rw [hw] at hl
      exact Bool.noConfusion hl
    · rcases has_after.mp hx with hx | hx
      · obtain ⟨rfl, rfl⟩ := Event.append.inj hx
        exact ⟨rfl, hwrites.trans hnone, hstopped⟩
      · exact absurd hx (hnoappend b w)
  | head box' =>
    rw [hp] at hphase
    obtain ⟨ha, hoff, hseed, htail, hreset, hws, hbox, hreads, happ, hanswer⟩ := hphase
    obtain ⟨rfl, rfl⟩ := hreads off box hhere
    refine ⟨ha, hoff, hseed, htail, fun hx => hreset ((has_after.mp hx).resolve_left Event.noConfusion |>.of_cons hq),
      hwrites.trans hws, hbox, fun r b hx => absurd ((has_after.mp hx).resolve_left Event.noConfusion)
      (hnoread r b), fun b w hx => ?_, fun w hw => absurd hhere ((hanswer w hw).2.1 _ _)⟩
    rcases has_after.mp hx with hx | hx
    · obtain ⟨rfl, rfl⟩ := Event.append.inj hx
      exact ⟨rfl, hhead rfl⟩
    · exact absurd hx (hnoappend b w)

/-- The answer is in its box. -/
theorem append_spec (h : s.Safe a) {box v : ℕ} (hq : s.q = e :: q) (hfn : e.fn = .append box v) :
    Sim.Safe { s.withQ q with boxes := Function.update s.boxes box (some v) } a := by
  set s' : Sim := { s.withQ q with boxes := Function.update s.boxes box (some v) } with hs'
  have hhere : s.Has (.append box v) := hfn ▸ has_head hq
  have hdata : SameData s (s.withQ q) := .drop hq (hfn ▸ rfl)
  have hdoing : s'.Doing a := by
    have hsame : SameData (s.withQ q) s' := .beside rfl rfl rfl rfl rfl rfl rfl rfl rfl rfl
    exact hsame.doing (hdata.doing h.doing)
  have hqueue : Queue s' :=
    (h.queue.drop hq (hfn ▸ rfl)).move rfl rfl rfl rfl rfl (fun _ _ => ⟨rfl, rfl⟩) le_rfl
    (fun _ _ => rfl) rfl le_rfl rfl
  have hwrites : s'.writes = s.writes := writes_cons hq (hfn ▸ rfl)
  have hnone : s'.NoAnswers := none_asked h hq (hfn ▸ rfl)
  have hboxes : box < s.boxCt → ∀ b, s'.boxCt ≤ b → s'.boxes b = none := by
    intro hlt b hb
    change Function.update s.boxes box (some v) b = none
    rw [Function.update_of_ne (hlt.trans_le hb).ne']
    exact h.wires.boxes b hb
  have hself : ∀ w, s'.boxes box = some w → w = v := by
    intro w hw
    change Function.update s.boxes box (some v) box = some w at hw
    rw [Function.update_self] at hw
    exact (Option.some.inj hw).symm
  have hphase := h.wires.phase
  have hdue : ∀ e' ∈ s'.q, e'.fn.write?.isSome = true → e'.prio = 1 ∧ e'.due ≤ s'.t + L := fun e' he' =>
    h.wires.due e' (mem_of_cons hq he')
  have hasked : s'.countOf Event.isAnswer ≤ 1 := (countOf_withQ_le hq _).trans h.wires.asked
  refine ⟨hqueue, h.book, hdoing, ?_, h.clean⟩
  cases hp : s.host.phase with
  | script =>
    rw [hp] at hphase
    exact absurd hhere (hphase.2.2.1.2 box v)
  | resetting wake =>
    rw [hp] at hphase
    exact absurd hhere (hphase.2.1.2 box v)
  | status t0 box' =>
    rw [hp] at hphase
    obtain ⟨hbox, hreset, hlines, hreads, horder, happ, hanswer, hstate⟩ := hphase
    obtain ⟨rfl, hws, hv⟩ := happ box v hhere
    refine ⟨hdue, hboxes hbox, hasked, ?_⟩
    change Sim.InPhase _ _ s.host.phase
    rw [hp]
    refine ⟨hbox, fun hx => hreset (hx.of_cons hq), fun e' he' => hlines e' (mem_of_cons hq he'),
      fun r b hx => absurd hx (hnone.1 r b), fun e' he' e'' he'' => horder e' (mem_of_cons hq he') e''
        (mem_of_cons hq he''),
      fun b w hx => absurd hx (hnone.2 b w), fun w hw => ⟨hwrites.trans hws, hnone, ?_⟩, ?_⟩
    · obtain rfl := hself w hw
      exact hv
    · rw [hwrites]
      refine hstate.imp_left fun ⟨ht, hd, hlate, ws, w, hws', heven, hlead⟩ => ?_
      exact ⟨ht, hd, fun e' he' => hlate e' (mem_of_cons hq he'), ws, w, hws', heven, hlead.imp_right fun hl =>
        hl.of_eq rfl rfl⟩
  | head box' =>
    rw [hp] at hphase
    obtain ⟨ha, hoff, hseed, htail, hreset, hws, hbox, hreads, happ, hanswer⟩ := hphase
    obtain ⟨rfl, rfl⟩ := happ box v hhere
    refine ⟨hdue, hboxes hbox, hasked, ?_⟩
    change Sim.InPhase _ _ s.host.phase
    rw [hp]
    exact ⟨ha, hoff, hseed, htail, fun hx => hreset (hx.of_cons hq), hwrites.trans hws, hbox, fun r b hx =>
      absurd hx (hnone.1 r b), fun b w hx => absurd hx (hnone.2 b w), fun w hw => ⟨hself w hw, hnone⟩⟩

/-! ## A reset -/

/-- The module is reset: what it had in flight is let go by, and its registers are at power-on. -/
theorem reset_spec (h : s.Safe a) (hq : s.q = e :: q) (hfn : e.fn = .reset) : (s.withQ q).moduleReset.Safe a := by
  have hhere : s.Has .reset := hfn ▸ has_head hq
  have hphase := h.wires.phase
  cases hp : s.host.phase with
  | script =>
    rw [hp] at hphase
    exact absurd hhere hphase.2.2.2.1
  | status t0 box =>
    rw [hp] at hphase
    exact absurd hhere hphase.2.1
  | head box =>
    rw [hp] at hphase
    exact absurd hhere hphase.2.2.2.2.1
  | resetting wake =>
    rw [hp] at hphase
    obtain ⟨rfl, hans, hws, hlate, -⟩ := hphase
    -- nothing that the module wrote is in flight, and what it asked for is of another generation
    obtain ⟨-, hr, hsh, hl, hk⟩ := h.doing
    have hqueue := h.queue.drop hq (show e.fn.isGo = false from hfn ▸ rfl)
    have hstale : ∀ g, g < s.readCt → (s.reads g).gen ≠ s.module.gen + 1 := fun g hg =>
      (Nat.lt_succ_of_le (h.queue.jobs g hg).1).ne
    have hok : ∀ e' ∈ q, EvOk (s.withQ q).moduleReset e'.fn := by
      intro e' he'
      have hold := h.queue.ok e' (mem_of_cons hq he')
      have hhas : s.Has e'.fn := ⟨e', mem_of_cons hq he', rfl⟩
      cases hfn' : e'.fn with
      | shot r m => exact absurd (hfn' ▸ hhas) (hsh r m)
      | go gen x => exact absurd (hfn' ▸ hhas) (hl.1 gen x)
      | atHost g x => rw [hfn'] at hold; exact hold
      | back g x d => rw [hfn'] at hold; exact hold
      | _ => trivial
    have hqueue' : Queue (s.withQ q).moduleReset := by
      refine ⟨hqueue.sorted, hqueue.num, hqueue.due, hqueue.soon, hqueue.lands, hok, ?_, fun g hg => ?_⟩
      · exact (Nat.le_zero.mp ((countOf_withQ_le hq _).trans_eq (countOf_isGo_of_noLines hl))).symm
      · exact ⟨(h.queue.jobs g hg).1.trans (Nat.le_succ _), fun hgen => absurd hgen (hstale g hg)⟩
    have hreads : (s.withQ q).moduleReset.NoReads := by
      intro g hlive
      have hno : ∀ {fn : Event}, s.Has fn → (EvOk s fn → g < s.readCt) → False := by
        rintro fn ⟨e', he', rfl⟩ hlt
        exact hstale g (hlt (h.queue.ok e' he')) hlive.2
      exact ⟨fun x hx => hno (Has.of_cons hq hx) id, fun x d hx => hno (Has.of_cons hq hx) id⟩
    refine ⟨hqueue', h.book, ⟨.inl rfl, hreads, fun r m hx => hsh r m (Has.of_cons hq hx),
      ⟨fun gen x hx => hl.1 gen x (Has.of_cons hq hx), fun x d hx => hl.2 x d (Has.of_cons hq hx)⟩, hk⟩,
      ⟨fun e' he' => h.wires.due e' (mem_of_cons hq he'), h.wires.boxes,
      (countOf_withQ_le hq _).trans h.wires.asked, ?_⟩, h.clean⟩
    change Sim.InPhase _ _ s.host.phase
    rw [hp]
    exact ⟨rfl, ⟨fun r b hx => hans.1 r b (Has.of_cons hq hx), fun b v hx => hans.2 b v (Has.of_cons hq hx)⟩,
      (writes_cons hq (hfn ▸ rfl)).trans hws, fun e' he' => hlate e' (mem_of_cons hq he'),
      .inr ⟨rfl, rfl, rfl, rfl, rfl, rfl, rfl, rfl, rfl⟩⟩

/-! ## Whatever is due -/

/-- The first entry of the agenda is taken off and done. -/
theorem handle_spec (h : s.Safe a) (hq : s.q = e :: q) : ∃ a, ((s.withQ q).handle e.fn).Safe a := by
  cases hfn : e.fn with
  | write off val => exact write_spec h hq hfn
  | read off box => exact ⟨a, read_spec h hq hfn⟩
  | append box v => exact ⟨a, append_spec h hq hfn⟩
  | atHost g x => exact ⟨a, atHost_spec h hq hfn⟩
  | back g x d => exact back_spec h hq hfn
  | land x d => exact ⟨a, land_spec h hq hfn⟩
  | go gen x => exact go_spec h hq hfn
  | shot r m => exact shot_spec h hq hfn
  | msi => exact ⟨a, msi_spec h hq hfn⟩
  | reset => exact ⟨a, reset_spec h hq hfn⟩

end Grxcp.BoardTransport
