import Grxcp.Pta.SlotSteps

/-!
# Every call of the module is a run of the protocol

`SlotSteps.lean` shows it of one slot. Here are the service loop, which also has turns enough, the
registers, the clock and the resets; `act_refines` puts them together: whatever the host does, the
tile ends and the memory answers, a call is a sequence of the protocol's steps.
-/

namespace Grxcp.PtaModule

open PtaTwin

variable {Dev σ : Type} (h : Host σ) (k : TileKernel Dev)

/-! ## Everything that can happen now -/

theorem irqEdge_refines (m : Module Dev σ) : Refines m (m.irqEdge h) := by
  have hlevel : ∀ (m' : Module Dev σ) (level : Bool), Refines m' { m' with irqLevel := level } :=
    fun m' level ho => ⟨ho.congr rfl rfl, .refl⟩
  unfold Module.irqEdge
  dsimp only
  split
  · obtain ⟨irq, hm⟩ := raise_moved h m 1
    exact (hm.refines (by cases irq <;> simp [Event.quiet])).trans (hlevel _ _)
  · exact hlevel _ _

/-- The slot held has ended, or the module does nothing. -/
theorem finish_cases {m : Module Dev σ} (ho : m.Ok) (hl : m.cur.live = true) :
    (m.cur.status = .pending ∧ m.finish h = m) ∨
      ∃ c, m.queue.cur = some c ∧ c.pending = false ∧ (m.finish h).Ok ∧
        FinishStep m.queue c (m.finish h).queue ∧ (m.finish h).cur.live = false := by
  by_cases hst : m.cur.status = .pending
  · refine .inl ⟨hst, ?_⟩
    unfold Module.finish
    rw [if_pos (.inr hst)]
  · have hc : m.queue.cur = some ⟨m.cur.n, m.cur.idx, m.cur.orphan, m.cur.status = .pending⟩ := by
      simp [Module.queue, Inflight.holder, hl]
    have hp : decide (m.cur.status = .pending) = false := by simpa using hst
    obtain ⟨ht, hcur, hf⟩ := finish_step h ho hc hp
    refine .inr ⟨_, hc, hp, ⟨ht ▸ ho.tile, ?_⟩, hf, by rw [hcur]⟩
    rw [hcur]
    simp

/-- The slots the loop may still take, of a queue that takes slots. -/
private def takeable (q : Queue) : ℕ :=
  if q.enable = true ∧ q.halted = false then 2 * (q.tail - q.head).toNat else 0

/-- The turns the loop may still take. -/
private def rank (q : Queue) : ℕ :=
  match q.cur with
  | none => takeable q
  | some c => if c.orphan = true ∨ q.halted = true then takeable q + 1 else takeable q - 1

/-- When the loop has nothing left to do. -/
def Queue.Settled (q : Queue) : Prop :=
  (∃ c, q.cur = some c ∧ c.pending = true) ∨ (q.cur = none ∧ ¬q.Takes)

private theorem TakeStep.rank_lt {q q' : Queue} (h : q.Takes) (hs : TakeStep q q') :
    rank q' < rank q := by
  obtain ⟨he, hh, hc, hne⟩ := h
  have hr : rank q = 2 * (q.tail - q.head).toNat := by simp [rank, takeable, he, hh, hc]
  have hd : q.tail - q.head ≠ 0 := by bv_omega
  have hpos : 0 < (q.tail - q.head).toNat := by bv_omega
  rw [hr]
  cases hs with
  | unread => simpa [rank, takeable, hc] using hpos
  | ended =>
    have hlt : (q.tail - (q.head + 1)).toNat < (q.tail - q.head).toNat := by bv_omega
    simpa [rank, takeable, hc, he, hh] using hlt
  | failed => simpa [rank, takeable, hc] using hpos
  | held =>
    simp only [rank, takeable, he, hh, Bool.false_eq_true, and_self, or_self, if_true, if_false]
    omega

private theorem FinishStep.rank_lt {q q' : Queue} {c : Holder} (h : q.Inv) (hc : q.cur = some c)
    (hs : FinishStep q c q') : rank q' < rank q := by
  have hr : rank q =
      if c.orphan = true ∨ q.halted = true then takeable q + 1 else takeable q - 1 := by
    simp [rank, hc]
  rw [hr]
  cases hs with
  | orphan hor => simp [rank, takeable, hor]
  | ended hor =>
    obtain ⟨he, hi, hne⟩ := h.held c hc hor
    have hlt : (q.tail - (q.head + 1)).toNat < (q.tail - q.head).toNat := by bv_omega
    cases hh : q.halted with
    | true => simp [rank, takeable, hh]
    | false =>
      simp only [rank, takeable, hor, he, hh, hi, Bool.false_eq_true, and_self, or_self, if_true,
        if_false]
      omega
  | failed hor =>
    obtain ⟨he, hi, hne⟩ := h.held c hc hor
    have hpos : 0 < (q.tail - q.head).toNat := by bv_omega
    have hzero : ∀ tr, rank { q with halted := true, cur := none, trace := tr } = 0 := by
      simp [rank, takeable]
    rw [hzero]
    cases hh : q.halted with
    | true => simp
    | false =>
      simp only [takeable, hor, he, hh, Bool.false_eq_true, and_self, or_self, if_true, if_false]
      omega

/-- The loop takes the protocol's steps, and with enough turns it ends as the source's does: the slot
held is in the tile, or none is and none can be taken. -/
theorem serviceLoop_refines (fuel : ℕ) :
    ∀ m : Module Dev σ, m.Ok → (serviceLoop h k fuel m).Ok ∧
      m.queue.Steps (serviceLoop h k fuel m).queue ∧
      (m.queue.Inv → rank m.queue < fuel → (serviceLoop h k fuel m).queue.Settled) := by
  induction fuel with
  | zero => exact fun m ho => ⟨ho, .refl, fun _ h => absurd h (Nat.not_lt_zero _)⟩
  | succ fuel ih =>
    intro m ho
    unfold serviceLoop
    by_cases hl : m.cur.live = true
    · rw [if_pos hl]
      dsimp only
      obtain ⟨hst, heq⟩ | ⟨c, hc, hp, hok, hf, hdead⟩ := finish_cases h ho hl
      · rw [heq, if_pos hl]
        refine ⟨ho, .refl, fun _ _ => .inl ⟨_, by simp [Module.queue, Inflight.holder, hl]; rfl, ?_⟩⟩
        simpa using hst
      · rw [if_neg (by simp [hdead])]
        obtain ⟨hok', hs, hset⟩ := ih _ hok
        refine ⟨hok', .head (.finish c hc hp _ hf) hs, fun hinv hlt => hset (hf.inv hinv hc hp) ?_⟩
        exact Nat.lt_of_lt_of_le (hf.rank_lt hinv hc) (Nat.le_of_lt_succ hlt)
    · have hl : m.cur.live = false := by simpa using hl
      have hcur : m.queue.cur = none := by simp [Module.queue, Inflight.holder, hl]
      rw [if_neg (by simp [hl])]
      by_cases hstop : (!m.enable) = true ∨ m.halted ≠ 0 ∨ m.head = m.tail
      · rw [if_pos hstop]
        refine ⟨ho, .refl, fun _ _ => .inr ⟨hcur, ?_⟩⟩
        rintro ⟨he, hh, -, hne⟩
        obtain hs | hs | hs := hstop
        · have he : m.enable = true := he
          simp [he] at hs
        · have hh : (m.halted != 0) = false := hh
          exact hs (by simpa using hh)
        · exact hne hs
      · rw [if_neg hstop]
        push Not at hstop
        obtain ⟨he, hh, hne⟩ := hstop
        have he : m.enable = true := by simpa using he
        have ht : m.queue.Takes := ⟨he, by simp [Module.queue, hh], hcur, hne⟩
        obtain ⟨hok, hs⟩ := take_step h k ho hl
        obtain ⟨hok', hs', hset⟩ := ih _ hok
        refine ⟨hok', .head (.take ht _ hs) hs', fun hinv hlt => hset (hs.inv hinv ht) ?_⟩
        exact Nat.lt_of_lt_of_le (hs.rank_lt ht) (Nat.le_of_lt_succ hlt)

theorem service_refines (m : Module Dev σ) : Refines m (m.service h k) := by
  have hloop : Refines m (serviceLoop h k m.serviceFuel m) := fun ho =>
    ⟨(serviceLoop_refines h k _ m ho).1, (serviceLoop_refines h k _ m ho).2.1⟩
  exact hloop.trans (irqEdge_refines h _)

/-- The turns of `service` are enough. -/
theorem service_settles {m : Module Dev σ} (ho : m.Ok) (hinv : m.queue.Inv) :
    (serviceLoop h k m.serviceFuel m).queue.Settled := by
  refine (serviceLoop_refines h k _ m ho).2.2 hinv ?_
  have ht : takeable m.queue ≤ 2 * (m.tail - m.head).toNat := by
    unfold takeable
    split
    · rfl
    · exact Nat.zero_le _
  unfold rank Module.serviceFuel
  split
  · omega
  · split <;> omega

/-! ## Calls -/

theorem enable_refines {m : Module Dev σ} (he : m.enable = false) :
    Refines m ({ m with
      enable := true, enabled := true, head := m.tail, prev := none, halted := 0 }.emit
        (.enable m.tail)) :=
  .step (fun ho => ho.congr rfl rfl) fun _ => .enable (q := m.queue) he

theorem disable_refines {m : Module Dev σ} (he : m.enable = true) :
    Refines m ({ m with
      enable := false
      cur := if m.cur.live then { m.cur with orphan := true } else m.cur
      enabled := false }.emit .disable) := by
  refine .step (fun ho => ⟨ho.tile, ?_⟩) fun _ => ?_
  · have hcur := ho.cur
    simp only [Module.emit]
    split <;> exact hcur
  · have hs := Queue.Step.disable (q := m.queue) he
    have hh : Inflight.holder (if m.cur.live then { m.cur with orphan := true } else m.cur) =
        m.cur.holder.map fun c => { c with orphan := true } := by
      cases hl : m.cur.live <;> simp [Inflight.holder, hl]
    simp only [Module.queue] at hs
    rw [← hh] at hs
    exact hs

theorem writeCtrl_refines (m : Module Dev σ) (v : U32) : Refines m (m.writeCtrl h k v) := by
  have hirq : Refines m { m with irqEn := v &&& ctrlIrqEn != 0 } :=
    fun ho => ⟨ho.congr rfl rfl, .refl⟩
  unfold Module.writeCtrl
  refine hirq.trans ?_
  generalize { m with irqEn := v &&& ctrlIrqEn != 0 } = m'
  dsimp only
  split
  · next hen =>
    have he : m'.enable = false := by
      cases hm : m'.enable <;> simp [hm] at hen ⊢
    exact (enable_refines he).trans (service_refines h k _)
  · split
    · next hen =>
      have he : m'.enable = true := by
        cases hm : m'.enable <;> simp [hm] at hen ⊢
      exact disable_refines he
    · exact .refl m'

theorem bell_refines {m : Module Dev σ} (he : m.enable = true) {v : U32}
    (hv : ¬(m.ringSize < v - m.head ∨ 0x80000000 < v - m.tail)) :
    Refines m { m with tail := v } :=
  .step (fun ho => ho.congr rfl rfl) fun _ => .bell (q := m.queue) he v hv

theorem halt_refines (m : Module Dev σ) : Refines m (m.halt haltDoorbell) :=
  .step (fun ho => ho.congr rfl rfl) fun _ => .halt (q := m.queue)

theorem doorbell_refines (m : Module Dev σ) (v : U32) : Refines m (m.doorbell h k v) := by
  unfold Module.doorbell
  split
  · next he =>
    have he : m.enable = false := by simpa using he
    exact .step (fun ho => ho.congr rfl rfl) fun _ =>
      .program (q := m.queue) he m.sizeLog2 (.inl rfl) m.slotAddr v
  next he =>
  split
  · exact halt_refines m
  · next hv => exact (bell_refines (by simpa using he) hv).trans (service_refines h k _)

theorem write32_refines (m : Module Dev σ) (off v : U32) : Refines m (m.write32 h k off v) := by
  have hprogram : m.enable = false → ∀ m' : Module Dev σ, ∀ s : U32,
      (s = m.sizeLog2 ∨ s ≤ 10) → m'.tile = m.tile → m'.cur = m.cur →
      m'.queue = { m.queue with sizeLog2 := s, slotAddr := m'.slotAddr, tail := m.tail } →
      Refines m m' := by
    intro he m' s hs ht hc hq
    refine .step (fun ho => ho.congr ht hc) fun _ => ?_
    rw [hq]
    exact .program he s hs m'.slotAddr m.tail
  unfold Module.write32
  split
  · refine Refines.trans (tileMoved_refines [] (by simp) ?_) (irqEdge_refines h _)
    rw [List.append_nil]
    exact PtaTwin.write32_conserves k m.tile off v
  split
  · exact writeCtrl_refines h k m v
  split
  · split
    · next he => exact hprogram (by simpa using he) _ m.sizeLog2 (.inl rfl) rfl rfl rfl
    · exact .refl m
  split
  · split
    · next he => exact hprogram (by simpa using he) _ m.sizeLog2 (.inl rfl) rfl rfl rfl
    · exact .refl m
  split
  · split
    · next he => exact hprogram (by simpa using he.1) _ v (.inr he.2) rfl rfl rfl
    · exact .refl m
  split
  · exact doorbell_refines h k m v
  split
  · exact fun ho => ⟨ho.congr rfl rfl, .refl⟩
  · exact .refl m

theorem reset_refines (m : Module Dev σ) : Refines m (m.reset k) := by
  obtain ⟨hacc, hempty⟩ := PtaTwin.reset_conserves k m.tile
  have htile : Refines m (m.tileMoved (PtaTwin.reset k m.tile)) :=
    tileMoved_refines [] (by simp) (by rw [List.append_nil, hempty, List.append_nil, hacc])
  refine htile.trans (.step (fun ho => ⟨ho.tile, by simp [Module.reset]⟩) fun _ => ?_)
  have hs := Queue.Step.reset (q := (m.tileMoved (PtaTwin.reset k m.tile)).queue)
    (m.reset k).slotAddr
  have hin : inTile (PtaTwin.reset k m.tile).1 = [] := by simp [inTile, hempty]
  convert hs using 1
  simp only [Module.queue, Module.reset, Module.tileMoved, Module.drop, hin, Inflight.holder]
  rfl

theorem run_refines (m : Module Dev σ) (cycles : U64) : Refines m (m.run h k cycles) := by
  refine (service_refines h k m).trans (Refines.trans (tileMoved_refines [] (by simp) ?_)
    (service_refines h k _))
  rw [List.append_nil]
  exact PtaTwin.run_conserves k _ cycles

/-- What the tile's owner does to it is a step of the tile's. -/
theorem tileOp_refines (m : Module Dev σ) (op : TileOp) :
    Refines m (m.tileMoved (op.apply k m.tile)) := by
  have hnone : ∀ r : Twin Dev Ptr × List (Ending Ptr),
      accepted m.tile = endedCmds r.2 ++ accepted r.1 → Refines m (m.tileMoved r) :=
    fun r hr => tileMoved_refines [] (by simp) (by rw [List.append_nil, hr])
  cases op with
  | read32 off => exact hnone _ (by simp [TileOp.apply, read32_accepted])
  | write32 off v => exact hnone _ (PtaTwin.write32_conserves k m.tile off v)
  | submit c =>
    cases hok : (PtaTwin.submit k m.tile (foreignCmd c)).1 with
    | false =>
      obtain ⟨hes, hsame⟩ := submit_refused hok
      exact hnone _ (by simp [TileOp.apply, hes, hsame.accepted])
    | true =>
      refine tileMoved_refines [copyCmd (foreignCmd c)] ?_ (submit_conserves hok)
      intro c' hc'
      rw [List.mem_singleton.mp hc']
      constructor
      · show c.status.map Ptr.foreign ≠ _
        cases c.status <;> simp
      · show ownNumber (copyCmd (foreignCmd c)) = none
        have hC : (copyCmd (foreignCmd c)).C = c.C.map .foreign := rfl
        unfold ownNumber
        rw [hC]
        cases c.C <;> rfl
  | run cycles => exact hnone _ (PtaTwin.run_conserves k m.tile cycles)
  | age steps => exact hnone _ (by simp [TileOp.apply, age_accepted])
  | reset =>
    obtain ⟨hacc, hempty⟩ := PtaTwin.reset_conserves k m.tile
    exact hnone _ (by simp [TileOp.apply, hacc, hempty])

/-- **Whatever the host does, a call is a run of the protocol.** -/
theorem act_refines (m : Module Dev σ) (a : Action) : Refines m (m.act h k a) := by
  cases a with
  | read32 off =>
    show Refines m (m.read32 off).1
    unfold Module.read32
    split
    · refine fun ho => ⟨⟨?_, ho.cur⟩, ?_⟩
      · exact fun c hc => ho.tile c (read32_accepted m.tile off ▸ hc)
      · have hin : inTile (PtaTwin.read32 m.tile off).1 = inTile m.tile :=
          congrArg (List.filterMap ownNumber) (read32_accepted m.tile off)
        have hq : ({ m with tile := (PtaTwin.read32 m.tile off).1 } : Module Dev σ).queue =
            m.queue := by
          simp only [Module.queue, hin]
          rfl
        show m.queue.Steps ({ m with tile := (PtaTwin.read32 m.tile off).1 } : Module Dev σ).queue
        rw [hq]
    · exact .refl m
  | write32 off v => exact write32_refines h k m off v
  | run cycles => exact run_refines h k m cycles
  | reset => exact reset_refines k m
  | tile op => exact tileOp_refines k m op

/-- So is any sequence of calls. -/
theorem acts_refines (m : Module Dev σ) (as : List Action) : Refines m (m.acts h k as) := by
  induction as generalizing m with
  | nil => exact .refl m
  | cons a as ih => exact (act_refines h k m a).trans (ih _)

theorem new_ok (b : Build) (dev : Dev) (heap : ℕ → Bool) (s : σ) :
    (Module.new b dev heap s).Ok :=
  ⟨by simp [Module.new, accepted], by simp [Module.new]⟩

theorem new_inv (b : Build) (dev : Dev) (heap : ℕ → Bool) (s : σ) :
    (Module.new b dev heap s).queue.Inv where
  ring := by simp [Module.new, Module.queue]
  bound := by simp [Module.new, Module.queue]
  held := by simp [Module.new, Module.queue, Inflight.holder]
  status := rfl
  tile := rfl
  alone := by simp [Module.new, Module.queue]
  order := by simp [Module.new, Module.queue]

/-- The protocol's invariant holds of every module that can be reached. -/
theorem reachable_inv (b : Build) (dev : Dev) (heap : ℕ → Bool) (s : σ) (as : List Action) :
    ((Module.new b dev heap s).acts h k as).Ok ∧
      ((Module.new b dev heap s).acts h k as).queue.Inv := by
  obtain ⟨ho, hs⟩ := acts_refines h k _ as (new_ok b dev heap s)
  exact ⟨ho, Runs.reflTransGen_invariant (fun _ _ hi hs => hs.inv hi) hs (new_inv b dev heap s)⟩

end Grxcp.PtaModule
