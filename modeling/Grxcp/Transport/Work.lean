import Grxcp.Transport.Frame

/-!
# The module's work

One command at a time, each stage begins with nothing of the stage before in flight: the queue is
kicked into a read of the descriptor, the descriptor into a record or a read of the operands, and the
operands into shots.
-/

namespace Grxcp.BoardTransport

open Agenda Runs Sim

variable {s s' : Sim} {a : Activity} {c : Published}

/-! ## Reads -/

namespace Sim

/-- Asking for lines changes the agenda and the draws. -/
theorem askLines_eq (g : ℕ) (addrs : List ℕ) (s : Sim) :
    ∃ q n d, askLines g addrs s = { s with q := q, n := n, drawn := d } := by
  induction addrs generalizing s with
  | nil => exact ⟨s.q, s.n, s.drawn, rfl⟩
  | cons x addrs ih =>
    obtain ⟨q, n, d, h⟩ := ih (s.draw.after s.lag 1 (.atHost g x))
    exact ⟨q, n, d, h⟩

theorem has_askLines (g : ℕ) (addrs : List ℕ) (s : Sim) (fn : Event) :
    (askLines g addrs s).Has fn ↔ s.Has fn ∨ ∃ x ∈ addrs, fn = .atHost g x := by
  induction addrs generalizing s with
  | nil => simp only [askLines, List.not_mem_nil, false_and, exists_false, or_false]
  | cons x addrs ih =>
    unfold askLines
    rw [ih, has_after]
    simp only [List.mem_cons, exists_eq_or_imp]
    change (fn = _ ∨ s.Has fn) ∨ _ ↔ _
    tauto

theorem countOf_askLines (g : ℕ) (addrs : List ℕ) (s : Sim) (p : Event → Bool) :
    (askLines g addrs s).countOf p = s.countOf p + addrs.countP fun x => p (.atHost g x) := by
  induction addrs generalizing s with
  | nil => rfl
  | cons x addrs ih =>
    unfold askLines
    rw [ih, countOf_after, List.countP_cons, Nat.add_assoc, Nat.add_comm (List.countP _ _)]
    rfl

theorem control_askLines (g : ℕ) (addrs : List ℕ) (s : Sim) : (askLines g addrs s).control = s.control := by
  induction addrs generalizing s with
  | nil => rfl
  | cons x addrs ih =>
    unfold askLines
    rw [ih, control_after rfl]
    rfl

/-- A read's closures are new, and the rest of the state is as it was. -/
theorem readLines_eq (s : Sim) (addrs : List ℕ) (next : Next) :
    ∃ q n d, s.readLines addrs next = { s with
      q := q, n := n, drawn := d, readCt := s.readCt + 1,
      reads := Function.update s.reads s.readCt ⟨addrs, next, s.module.job, s.module.gen, []⟩ } :=
  askLines_eq _ _ _

end Sim

theorem Queue.askLines {g : ℕ} (addrs : List ℕ) (h : Queue s) (hg : g < s.readCt) : Queue (askLines g addrs s) := by
  induction addrs generalizing s with
  | nil => exact h
  | cons x addrs ih =>
    refine ih (Queue.after (s := s.draw) ?_ ((show 1 ≤ L by decide).trans (Nat.le_add_right L _))
      (fun hl => Bool.noConfusion hl)
      (fun _ _ he => Event.noConfusion he) rfl hg) hg
    exact h.move rfl rfl rfl rfl rfl (fun _ _ => ⟨rfl, rfl⟩) le_rfl (fun _ _ => rfl) rfl le_rfl rfl

theorem Queue.readLines (h : Queue s) (addrs : List ℕ) (next : Next) : Queue (s.readLines addrs next) := by
  refine Queue.askLines addrs ?_ (Nat.lt_succ_self _)
  refine ⟨h.sorted, h.num, h.due, h.soon, h.lands, fun e he => ?_, h.inflight, fun g hg => ?_⟩
  · exact (h.ok e he).mono (Nat.le_succ _) le_rfl (fun _ _ => rfl) rfl le_rfl
  · change (Function.update s.reads s.readCt (⟨addrs, next, s.module.job, s.module.gen,
      []⟩ : ReadLines) g).gen ≤ s.module.gen ∧
      ((Function.update s.reads s.readCt (⟨addrs, next, s.module.job, s.module.gen,
      []⟩ : ReadLines) g).gen = s.module.gen →
        (Function.update s.reads s.readCt (⟨addrs, next, s.module.job, s.module.gen,
        []⟩ : ReadLines) g).job ≤ s.module.job)
    by_cases hnew : g = s.readCt
    · subst hnew
      rw [Function.update_self]
      exact ⟨le_rfl, fun _ => le_rfl⟩
    · rw [Function.update_of_ne hnew]
      exact h.jobs g (lt_of_le_of_ne (Nat.le_of_lt_succ hg) hnew)

theorem SameControl.readLines (s : Sim) (addrs : List ℕ) (next : Next) : SameControl s (s.readLines addrs next) := by
  have hctl : (s.readLines addrs next).control = s.control := control_askLines _ _ _
  obtain ⟨q, n, d, h⟩ := s.readLines_eq addrs next
  rw [h] at hctl ⊢
  exact ⟨rfl, rfl, rfl, rfl, rfl, rfl, rfl, rfl, rfl, rfl, rfl, rfl, rfl, hctl⟩

/-- What is in flight after a read has been asked for. -/
theorem has_readLines {addrs : List ℕ} {next : Next} {fn : Event} :
    (s.readLines addrs next).Has fn ↔ s.Has fn ∨ ∃ x ∈ addrs, fn = .atHost s.readCt x :=
  has_askLines _ _ _ _

/-- The command at `head` is at work, with nothing of the module's in flight. -/
structure Between (s : Sim) (c : Published) : Prop where
  up : s.Up
  front : s.Front
  wedged : s.module.wedged = false
  busy : s.module.busy = true
  reads : s.NoReads
  shots : s.NoShots
  quiet : s.NoLines
  hhead : s.host.hhead ≤ s.module.head
  tail : s.module.head < s.module.tail
  cmd : s.host.cmds s.module.head = some c

/-- A new read, of lines that each come once. -/
theorem Between.readLines (h : Between s c) (hq : Queue s) (hfresh : Fresh s.mem s.module.head c) {addrs : List ℕ}
    {next : Next} (hnodup : addrs.Nodup) (hwhat : s.ReadsFor c ⟨addrs, next, s.module.job, s.module.gen, []⟩) :
    (s.readLines addrs next).Doing (.reading s.readCt) := by
  have hhas : ∀ fn, (s.readLines addrs next).Has fn ↔ s.Has fn ∨ ∃ x ∈ addrs, fn = .atHost s.readCt x :=
    fun _ => has_readLines
  have hcount : (s.readLines addrs next).countOf (Event.isRead s.readCt) = s.countOf
    (Event.isRead s.readCt) + addrs.length := by
    have hall : addrs.countP (fun x => Event.isRead s.readCt (.atHost s.readCt x)) = addrs.length :=
      List.countP_eq_length.mpr fun x _ => decide_eq_true rfl
    refine (countOf_askLines _ _ _ _).trans ?_
    rw [hall]
    rfl
  -- nothing in flight has a number that has not been given out
  have hnone : s.countOf (Event.isRead s.readCt) = 0 := by
    refine List.countP_eq_zero.mpr fun e he hr => ?_
    have hok := hq.ok e he
    cases hfn : e.fn <;> rw [hfn] at hr hok <;>
      first
        | exact absurd hr Bool.false_ne_true
        | exact absurd (of_decide_eq_true hr) (Nat.ne_of_lt hok)
  obtain ⟨q, n, d, hstate⟩ := s.readLines_eq addrs next
  rw [hstate] at hhas hcount ⊢
  have hlive : ∀ g, g ≠ s.readCt →
      ((Function.update s.reads s.readCt ⟨addrs, next, s.module.job, s.module.gen, []⟩ : ℕ →
      ReadLines) g) = s.reads g :=
    fun g hg => Function.update_of_ne hg _ _
  have hself : (Function.update s.reads s.readCt ⟨addrs, next, s.module.job, s.module.gen, []⟩ : ℕ →
    ReadLines) s.readCt =
      ⟨addrs, next, s.module.job, s.module.gen, []⟩ := Function.update_self _ _ _
  refine ⟨h.up.keep rfl, ⟨h.front.before, h.front.later⟩,
    h.wedged, h.busy, ?_, ?_, h.hhead, h.tail, c, h.cmd, hfresh, ?_⟩
  · intro r m hs
    rcases (hhas _).mp hs with hs | ⟨_, _, hs⟩
    · exact h.shots r m hs
    · exact Event.noConfusion hs
  · refine ⟨fun gen x hs => ?_, fun x data hs => ?_⟩
    · rcases (hhas _).mp hs with hs | ⟨_, _, hs⟩
      · exact h.quiet.1 gen x hs
      · exact Event.noConfusion hs
    · rcases (hhas _).mp hs with hs | ⟨_, _, hs⟩
      · exact h.quiet.2 x data hs
      · exact Event.noConfusion hs
  · constructor
    case lt => exact Nat.lt_succ_self _
    case live =>
      unfold Live
      dsimp only
      rw [hself]
      exact ⟨rfl, rfl⟩
    case only =>
      rintro g hl ⟨x, hx⟩
      by_contra hg
      unfold Live at hl
      dsimp only at hl
      rw [hlive g hg] at hl
      obtain ⟨hno, hno'⟩ := h.reads g hl
      rcases hx with hx | ⟨data, hx⟩
      · rcases (hhas _).mp hx with hx | ⟨_, _, hx⟩
        · exact hno x hx
        · exact hg (Event.atHost.inj hx).1
      · rcases (hhas _).mp hx with hx | ⟨_, _, hx⟩
        · exact hno' x data hx
        · exact Event.noConfusion hx
    case count =>
      rw [hcount, hnone]
      dsimp only
      rw [hself]
      exact (Nat.zero_add _).le
    case nodup =>
      dsimp only
      rw [hself]
      exact hnodup
    case asked =>
      intro x hx
      dsimp only
      rw [hself]
      rcases (hhas _).mp hx with hx | ⟨y, hy, hx⟩
      · obtain ⟨e, he, hfn⟩ := hx
        have hok := hq.ok e he
        rw [hfn] at hok
        exact absurd hok (Nat.lt_irrefl _)
      · obtain ⟨-, rfl⟩ := Event.atHost.inj hx
        exact hy
    case coming =>
      intro x data hx
      rcases (hhas _).mp hx with hx | ⟨y, hy, hx⟩
      · obtain ⟨e, he, hfn⟩ := hx
        have hok := hq.ok e he
        rw [hfn] at hok
        exact absurd hok (Nat.lt_irrefl _)
      · exact Event.noConfusion hx
    case got =>
      intro x hx
      dsimp only at hx
      rw [hself] at hx
      exact absurd hx List.not_mem_nil
    case keys =>
      dsimp only
      rw [hself]
      exact List.nodup_nil
    case what =>
      dsimp only
      rw [hself]
      exact hwhat

/-! ## The queue is kicked -/

theorem slot_eq (h : s.Up) (idx : ℕ) : s.slot idx = slotAddr idx := by
  unfold Sim.slot slotAddr
  rw [h.base, h.size]

/-- The module has gone on at its work: nothing of the register side has changed. -/
structure Worked (s s' : Sim) : Prop where
  queue : Queue s'
  control : SameControl s s'
  host : s'.host = s.host
  fired : s'.fired = s.fired
  doing : ∃ a, a ≠ .torn ∧ a ≠ .dead ∧ s'.Doing a

theorem SameControl.refl (s : Sim) : SameControl s s :=
  .beside rfl rfl rfl rfl rfl rfl

theorem SameControl.trans {s'' : Sim} (h : SameControl s s') (h' : SameControl s' s'') : SameControl s s'' :=
  ⟨h'.enable.trans h.enable, h'.base.trans h.base, h'.size.trans h.size, h'.seed.trans h.seed, h'.tail.trans h.tail,
    h'.hhead.trans h.hhead, h'.next.trans h.next, h'.cmds.trans h.cmds, h'.hseed.trans h.hseed, h'.phase.trans h.phase,
    h'.boxes.trans h.boxes, h'.boxCt.trans h.boxCt, h'.t.trans h.t, h'.control.trans h.control⟩

/-- The module's own fields that the registers do not have. -/
theorem SameControl.setModule (s : Sim) (m : Module) (henable : m.enable = s.module.enable)
    (hbase : m.base = s.module.base)
    (hsize : m.sizeLog2 = s.module.sizeLog2) (hseed : m.seed = s.module.seed) (htail : m.tail = s.module.tail) :
    SameControl s (s.setModule m) :=
  ⟨henable, hbase, hsize, hseed, htail, rfl, rfl, rfl, rfl, rfl, rfl, rfl, rfl, rfl⟩

theorem Worked.of {s₀ : Sim} (h : Worked s s') (hctl : SameControl s₀ s) (hhost : s.host = s₀.host)
    (hfired : s.fired = s₀.fired) :
    Worked s₀ s' :=
  ⟨h.queue, hctl.trans h.control, h.host.trans hhost, h.fired.trans hfired, h.doing⟩

/-- A new read, as a step of the work. -/
theorem Between.worked_readLines (h : Between s c) (hq : Queue s) (hfresh : Fresh s.mem s.module.head c)
    {addrs : List ℕ}
    {next : Next} (hnodup : addrs.Nodup) (hwhat : s.ReadsFor c ⟨addrs, next, s.module.job, s.module.gen, []⟩) :
    Worked s (s.readLines addrs next) := by
  have hdoing := h.readLines hq hfresh hnodup hwhat
  have hctl := SameControl.readLines s addrs next
  have hqueue := hq.readLines addrs next
  obtain ⟨q, n, d, hstate⟩ := s.readLines_eq addrs next
  exact ⟨hqueue, hctl, by rw [hstate], by rw [hstate], _, Activity.noConfusion, Activity.noConfusion, hdoing⟩

/-- A kick leaves the queue as it is, or starts to read the slot at `head`. -/
theorem kick_worked (hq : Queue s) (hb : Book s.host) (h : s.Doing .idle) : Worked s s.kick := by
  unfold Sim.kick
  split
  case isFalse => exact ⟨hq, .refl s, rfl, rfl, .idle, Activity.noConfusion, Activity.noConfusion, h⟩
  case isTrue hk =>
    obtain ⟨hup, hfront, hw, hbusy, hreads, hshots, hlines, hle, hfresh⟩ := h
    have hlt : s.module.head < s.module.tail := lt_of_le_of_ne hup.tail hk.2.2
    obtain ⟨c, hc⟩ := hb.cmds s.module.head (hlt.trans_le hup.next)
    have hbetween : Between (s.setModule { s.module with busy := true }) c :=
      ⟨hup.keep rfl, ⟨hfront.before, hfront.later⟩, hw, rfl, hreads, hshots, hlines, hle, hlt, hc⟩
    dsimp only
    rw [show (s.setModule { s.module with busy := true }).module.head = s.module.head from rfl, slot_eq hbetween.up]
    exact (hbetween.worked_readLines (hq.setModule _ rfl le_rfl rfl) (hfresh c hc) (List.nodup_singleton _)
      (.inl ⟨rfl, rfl⟩)).of (.setModule s _ rfl rfl rfl rfl rfl) rfl rfl

/-! ## The record -/

theorem has_writeLine {addr : ℕ} {data : Line} {x : After} {fn : Event} :
    (s.writeLine addr data x).Has fn ↔ fn = .go s.module.gen x ∨ fn = .land addr data ∨ s.Has fn := by
  unfold Sim.writeLine
  dsimp only
  rw [has_after, has_after]
  rfl

theorem countOf_writeLine {addr : ℕ} {data : Line} {x : After} (p : Event → Bool) :
    (s.writeLine addr data x).countOf p =
      s.countOf p + (if p (.land addr data) then 1 else 0) + if p (.go s.module.gen x) then 1 else 0 := by
  unfold Sim.writeLine
  dsimp only
  rw [countOf_after, countOf_after]
  rfl

theorem SameControl.writeLine (s : Sim) (addr : ℕ) (data : Line) (x : After) : SameControl s
    (s.writeLine addr data x) := by
  refine ⟨rfl, rfl, rfl, rfl, rfl, rfl, rfl, rfl, rfl, rfl, rfl, rfl, rfl, ?_⟩
  unfold Sim.writeLine
  dsimp only
  rw [control_after rfl, control_after rfl]
  rfl

theorem countOf_isGo_of_noLines (h : s.NoLines) : s.countOf Event.isGo = 0 := by
  refine List.countP_eq_zero.mpr fun e he hgo => ?_
  cases hfn : e.fn <;> rw [hfn] at hgo <;> first | exact absurd hgo Bool.false_ne_true | exact h.1 _ _ ⟨e, he, hfn⟩

theorem countOf_isLand_of_noLines (h : s.NoLines) : s.countOf Event.isLand = 0 := by
  refine List.countP_eq_zero.mpr fun e he hland => ?_
  cases hfn : e.fn <;> rw [hfn] at hland <;> first | exact absurd hland Bool.false_ne_true | exact h.2 _ _ ⟨e, he, hfn⟩

/-- A record is written for the command at `head`. -/
theorem Between.endSlot (h : Between s c) (hq : Queue s) (hslot : s.mem (slotAddr s.module.head) = c.desc)
    {st index : ℕ} (htold : Told s.mem c st index) : Worked s (s.endSlot s.module.head c.desc st index) := by
  unfold Sim.endSlot
  rw [slot_eq h.up]
  refine ⟨hq.writeLine ⟨rfl, le_rfl⟩, .writeLine _ _ _ _, rfl, rfl, .recording st index, Activity.noConfusion,
    Activity.noConfusion, ?_⟩
  refine ⟨h.up.keep rfl, ⟨h.front.before, h.front.later⟩,
    h.wedged, h.busy, ?_, ?_, h.hhead.trans (Nat.le_succ _), h.tail, c, h.cmd, htold, ?_, ?_,
    fun _ => .inr ⟨hslot, ?_⟩, ?_, ?_⟩
  · intro g hl
    obtain ⟨hno, hno'⟩ := h.reads g hl
    exact ⟨fun x hx => hno x (by simpa [has_writeLine] using hx), fun x d hx =>
      hno' x d (by simpa [has_writeLine] using hx)⟩
  · exact fun r m hs => h.shots r m (by simpa [has_writeLine] using hs)
  · intro gen x hx
    rcases has_writeLine.mp hx with hx | hx | hx
    · exact (Event.go.inj hx).2
    · exact Event.noConfusion hx
    · exact absurd hx (h.quiet.1 gen x)
  · rw [countOf_writeLine, countOf_isGo_of_noLines h.quiet]
    rfl
  · exact has_writeLine.mpr (.inr (.inl rfl))
  · rw [countOf_writeLine, countOf_isLand_of_noLines h.quiet]
    exact le_rfl
  · intro x d hx
    rcases has_writeLine.mp hx with hx | hx | hx
    · exact Event.noConfusion hx
    · obtain ⟨rfl, rfl⟩ := Event.land.inj hx
      exact ⟨rfl, rfl, h.hhead, hslot⟩
    · exact absurd hx (h.quiet.2 x d)

/-! ## The descriptor is here -/

/-- The fields of a command's descriptor, as the module unpacks them. -/
theorem Published.Wf.fields (h : c.Wf) :
    u32 c.desc 12 = c.M ∧ u32 c.desc 16 = c.K ∧ u32 c.desc 20 = c.N ∧ u64 c.desc 24 = c.act ∧ u64 c.desc 32 = c.wgt ∧
      u64 c.desc 40 = c.out := by
  obtain ⟨-, -, -, hM, hK, hN, hact, hwgt, hout, -⟩ :=
    packDesc_fields (2 ^ 16 + 64) (c.bank * 2 ^ 8 ||| c.flags) c.fmt c.M c.K c.N c.act c.wgt c.out
  rw [h.desc, hM, hK, hN, hact, hwgt, hout]
  have htop : c.out + c.outLines * 64 ≤ 2 ^ 64 := h.below
  have hw : c.wgt = c.act + lines (c.M * c.K) * 64 := h.wgt
  have ho : c.out = c.wgt + lines (c.K * c.N) * 64 := h.out
  have hlines : 0 < c.outLines := by
    rw [h.outLines]
    have hpos : 0 < c.M * c.N := Nat.mul_pos h.pos.1 h.pos.2.2
    unfold lines
    exact Nat.div_pos (by change 64 ≤ c.M * c.N * 4 + 63; omega) (by decide)
  have hM' := h.fits.1
  have hN' := h.fits.2.1
  have hK' := h.inner
  refine ⟨Nat.mod_eq_of_lt hM', Nat.mod_eq_of_lt (by omega), Nat.mod_eq_of_lt hN', Nat.mod_eq_of_lt ?_,
    Nat.mod_eq_of_lt ?_, Nat.mod_eq_of_lt ?_⟩ <;> omega

/-- The lines of a command's operands are read once each. -/
theorem Published.Wf.operands_nodup (h : c.Wf) : (weightLines c ++ activationLines c).Nodup := by
  have hw := h.wgt
  have hinj : ∀ base, Function.Injective fun i => base + i * LINE := by
    intro base i j hij
    have hij' : base + i * 64 = base + j * 64 := hij
    omega
  refine List.nodup_append.mpr ⟨List.nodup_range.map (hinj _), List.nodup_range.map (hinj _), ?_⟩
  intro x hx y hy
  obtain ⟨i, -, rfl⟩ := List.mem_map.mp hx
  obtain ⟨j, hj, rfl⟩ := List.mem_map.mp hy
  have hj' := List.mem_range.mp hj
  have hmul : j * 64 < lines (c.M * c.K) * 64 := Nat.mul_lt_mul_of_pos_right hj' (by decide)
  change c.wgt + i * 64 ≠ c.act + j * 64
  change c.wgt = c.act + lines (c.M * c.K) * 64 at hw
  omega

/-- What the module does with the descriptor: it stops answering, records that the command has not run, or
reads the operands. -/
theorem Between.gotDescriptor (h : Between s c) (hq : Queue s) (hwf : c.Wf) (hseed : c.seed = s.module.seed)
    (hfresh : Fresh s.mem s.module.head c) : Worked s (s.gotDescriptor c.desc s.module.head) := by
  have hnot : ∀ st, st = REFUSED ∨ st = NOT_ISSUED ∨ st = NOT_RUN →
    Worked s (s.endSlot s.module.head c.desc st NO_INDEX) :=
    fun st hst => h.endSlot hq hfresh.1 (.inr ⟨hst, rfl, hfresh.2.1⟩)
  unfold Sim.gotDescriptor
  by_cases hwedge : s.module.wedgeAt = some s.module.head
  · rw [if_pos hwedge]
    refine ⟨hq.setModule _ rfl le_rfl rfl, .setModule _ _ rfl rfl rfl rfl rfl, rfl, rfl, .wedged, Activity.noConfusion,
      Activity.noConfusion, ?_⟩
    refine ⟨h.up.keep rfl, ⟨h.front.before, h.front.later⟩, rfl, h.reads, h.shots, h.quiet, h.hhead, ?_⟩
    intro c' hc'
    obtain rfl := Option.some.inj (h.cmd.symm.trans hc')
    exact hfresh
  rw [if_neg hwedge]
  by_cases husable : usable c.desc
  case neg =>
    rw [if_pos husable]
    exact hnot _ (.inr (.inl rfl))
  rw [if_neg (not_not.mpr husable)]
  by_cases hbank : BANKS ≤ u32 c.desc 4 / 2 ^ 8 % 2 ^ 8
  · rw [if_pos hbank]
    exact hnot _ (.inl rfl)
  rw [if_neg hbank]
  by_cases hrun : u32 c.desc 4 / 2 ^ 16 * 2 ^ 16 = AFTER_SUCCESS ∧ s.module.prev ≠ none ∧ s.module.prev ≠ some DONE
  · rw [if_pos hrun]
    exact hnot _ (.inr (.inr rfl))
  rw [if_neg hrun]
  obtain ⟨hM, hK, hN, hact, hwgt, hout⟩ := hwf.fields
  rw [hM, hK, hN, hact, hwgt, hout]
  unfold Sim.start
  dsimp only
  have hbetween : Between (s.setModule { s.module with gemmCt := s.module.gemmCt + 1 }) c :=
    ⟨h.up.keep rfl, ⟨h.front.before, h.front.later⟩,
      h.wedged, h.busy, h.reads, h.shots, h.quiet, h.hhead, h.tail, h.cmd⟩
  refine (hbetween.worked_readLines (hq.setModule _ rfl le_rfl rfl) hfresh hwf.operands_nodup
    (.inr ⟨s.module.gemmCt, ?_, rfl⟩)).of (.setModule s _ rfl rfl rfl rfl rfl) rfl rfl
  rw [hseed]
  rfl

end Grxcp.BoardTransport
