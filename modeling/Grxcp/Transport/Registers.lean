import Grxcp.Transport.Work
import Grxcp.Transport.Memory
import Grxcp.Transport.Reads

/-!
# The registers

What the module does with a register write (`writeReg_spec`). The writes in flight lead the module to
where the host takes it to be, a write at a time (`Leads.step`).
-/

namespace Grxcp.BoardTransport

open Agenda Runs Sim

variable {s s' s₁ : Sim} {a : Activity} {e : Entry Event} {q : List (Entry Event)} {off : Reg} {val : ℕ}
  {ws : List (Reg × ℕ)}

/-! ## Writes that lead -/

/-- The module is where the writes start, for a host with no other open commands. -/
theorem Track.Starts.of_module {σ : Track} (hs : σ.Starts s) (hm : s'.module = s.module)
    (hhead : s.host.hhead ≤ s'.host.hhead) (hcmds : s'.host.cmds = s.host.cmds) : σ.Starts s' := by
  obtain ⟨hen, hbase, hsize, hseed, htail, hexact, hseeds⟩ := hs
  refine ⟨?_, ?_, ?_, ?_, ?_, ?_, fun idx c hge => ?_⟩ <;> rw [hm]
  case refine_7 => exact hcmds ▸ hseeds idx c (hhead.trans hge)
  all_goals assumption

/-- The host's own notes do not lead the writes elsewhere. -/
theorem Leads.notes (hl : Leads s ws) (hm : s'.module = s.module) (hhead : s'.host.hhead = s.host.hhead)
    (hnext : s'.host.next = s.host.next) (hcmds : s'.host.cmds = s.host.cmds) (hseed : s'.host.seed = s.host.seed) :
    Leads s' ws := by
  obtain ⟨σ, hs, halong, hen, hseed', htail⟩ := hl
  refine ⟨σ, hs.of_module hm hhead.ge hcmds, halong.mono fun σ w hw => ?_, hen, hseed'.trans hseed.symm,
    htail.trans_eq hnext.symm⟩
  obtain ⟨r, v⟩ := w
  cases r <;> simp only [Track.Ok, hhead, hnext, hcmds] at hw ⊢ <;> exact hw

/-- What the writes lead to rests on the two sides' own state. -/
theorem Leads.of_eq (h : Leads s ws) (hm : s'.module = s.module) (hh : s'.host = s.host) : Leads s' ws :=
  h.notes hm (congrArg Host.hhead hh) (congrArg Host.next hh) (congrArg Host.cmds hh) (congrArg Host.seed hh)

/-- The first of the writes is delivered. -/
theorem Leads.step (h : Leads s ((off, val) :: ws)) :
    ∃ σ : Track, σ.Starts s ∧ Track.Ok s.host σ (off, val) ∧
      ∀ s' : Sim, s'.host = s.host → (σ.apply (off, val)).Starts s' → Leads s' ws := by
  obtain ⟨σ, hs, ⟨hok, halong⟩, hen, hseed, htail⟩ := h
  refine ⟨σ, hs, hok, fun s' hh hs' => ⟨σ.apply (off, val), hs', ?_, hen, ?_, ?_⟩⟩
  · rw [hh]; exact halong
  · rw [hh]; exact hseed
  · rw [hh]; exact htail

/-! ## What a queue that is up is at -/

theorem Sim.Doing.up (hd : s.Doing a) (ht : a ≠ .torn) (hdead : a ≠ .dead) (he : s.module.enable = true) : s.Up := by
  cases a with
  | off => exact absurd (he.symm.trans hd.1) Bool.noConfusion
  | torn => exact absurd rfl ht
  | dead => exact absurd rfl hdead
  | idle | reading | shooting | recording | wedged => exact hd.1

theorem Sim.Doing.eq_off (hd : s.Doing a) (ht : a ≠ .torn) (hdead : a ≠ .dead) (he : s.module.enable = false) :
    a = .off := by
  cases a with
  | off => rfl
  | torn => exact absurd rfl ht
  | dead => exact absurd rfl hdead
  | idle | reading | shooting | recording | wedged => exact absurd (he.symm.trans hd.1.enable) Bool.noConfusion

theorem Sim.Doing.eq_wedged (hd : s.Doing a) (hdead : a ≠ .dead) (hw : s.module.wedged = true) : a = .wedged := by
  cases a with
  | wedged => rfl
  | dead => exact absurd rfl hdead
  | off => exact absurd (hw.symm.trans hd.2.2.2.1) Bool.noConfusion
  | torn => exact absurd (hw.symm.trans hd.2.2.1) Bool.noConfusion
  | idle | reading | shooting | recording => exact absurd (hw.symm.trans hd.2.2.1) Bool.noConfusion

/-- Whatever the module is at, a kick is a step of its work. -/
theorem kick_spec (hq : Queue s) (hb : Book s.host) (hd : s.Doing a) (ht : a ≠ .torn) (hdead : a ≠ .dead) :
    Worked s s.kick := by
  have hstill : s.module.enable = false ∨ s.module.busy = true ∨ s.module.wedged = true → Worked s s.kick := by
    intro h
    have hkick : s.kick = s := by
      unfold Sim.kick
      refine if_neg fun hk => ?_
      rcases h with h | h | h
      · exact Bool.false_ne_true (h.symm.trans hk.1)
      · exact hk.2.1 (.inl h)
      · exact hk.2.1 (.inr (.inr h))
    rw [hkick]
    exact ⟨hq, .refl s, rfl, rfl, a, ht, hdead, hd⟩
  cases a with
  | off => exact hstill (.inl hd.1)
  | idle => exact kick_worked hq hb hd
  | reading | shooting | recording => exact hstill (.inr (.inl hd.2.2.2.1))
  | wedged => exact hstill (.inr (.inr hd.2.2.1))
  | torn => exact absurd rfl ht
  | dead => exact absurd rfl hdead

/-! ## A write is delivered -/

/-- A register write has been taken, and the rest lead on. -/
structure Wrote (s s' : Sim) (ws : List (Reg × ℕ)) : Prop where
  queue : Queue s'
  host : s'.host = s.host
  boxes : s'.boxes = s.boxes
  boxCt : s'.boxCt = s.boxCt
  t : s'.t = s.t
  control : s'.control = s.control
  fired : ∀ c ∈ s'.fired, c = .C11 ∨ c ∈ s.fired
  doing : ∃ a, a ≠ .torn ∧ a ≠ .dead ∧ s'.Doing a ∧ (a = .wedged ∨ Leads s' ws)

theorem Wrote.of_worked (h : Worked s₁ s') (hhost : s₁.host = s.host) (hboxes : s₁.boxes = s.boxes)
    (hct : s₁.boxCt = s.boxCt)
    (ht : s₁.t = s.t) (hcontrol : s₁.control = s.control) (hfired : ∀ c ∈ s₁.fired, c = .C11 ∨ c ∈ s.fired)
    (hleads : Leads s₁ ws) : Wrote s s' ws := by
  obtain ⟨a, hat, had, hdoing⟩ := h.doing
  exact ⟨h.queue, h.host.trans hhost, h.control.boxes.trans hboxes, h.control.boxCt.trans hct, h.control.t.trans ht,
    h.control.control.trans hcontrol, fun c hc => hfired c (h.fired ▸ hc), a, hat, had, hdoing,
    .inr (h.control.leads hleads)⟩

/-- The module takes the write into its own fields, and may go on at its work. -/
theorem Wrote.of_module {m : Module} (h : Worked (s.setModule m) s') (hleads : Leads (s.setModule m) ws) :
    Wrote s s' ws :=
  .of_worked h rfl rfl rfl rfl rfl (fun _ hc => .inr hc) hleads

theorem Worked.here (hq : Queue s) (hd : s.Doing a) (ht : a ≠ .torn) (hdead : a ≠ .dead) : Worked s s :=
  ⟨hq, .refl s, rfl, rfl, a, ht, hdead, hd⟩

/-- The queue is enabled, where its tail is, or stays so. -/
theorem writeCtrl_on (hq : Queue s) (hb : Book s.host) (hd : s.Doing a) (ht : a ≠ .torn) (hdead : a ≠ .dead)
    (hl : Leads s ((.ctrl, val) :: ws)) : Wrote s (s.writeCtrl val) ws := by
  obtain ⟨σ, hs, ⟨hodd, hstart⟩, hrest⟩ := hl.step
  unfold Sim.writeCtrl
  dsimp only
  by_cases he : s.module.enable = true
  · -- no more than the interrupt's enable has changed
    rw [if_neg (fun hcond => hcond.2 he), if_neg (fun hcond => hcond.1 (decide_eq_true hodd))]
    have hsame : SameData s (s.setModule { s.module with irqEn := val / 2 % 2 = 1 }) :=
      .setModule s _ rfl rfl rfl rfl rfl rfl rfl rfl rfl rfl rfl le_rfl id
    have henable : (σ.apply (.ctrl, val)).enable = s.module.enable := (decide_eq_true hodd).trans he.symm
    exact .of_module (.here (hq.setModule _ rfl le_rfl rfl) (hsame.doing hd) ht hdead)
      (hrest _ rfl ⟨henable, hs.base, hs.size, hs.seed, hs.tail, hs.exact, hs.seeds⟩)
  · have he : s.module.enable = false := Bool.eq_false_iff.mpr he
    obtain rfl := hd.eq_off ht hdead he
    obtain ⟨-, hen, hdr, hw, hbusy, hr, hsh, hli, hfresh⟩ := hd
    obtain ⟨hexact, hbase, hsize, htail⟩ := hstart (hs.enable.trans he)
    have hmtail : s.module.tail = s.host.hhead := (hs.exact hexact).trans htail
    rw [if_pos ⟨decide_eq_true hodd, fun hon => Bool.false_ne_true (he.symm.trans hon)⟩]
    set m : Module := { s.module with
      irqEn := val / 2 % 2 = 1, enable := true, enabled := true, head := s.module.tail, prev := none,
        halted := 0 } with hm
    change Wrote s ((s.setModule m).kick) ws
    -- the ring starts where the host's first slot is
    have hidle : (s.setModule m).Doing .idle := by
      refine ⟨⟨rfl, rfl, hdr, hs.base.symm.trans hbase, hs.size.symm.trans hsize, le_rfl, hmtail.trans_le hb.le⟩,
        ⟨?_, ?_⟩, hw, hbusy, hr, hsh, hli, hmtail.ge, ?_⟩
      · exact fun idx c hge hlt _ => absurd (hlt.trans_eq hmtail) hge.not_gt
      · exact fun idx c hlt hc => hfresh idx c (hmtail.symm.trans_le hlt.le) hc
      · exact fun c hc => hfresh _ c hmtail.ge hc
    refine .of_module (kick_worked (hq.setModule _ rfl le_rfl rfl) hb hidle)
      (hrest _ rfl ⟨decide_eq_true hodd, hs.base, hs.size, hs.seed, hs.tail, hs.exact, hs.seeds⟩)

/-- The doorbell: the tail is taken, or the queue halts and leaves it. -/
theorem writeTail_spec (hq : Queue s) (hb : Book s.host) (hd : s.Doing a) (ht : a ≠ .torn) (hdead : a ≠ .dead)
    (hl : Leads s ((.tail, val) :: ws)) : Wrote s (s.writeTail val) ws := by
  obtain ⟨σ, hs, ⟨hle, hnext, hseeds⟩, hrest⟩ := hl.step
  have hseeds' : ∀ idx c, s.host.hhead ≤ idx → idx < val → s.host.cmds idx = some c → c.seed = s.module.seed :=
    fun idx c hge hlt hc => (hseeds idx c hge hlt hc).trans hs.seed
  unfold Sim.writeTail
  dsimp only
  by_cases he : s.module.enable = true
  · have hσ : σ.enable = true := hs.enable.trans he
    rw [if_neg (not_not.mpr he)]
    split
    · have hsame : SameData s (s.setModule { s.module with halted := 1 }) :=
        .setModule s _ rfl rfl rfl rfl rfl rfl rfl rfl rfl rfl rfl le_rfl id
      refine .of_module (.here (hq.setModule _ rfl le_rfl rfl) (hsame.doing hd) ht hdead)
        (hrest _ rfl ⟨hs.enable, hs.base, hs.size, hs.seed, hs.tail.trans hle, fun hex => ?_, hs.seeds⟩)
      exact absurd (hσ.symm.trans (Bool.not_eq_true' _ ▸ hex)) Bool.noConfusion
    · have hsame : SameData s (s.setModule { s.module with tail := val }) :=
        .setModule s _ rfl rfl rfl rfl rfl rfl rfl rfl rfl rfl rfl (hs.tail.trans hle) fun _ => hnext
      exact .of_module (kick_spec (hq.setModule _ rfl le_rfl rfl) hb (hsame.doing hd) ht hdead)
        (hrest _ rfl ⟨hs.enable, hs.base, hs.size, hs.seed, le_rfl, fun _ => rfl, hseeds'⟩)
  · rw [if_pos he]
    have hsame : SameData s (s.setModule { s.module with tail := val }) :=
      .setModule s _ rfl rfl rfl rfl rfl rfl rfl rfl rfl rfl rfl (hs.tail.trans hle) fun _ => hnext
    exact .of_module (.here (hq.setModule _ rfl le_rfl rfl) (hsame.doing hd) ht hdead)
      (hrest _ rfl ⟨hs.enable, hs.base, hs.size, hs.seed, le_rfl, fun _ => rfl, hseeds'⟩)

/-- The ring's place is written, which only a queue that is off takes. -/
theorem Wrote.placed (base size : ℕ) (hq : Queue s) (hd : s.Doing a) (ht : a ≠ .torn) (hdead : a ≠ .dead)
    (hon : s.module.enable = true → Leads s ws)
    (hoff : s.module.enable = false → Leads (s.setModule { s.module with base := base, sizeLog2 := size }) ws) :
    Wrote s (if s.module.enable then s else s.setModule { s.module with base := base, sizeLog2 := size }) ws := by
  by_cases he : s.module.enable = true
  · rw [if_pos he]
    exact .of_worked (.here hq hd ht hdead) rfl rfl rfl rfl rfl (fun _ hc => .inr hc) (hon he)
  · have he' : s.module.enable = false := Bool.eq_false_iff.mpr he
    obtain rfl := hd.eq_off ht hdead he'
    rw [if_neg he]
    obtain ⟨hen, hend, hdr, hw, hbusy, hr, hsh, hli, hfresh⟩ := hd
    have hdoing : (s.setModule { s.module with base := base, sizeLog2 := size }).Doing .off :=
      ⟨hen, hend, hdr, hw, hbusy, hr, hsh, hli, hfresh⟩
    exact .of_module (.here (hq.setModule _ rfl le_rfl rfl) hdoing ht hdead) (hoff he')

/-- The seed is written: it is that of every command behind the tail. -/
theorem writeSeed_spec (hq : Queue s) (hd : s.Doing a) (ht : a ≠ .torn) (hdead : a ≠ .dead)
    (hl : Leads s ((.seed, val) :: ws))
    (hs₁ : s₁ = s ∨ s₁ = s.fail .C11) : Wrote s (s₁.setModule { s₁.module with seed := val, gemmCt := 0 }) ws := by
  obtain ⟨σ, hs, hok, hrest⟩ := hl.step
  have hseeds : ∀ idx c, s.host.hhead ≤ idx → idx < s.module.tail → s.host.cmds idx = some c → c.seed = val :=
    fun idx c hge hlt hc => hok idx c hge (hlt.trans_le hs.tail) hc
  have hsame : SameData s (s.setModule { s.module with seed := val, gemmCt := 0 }) :=
    .setModule s _ rfl rfl rfl rfl rfl rfl rfl rfl rfl rfl rfl le_rfl id
  have hwrote : Wrote s (s.setModule { s.module with seed := val, gemmCt := 0 }) ws :=
    .of_module (.here (hq.setModule _ rfl le_rfl rfl) (hsame.doing hd) ht hdead)
      (hrest _ rfl ⟨hs.enable, hs.base, hs.size, rfl, hs.tail, hs.exact, hseeds⟩)
  rcases hs₁ with rfl | rfl
  · exact hwrote
  -- a check that fires is no matter of either side
  obtain ⟨hqueue, hhost, hboxes, hct, htt, hcontrol, hfired, a', ht', hdead', hdoing, hleads⟩ := hwrote
  set s₂ := s.setModule { s.module with seed := val, gemmCt := 0 } with hs₂
  have hsame₂ : SameData s₂ (s₂.fail .C11) := .beside rfl rfl rfl rfl rfl rfl rfl rfl rfl rfl
  refine ⟨?_, hhost, hboxes, hct, htt, hcontrol, fun c hc => Finset.mem_insert.mp hc, a', ht', hdead',
    hsame₂.doing hdoing, hleads.imp_right fun hl => hl.of_eq rfl rfl⟩
  exact hqueue.move rfl rfl rfl rfl rfl (fun _ _ => ⟨rfl, rfl⟩) le_rfl (fun _ _ => rfl) rfl le_rfl rfl

/-- The base is written, its low or its high half. -/
theorem writeBase_spec (hq : Queue s) (hd : s.Doing a) (ht : a ≠ .torn) (hdead : a ≠ .dead) (half : ℕ → ℕ)
    (happly : ∀ σ : Track, σ.apply (off, val) = if σ.enable then σ else { σ with base := half σ.base })
    (hl : Leads s ((off, val) :: ws)) :
    Wrote s (if s.module.enable then s else s.setModule { s.module with base := half s.module.base }) ws := by
  obtain ⟨σ, hs, -, hrest⟩ := hl.step
  refine .placed (half s.module.base) s.module.sizeLog2 hq hd ht hdead (fun he => hrest s rfl ?_) fun he =>
    hrest _ rfl ?_
  · rw [happly, if_pos (hs.enable.trans he)]
    exact hs
  · rw [happly, if_neg fun hon => Bool.false_ne_true ((hs.enable.trans he).symm.trans hon)]
    exact ⟨hs.enable, congrArg half hs.base, hs.size, hs.seed, hs.tail, hs.exact, hs.seeds⟩

theorem writeSize_spec (hq : Queue s) (hd : s.Doing a) (ht : a ≠ .torn) (hdead : a ≠ .dead)
    (hl : Leads s ((.size, val) :: ws)) :
    Wrote s (if s.module.enable then s else s.setModule { s.module with sizeLog2 := val }) ws := by
  obtain ⟨σ, hs, -, hrest⟩ := hl.step
  have happly : σ.apply (.size, val) = if σ.enable then σ else { σ with size := val } := rfl
  refine .placed s.module.base val hq hd ht hdead (fun he => hrest s rfl ?_) fun he => hrest _ rfl ?_
  · rw [happly, if_pos (hs.enable.trans he)]
    exact hs
  · rw [happly, if_neg fun hon => Bool.false_ne_true ((hs.enable.trans he).symm.trans hon)]
    exact ⟨hs.enable, hs.base, rfl, hs.seed, hs.tail, hs.exact, hs.seeds⟩

/-- A register that the module's work does not look at, or that takes no write. -/
theorem writeIdle_spec (hq : Queue s) (hd : s.Doing a) (ht : a ≠ .torn) (hdead : a ≠ .dead) (irqAt : ℕ)
    (happly : ∀ σ : Track, σ.apply (off, val) = σ) (hl : Leads s ((off, val) :: ws)) :
    Wrote s (s.setModule { s.module with irqAt := irqAt }) ws := by
  obtain ⟨σ, hs, -, hrest⟩ := hl.step
  have hsame : SameData s (s.setModule { s.module with irqAt := irqAt }) :=
    .setModule s _ rfl rfl rfl rfl rfl rfl rfl rfl rfl rfl rfl le_rfl id
  refine .of_module (.here (hq.setModule _ rfl le_rfl rfl) (hsame.doing hd) ht hdead) (hrest _ rfl ?_)
  rw [happly]
  exact ⟨hs.enable, hs.base, hs.size, hs.seed, hs.tail, hs.exact, hs.seeds⟩

/-- A register write, where the writes lead on or the module does not answer. -/
theorem writeReg_spec (hq : Queue s) (hb : Book s.host) (hd : s.Doing a) (ht : a ≠ .torn) (hdead : a ≠ .dead)
    (hl : a = .wedged ∨ Leads s ((off, val) :: ws)) : Wrote s (s.writeReg off val) ws := by
  unfold Sim.writeReg
  dsimp only
  by_cases hwed : s.module.wedged = true
  · rw [if_pos hwed]
    exact ⟨hq, rfl, rfl, rfl, rfl, rfl, fun _ hc => .inr hc, a, ht, hdead, hd, .inl (hd.eq_wedged hdead hwed)⟩
  rw [if_neg hwed]
  replace hl := hl.resolve_left fun hw => hwed (by subst hw; exact hd.2.2.1)
  cases off with
  | ctrl => exact writeCtrl_on hq hb hd ht hdead hl
  | tail => exact writeTail_spec hq hb hd ht hdead hl
  | status => exact writeIdle_spec hq hd ht hdead s.module.irqAt (fun _ => rfl) hl
  | head => exact writeIdle_spec hq hd ht hdead s.module.irqAt (fun _ => rfl) hl
  | irqAt => exact writeIdle_spec hq hd ht hdead val (fun _ => rfl) hl
  | baseLo => exact writeBase_spec hq hd ht hdead (fun b => b / 2 ^ 32 * 2 ^ 32 ||| val) (fun _ => rfl) hl
  | baseHi => exact writeBase_spec hq hd ht hdead (fun b => b % 2 ^ 32 ||| val * 2 ^ 32) (fun _ => rfl) hl
  | size => exact writeSize_spec hq hd ht hdead hl
  | seed =>
    dsimp only
    split
    · exact writeSeed_spec hq hd ht hdead hl (.inr rfl)
    · exact writeSeed_spec hq hd ht hdead hl (.inl rfl)

end Grxcp.BoardTransport
