import Grxcp.Transport.Teardown

/-!
# The transport is safe

Every move of a run keeps what holds in every state (`step_spec`), so in every state that a run by the
driver's rules reaches, whatever the delays of the link and whatever the script calls and when, none of the
checks has fired that the two sides answer for (`Reached.checks_hold`).
-/

namespace Grxcp.BoardTransport

open Agenda Runs Sim

variable {s s' : Sim} {a : Activity} {rng : ℕ → Fin (JITTER + 1)} {seed : ℕ}

/-! ## The clock -/

/-- Time passes, and nothing else. -/
theorem Sim.Safe.clock (h : s.Safe a) {t : ℕ} {turn : Bool} (ht : s.t ≤ t) (hdue : ∀ e ∈ s.q, t + turn.toNat ≤ e.due) :
    Sim.Safe { s with t := t, turn := turn } a := by
  have hsame : SameData s { s with t := t, turn := turn } :=
    .beside rfl rfl rfl rfl rfl rfl rfl rfl rfl rfl
  have hq := h.queue
  refine ⟨⟨hq.sorted, hq.num, hdue, fun e he hl => ?_, hq.lands, fun e he => ?_, hq.inflight, hq.jobs⟩, h.book,
    hsame.doing h.doing, ⟨fun e he hw => ?_, h.wires.boxes, h.wires.asked, ?_⟩, h.clean⟩
  · exact (hq.soon e he hl).trans (Nat.add_le_add_right ht _)
  · exact (hq.ok e he).mono le_rfl le_rfl (fun _ _ => rfl) rfl le_rfl
  · exact (h.wires.due e he hw).imp_right fun hd => hd.trans (Nat.add_le_add_right ht _)
  have hphase := h.wires.phase
  change Sim.InPhase _ _ s.host.phase
  cases hp : s.host.phase with
  | script =>
    rw [hp] at hphase
    obtain ⟨htorn, hdead, hans, hreset, hlead⟩ := hphase
    exact ⟨htorn, hdead, hans, hreset, hlead.imp_right fun hl => hl.of_eq rfl rfl⟩
  | status t0 box =>
    rw [hp] at hphase
    obtain ⟨hbox, hreset, hlines, hreads, horder, happ, hanswer, hstate⟩ := hphase
    refine ⟨hbox, hreset, hlines, hreads, horder, happ, hanswer, hstate.imp_left ?_⟩
    rintro ⟨htorn, hdead, hlate, ws, v, hws, hv, hlead⟩
    exact ⟨htorn, hdead, hlate, ws, v, hws, hv, hlead.imp_right fun hl => hl.of_eq rfl rfl⟩
  | head box =>
    rw [hp] at hphase
    exact hphase
  | resetting wake =>
    rw [hp] at hphase
    exact hphase

/-- Behind PTQ_HEAD every slot has its status. -/
theorem Sim.Safe.watch (h : s.Safe a) : s.watch = s := by
  unfold Sim.watch
  dsimp only
  split
  · rfl
  case isFalse hon =>
    have hon : s.module.enable = true := not_not.mp hon
    have hup : s.Up ∧ s.Front := by
      have hd := h.doing
      cases a with
      | off => exact absurd (hon.symm.trans hd.1) Bool.noConfusion
      | torn => exact absurd (hon.symm.trans hd.1) Bool.noConfusion
      | dead =>
        rcases hd.1 with hoff | ⟨-, hup, hf⟩
        · exact absurd (hon.symm.trans hoff) Bool.noConfusion
        · exact ⟨hup, hf⟩
      | idle | reading | shooting | recording | wedged => exact ⟨hd.1, hd.2.1⟩
    obtain ⟨hup, hf⟩ := hup
    unfold Sim.check
    refine if_pos fun idx hidx _ => ?_
    have hlt : idx < s.module.head := by
      obtain ⟨hlo, hhi⟩ := List.mem_range'_1.mp hidx
      omega
    rcases Nat.lt_or_ge idx s.host.hhead with hended | hge
    · exact .inl ((h.book.ended idx).mpr hended)
    · obtain ⟨c, hc⟩ := h.book.cmds idx (hlt.trans_le (hup.tail.trans hup.next))
      exact .inr ((hf.before idx c hge hlt hc).not_pending (h.book.wf idx c hc).1)

/-! ## A move -/

/-- A call by the driver's rules. -/
def Sim.Move.Allowed (s : Sim) : Move → Prop
  | .op o => o.Allowed s
  | _ => True

theorem call_spec (h : s.Safe a) (hturn : s.turn = true) {o : Op} (ho : o.Allowed s) (hcall : s.call o = some s') :
    ∃ a, s'.Safe a := by
  have hguard : ∀ {p : Prop} [Decidable p] {s₁ : Sim}, (if p then some s₁ else none) = some s' → p ∧ s₁ = s' :=
    fun hif => by
    split at hif
    case isTrue hp => exact ⟨hp, Option.some.inj hif⟩
    case isFalse => exact absurd hif.symm (Option.some_ne_none _)
  cases o with
  | resume => exact resume_spec h hturn hcall
  | publish c =>
    obtain ⟨⟨hp, hroom⟩, rfl⟩ := hguard hcall
    exact ⟨a, publish_spec h (free_iff.mp hp) hroom ho.1 ho.2⟩
  | ring =>
    obtain ⟨hp, rfl⟩ := hguard hcall
    exact ⟨a, ring_spec h (free_iff.mp hp)⟩
  | tryEnd =>
    unfold Sim.call at hcall
    dsimp only at hcall
    split at hcall
    case isTrue hp => exact ⟨a, tryEnd_spec h (free_iff.mp hp) hcall⟩
    case isFalse => exact absurd hcall.symm (Option.some_ne_none _)
  | setSeed seed =>
    obtain ⟨hp, rfl⟩ := hguard hcall
    exact ⟨a, setSeed_spec h (free_iff.mp hp) ho seed⟩
  | irqEn on =>
    obtain ⟨hp, rfl⟩ := hguard hcall
    exact ⟨a, irqEn_spec h (free_iff.mp hp) on⟩
  | irqAt =>
    obtain ⟨hp, rfl⟩ := hguard hcall
    exact ⟨a, irqAt_spec h (free_iff.mp hp)⟩
  | wedgeAt idx =>
    obtain ⟨hp, rfl⟩ := hguard hcall
    exact ⟨a, wedgeAt_spec h (free_iff.mp hp) _⟩
  | teardown =>
    obtain ⟨hp, rfl⟩ := hguard hcall
    exact ⟨a, teardown_spec h (free_iff.mp hp)⟩

/-- A move of the run keeps what holds in every state. -/
theorem step_spec (h : s.Safe a) {m : Move} (hm : m.Allowed s) (hstep : s.step m = some s') : ∃ a, s'.Safe a := by
  cases m with
  | deliver =>
    unfold Sim.step at hstep
    dsimp only at hstep
    split at hstep
    · exact absurd hstep.symm (Option.some_ne_none _)
    obtain ⟨⟨fn, s₁⟩, hdue, rfl⟩ := Option.map_eq_some_iff.mp hstep
    unfold Sim.due? at hdue
    split at hdue
    · exact absurd hdue.symm (Option.some_ne_none _)
    case h_2 e q hq =>
      split at hdue
      · obtain ⟨rfl, rfl⟩ := Prod.mk.inj (Option.some.inj hdue)
        exact handle_spec h hq
      · exact absurd hdue.symm (Option.some_ne_none _)
  | watch =>
    unfold Sim.step at hstep
    dsimp only at hstep
    split at hstep
    · exact absurd hstep.symm (Option.some_ne_none _)
    case isFalse hnot =>
      obtain ⟨-, hdue⟩ := not_or.mp hnot
      obtain rfl := Option.some.inj hstep
      rw [h.watch]
      refine ⟨a, h.clock (t := s.t) le_rfl fun e he => ?_⟩
      -- nothing is due, so all that is left comes later
      unfold Sim.due? at hdue
      split at hdue
      case h_1 hq => rw [hq] at he; exact absurd he List.not_mem_nil
      case h_2 e' q hq =>
        split at hdue
        · exact absurd rfl hdue
        case isFalse hlate =>
          have hlt : s.t < e'.due := Nat.lt_of_not_le hlate
          rcases List.mem_cons.mp (hq ▸ he) with rfl | he
          · exact hlt
          · exact Nat.succ_le_of_lt (hlt.trans_le ((hq ▸ h.queue.sorted : Sorted (e' :: q)).head_le he).due_le)
  | op o =>
    unfold Sim.step at hstep
    dsimp only at hstep
    split at hstep
    case isTrue hturn => exact call_spec h hturn hm hstep
    case isFalse => exact absurd hstep.symm (Option.some_ne_none _)
  | tick =>
    unfold Sim.step at hstep
    dsimp only at hstep
    split at hstep
    case isTrue hturn =>
      obtain rfl := Option.some.inj hstep
      refine ⟨a, h.clock (t := s.t + 1) (Nat.le_succ _) fun e he => ?_⟩
      have hdue := h.queue.due e he
      rw [hturn] at hdue
      exact hdue
    case isFalse => exact absurd hstep.symm (Option.some_ne_none _)

/-! ## The start -/

theorem boot_safe (rng : ℕ → Fin (JITTER + 1)) (seed : ℕ) : (Sim.boot rng seed).Safe .off := by
  set s₀ : Sim := { rng := rng, turn := true } with hs₀
  have hnone : ∀ e ∈ s₀.q, False := fun e he => List.not_mem_nil he
  have hhas : ∀ fn, ¬s₀.Has fn := fun fn ⟨e, he, _⟩ => hnone e he
  have hbook : Book s₀.host := by
    refine ⟨le_rfl, Nat.zero_le _, Nat.two_pow_pos 32, fun idx => ?_, le_rfl, fun idx hlt =>
      absurd hlt (Nat.not_lt_zero idx),
      fun idx c hc => absurd hc.symm (Option.some_ne_none c), fun i j c c' _ hc =>
        absurd hc.symm (Option.some_ne_none c),
      fun idx c _ hc => absurd hc.symm (Option.some_ne_none c), fun idx hlt => absurd hlt (Nat.not_lt_zero idx),
      fun k idx hk => absurd hk.symm (Option.some_ne_none idx), fun idx c hc => absurd hc.symm (Option.some_ne_none c),
      fun y idx hy => absurd hy.symm (Option.some_ne_none idx)⟩
    exact ⟨fun hin => absurd hin (Finset.notMem_empty idx), fun hlt => absurd hlt (Nat.not_lt_zero idx)⟩
  have hrest : Resting s₀ .off := by
    refine ⟨⟨List.Pairwise.nil, fun e he => (hnone e he).elim, fun e he => (hnone e he).elim, fun e he =>
      (hnone e he).elim,
      fun e he => (hnone e he).elim, fun e he => (hnone e he).elim, rfl, fun g hg => absurd hg (Nat.not_lt_zero g)⟩,
        hbook,
      ⟨rfl, rfl, rfl, rfl, rfl, fun g _ => ⟨fun x => hhas _, fun x d => hhas _⟩, fun r m hx => absurd hx (hhas _),
        ⟨fun g x => hhas _, fun x d => hhas _⟩, fun idx c _ hc => absurd hc.symm (Option.some_ne_none c)⟩,
      fun e he => (hnone e he).elim, fun _ _ => rfl, ⟨fun r b => hhas _, fun b v => hhas _⟩, hhas _,
      fun c hc => absurd hc (Finset.notMem_empty c)⟩
  obtain ⟨hr₁, hws₁⟩ := hrest.placeRing
  obtain ⟨hr₂, hws₂⟩ := hr₁.mmioWrite .seed seed
  have hbook : Book { s₀.host with seed := seed, restart := true } :=
    hr₂.book.notes rfl rfl rfl rfl rfl rfl rfl fun idx c _ hc => absurd hc.symm (Option.some_ne_none c)
  have hr₃ : Resting (s₀.placeRing.setSeed seed) .off := hr₂.setHost hbook rfl rfl rfl
  have hprimed : Primed (s₀.placeRing.setSeed seed) (s₀.placeRing.setSeed seed).writes := by
    rw [show (s₀.placeRing.setSeed seed).writes = _ from hws₂, hws₁]
    exact PowerOn.primed (s := s₀.placeRing.setSeed seed) ⟨rfl, rfl, rfl, rfl, rfl, rfl, rfl, rfl, rfl⟩ rfl seed rfl
  obtain ⟨hr₄, hlead, hphase⟩ := hr₃.restart hprimed rfl
  exact hr₄.safe hphase Activity.noConfusion Activity.noConfusion (.inr hlead)

/-! ## Every run -/

/-- The states of the runs by the driver's rules. -/
inductive Reached (rng : ℕ → Fin (JITTER + 1)) (seed : ℕ) : Sim → Prop
  | boot : Reached rng seed (Sim.boot rng seed)
  | move {s s' : Sim} {m : Move} (h : Reached rng seed s) (hm : m.Allowed s)
      (hstep : s.step m = some s') : Reached rng seed s'

theorem Reached.safe (h : Reached rng seed s) : ∃ a, s.Safe a := by
  induction h with
  | boot => exact ⟨.off, boot_safe rng seed⟩
  | move _ hm hstep ih =>
    obtain ⟨a, hsafe⟩ := ih
    exact step_spec hsafe hm hstep

/-- A list of moves, where each can be made. -/
def Sim.moves : List Move → Sim → Option Sim
  | [], s => some s
  | m :: ms, s => (s.step m).bind (moves ms)

/-- Moves that ask for nothing go on from a state that is reached. -/
theorem Reached.moves {ms : List Move} (h : Reached rng seed s) (hms : ∀ m ∈ ms, ∀ s, m.Allowed s)
    (hrun : Sim.moves ms s = some s') :
    Reached rng seed s' := by
  induction ms generalizing s with
  | nil =>
    obtain rfl := Option.some.inj hrun
    exact h
  | cons m ms ih =>
    obtain ⟨s₁, hstep, hrest⟩ := Option.bind_eq_some_iff.mp hrun
    exact ih (h.move (hms m List.mem_cons_self s) hstep) (fun m' hm' => hms m' (List.mem_cons_of_mem m hm')) hrest

/-- However the link delays what crosses it, and whatever the script calls and when, a command that is done has
its results, one that is not run has none, PTQ_HEAD is behind no pending slot, the host's fields of a slot
stay, no slot is written while it is pending, nothing lands on what has ended, and no teardown leaves a command
pending. -/
theorem Reached.checks_hold (h : Reached rng seed s) :
    ∀ c ∈ [Check.C1, .C2, .C5, .C7, .C8, .C9, .C10], c ∉ s.fired := by
  obtain ⟨a, hsafe⟩ := h.safe
  intro c hc hfired
  rcases hsafe.clean c hfired with rfl | rfl | rfl | rfl <;> simp at hc

/-- Ticks, each with so many deliveries before the script has its turn. -/
def rounds (ks : List ℕ) : List Move :=
  ks.flatMap fun k => .tick :: (List.replicate k .deliver ++ [.watch])

theorem rounds_allowed (ks : List ℕ) : ∀ m ∈ rounds ks, ∀ s : Sim, m.Allowed s := by
  intro m hm s
  obtain ⟨k, -, hm⟩ := List.mem_flatMap.mp hm
  rcases List.mem_cons.mp hm with rfl | hm
  · trivial
  rcases List.mem_append.mp hm with hm | hm
  · obtain rfl := List.eq_of_mem_replicate hm
    trivial
  · obtain rfl := List.mem_singleton.mp hm
    trivial

/-- A product of one by one. -/
def oneByOne : Cmd :=
  ⟨1, 1, 1, 0, 0, 0, DONE, false, [3], [5]⟩

theorem Reached.published : Reached (fun _ => 0) 7 (((Sim.boot (fun _ => 0) 7).publish oneByOne).ring) := by
  have hpacks : oneByOne.Packs BUF :=
    ⟨by decide, by decide, by decide, by decide, rfl, rfl, by decide⟩
  have hpublish : Reached (fun _ => 0) 7 ((Sim.boot (fun _ => 0) 7).publish oneByOne) :=
    .move (m := .op (.publish oneByOne)) .boot ⟨hpacks, by decide⟩ rfl
  exact .move (m := .op .ring) hpublish trivial rfl

/-- A run in which the product is done. -/
theorem Reached.done : ∃ s c, Reached (fun _ => 0) 7 s ∧ s.free ∧ s.host.hhead = 0 ∧ s.host.cmds 0 = some c ∧
    s.status 0 = DONE := by
  have hrun : (Sim.moves (rounds [0, 0, 0, 7, 0, 0, 0, 1, 0, 0, 0, 1, 0, 0, 0, 2, 0, 0, 0, 2, 1, 0, 0, 0, 1, 0, 0,
    0, 1, 0, 0, 0, 1])
      (((Sim.boot (fun _ => 0) 7).publish oneByOne).ring)).any
        (fun s => s.free ∧ s.host.hhead = 0 ∧ (s.host.cmds 0).isSome ∧ s.status 0 = DONE) = true := by
    decide +kernel
  obtain ⟨s, hs, hst⟩ := (Option.any_eq_true _ _).mp hrun
  obtain ⟨hfree, hhead, hc, hdone⟩ := of_decide_eq_true hst
  obtain ⟨c, hc⟩ := Option.isSome_iff_exists.mp hc
  exact ⟨s, c, Reached.published.moves (rounds_allowed _) hs, hfree, hhead, hc, hdone⟩

theorem checks_hold_done : ∃ s, Reached (fun _ => 0) 7 s ∧ s.status 0 = DONE ∧
    ∀ c ∈ [Check.C1, .C2, .C5, .C7, .C8, .C9, .C10], c ∉ s.fired := by
  obtain ⟨s, -, h, -, -, -, hdone⟩ := Reached.done
  exact ⟨s, h, hdone, h.checks_hold⟩

/-! ## Slots, while the script is free -/

/-- Pending slots get their status in order, and a status says what is so: the results of a command that is done are
its sums under the index it reports, and those of a command that was not run are as the host filled them. -/
theorem Reached.ends_in_order (h : Reached rng seed s) (hfree : s.free) {idx : ℕ} {c : Published}
    (hge : s.host.hhead ≤ idx) (hc : s.host.cmds idx = some c) (hst : s.status idx ≠ PENDING) :
    (∀ j, s.host.hhead ≤ j → j < idx → s.status j ≠ PENDING) ∧ (s.mem (slotAddr idx)).take 0x30 = c.desc.take 0x30 ∧
      (s.status idx = DONE ∧ ((List.range (c.M * c.N)).map fun j => i32 (s.outBytes c) (4 * j)) =
          gemm (c.A.map BitVec.toInt) (c.W.map BitVec.toInt) c.M c.K c.N
            (gemmSeed c.seed (u32 (s.mem (slotAddr idx)) 0x34)) ∨
        (s.status idx = REFUSED ∨ s.status idx = NOT_ISSUED ∨ s.status idx = NOT_RUN) ∧
          u32 (s.mem (slotAddr idx)) 0x34 = NO_INDEX ∧ s.outBytes c = List.replicate
          (s.outBytes c).length SENTINEL) := by
  obtain ⟨a, hsafe⟩ := h.safe
  obtain ⟨-, ht, hd, -⟩ := hsafe.script (free_iff.mp hfree)
  have hb := hsafe.book
  have hwf := (hb.wf idx c hc).1
  obtain ⟨hrec, -, hf, hle, -⟩ := hsafe.doing.recorded ht hd hb hge hc hst
  refine ⟨fun j hj hlt => ?_, (hrec.kept hwf).2, ?_⟩
  · obtain ⟨c', hc'⟩ := hb.cmds j (hlt.trans (hb.wf idx c hc).2.2)
    exact (hf.before j c' hj (hlt.trans_le hle) hc').not_pending (hb.wf j c' hc').1
  obtain ⟨st, index, hm, htold⟩ := hrec
  have hstatus : s.status idx = st := by
    unfold Sim.status
    rw [hm, recordOf_status hwf.desc_length, htold.status.1]
  have hindex : u32 (s.mem (slotAddr idx)) 0x34 = index % 2 ^ 32 := by rw [hm, recordOf_index hwf.desc_length]
  rw [hstatus, hindex]
  rcases htold with ⟨hdone, hfin⟩ | ⟨hno, hi, hun⟩
  · exact .inl ⟨hdone, hfin.results hwf⟩
  · exact .inr ⟨hno, by rw [hi]; rfl, hun.results⟩

theorem ends_in_order_done : ∃ s c, Reached (fun _ => 0) 7 s ∧ s.host.cmds 0 = some c ∧
    (s.mem (slotAddr 0)).take 0x30 = c.desc.take 0x30 ∧
      (s.status 0 = DONE ∧ ((List.range (c.M * c.N)).map fun j => i32 (s.outBytes c) (4 * j)) =
          gemm (c.A.map BitVec.toInt) (c.W.map BitVec.toInt) c.M c.K c.N
            (gemmSeed c.seed (u32 (s.mem (slotAddr 0)) 0x34)) ∨
        (s.status 0 = REFUSED ∨ s.status 0 = NOT_ISSUED ∨ s.status 0 = NOT_RUN) ∧
          u32 (s.mem (slotAddr 0)) 0x34 = NO_INDEX ∧ s.outBytes c = List.replicate (s.outBytes c).length SENTINEL) := by
  obtain ⟨s, c, h, hfree, hhead, hc, hdone⟩ := Reached.done
  have hst : s.status 0 ≠ PENDING := by
    rw [hdone]
    decide
  exact ⟨s, c, h, hc, (h.ends_in_order hfree hhead.le hc hst).2⟩

/-- A teardown that has read ENABLED as zero, or has run out of patience, has nothing of the module's coming: no line
is in flight that could land on what it ends. -/
theorem Reached.quiesced (h : Reached rng seed s) (hp : (∃ box, s.host.phase = .head box) ∨
    ∃ wake, s.host.phase = .resetting wake) :
    ∀ x d, ¬s.Has (.land x d) := by
  obtain ⟨a, hsafe⟩ := h.safe
  have hphase := hsafe.wires.phase
  rcases hp with ⟨box, hp⟩ | ⟨wake, hp⟩ <;> rw [hp] at hphase
  · obtain ⟨rfl, hoff, -⟩ := hphase
    obtain ⟨-, hen, -, -, -, -, hdr, -⟩ := hsafe.doing
    exact (hsafe.queue.noLines (hsafe.queue.inflight.symm.trans (hdr (hen.symm.trans hoff)))).2
  · obtain ⟨rfl, -⟩ := hphase
    exact hsafe.doing.2.2.2.1.2

/-- The product is torn down under, with a line of its results on its way. -/
theorem quiesced_torn : ∃ s box, Reached (fun _ => 0) 7 s ∧ s.host.phase = .head box ∧ ∀ x d, ¬s.Has (.land x d) := by
  have hrun : (Sim.moves (rounds [0, 0, 0, 7, 0, 0, 0, 1, 0, 0, 0, 1, 0, 0, 0, 2, 0, 0, 0, 2, 1, 0] ++
    [.op .teardown] ++
      rounds [0, 0, 1, 2, 0, 0, 1, 1] ++ [.op .resume] ++ rounds [0, 0, 0, 1, 0, 0, 0, 1] ++ [.op .resume])
      (((Sim.boot (fun _ => 0) 7).publish oneByOne).ring)).any (fun s => s.host.phase matches .head _) = true := by
    decide +kernel
  obtain ⟨s, hs, hst⟩ := (Option.any_eq_true _ _).mp hrun
  have hallowed : ∀ m ∈ rounds [0, 0, 0, 7, 0, 0, 0, 1, 0, 0, 0, 1, 0, 0, 0, 2, 0, 0, 0, 2, 1, 0] ++
    [Move.op .teardown] ++
      rounds [0, 0, 1, 2, 0, 0, 1, 1] ++ [Move.op .resume] ++ rounds [0, 0, 0, 1, 0, 0, 0, 1] ++ [Move.op .resume],
      ∀ s : Sim, m.Allowed s := by
    intro m hm s
    simp only [List.mem_append, List.mem_singleton] at hm
    rcases hm with ((((hm | rfl) | hm) | rfl) | hm) | rfl
    · exact rounds_allowed _ m hm s
    · trivial
    · exact rounds_allowed _ m hm s
    · trivial
    · exact rounds_allowed _ m hm s
    · trivial
  have h := Reached.published.moves hallowed hs
  cases hp : s.host.phase with
  | head box => exact ⟨s, box, h, hp, h.quiesced (.inl ⟨box, hp⟩)⟩
  | _ => rw [hp] at hst; exact absurd hst Bool.false_ne_true

end Grxcp.BoardTransport
