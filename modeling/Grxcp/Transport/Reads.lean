import Grxcp.Transport.Work

/-!
# Lines that are read

A line that is read is sampled at the host (`atHost_spec`) and comes back (`back_spec`). What belongs to a
job that has been dropped is let go by; the last line of a read of the present job hands all of them on,
as they are in memory.
-/

namespace Grxcp.BoardTransport

open Agenda Runs Sim

variable {s s' : Sim} {a : Activity} {c : Published} {e : Entry Event} {q : List (Entry Event)}

/-! ## What is let go by -/

/-- The event does nothing: it is of a job that has been dropped. -/
def Idles (s : Sim) : Event → Prop
  | .back g _ _ => ¬s.Live g
  | .shot r _ => (s.runs r).job ≠ s.module.job
  | .msi => True
  | _ => False

namespace Sim

theorem countOf_withQ_le (hq : s.q = e :: q) (p : Event → Bool) : (s.withQ q).countOf p ≤ s.countOf p := by
  rw [countOf_cons hq p]
  exact Nat.le_add_right _ _

/-- The agenda has lost events that do nothing, and may have got lines back for reads that are dropped. -/
structure Trimmed (s s' : Sim) : Prop where
  state : ∃ q n, s' = { s with q := q, n := n }
  has : ∀ fn, s'.Has fn → s.Has fn ∨ ∃ g x d, fn = .back g x d ∧ ¬s.Live g
  lands : ∀ x d, s.Has (.land x d) → s'.Has (.land x d)
  gos : s'.countOf Event.isGo = s.countOf Event.isGo
  landed : s'.countOf Event.isLand ≤ s.countOf Event.isLand
  reads : ∀ g, s.Live g → s'.countOf (Event.isRead g) ≤ s.countOf (Event.isRead g)
  shots : ∀ r, s'.countOf (Event.isShot r) ≤ s.countOf (Event.isShot r)

namespace Trimmed

theorem keep (h : Trimmed s s') {fn : Event} (hfn : s'.Has fn) (hb : ∀ g x d, fn ≠ .back g x d) : s.Has fn :=
  (h.has fn hfn).resolve_right fun ⟨g, x, d, he, _⟩ => hb g x d he

theorem land (h : Trimmed s s') {x : ℕ} {d : Line} (hx : s'.Has (.land x d)) : s.Has (.land x d) :=
  h.keep hx fun _ _ _ => Event.noConfusion

theorem go (h : Trimmed s s') {gen : ℕ} {x : After} (hx : s'.Has (.go gen x)) : s.Has (.go gen x) :=
  h.keep hx fun _ _ _ => Event.noConfusion

theorem shot (h : Trimmed s s') {r m : ℕ} (hx : s'.Has (.shot r m)) : s.Has (.shot r m) :=
  h.keep hx fun _ _ _ => Event.noConfusion

theorem atHost (h : Trimmed s s') {g x : ℕ} (hx : s'.Has (.atHost g x)) : s.Has (.atHost g x) :=
  h.keep hx fun _ _ _ => Event.noConfusion

theorem back (h : Trimmed s s') {g x : ℕ} {d : Line} (hl : s.Live g) (hx : s'.Has (.back g x d)) :
    s.Has (.back g x d) :=
  (h.has _ hx).resolve_right fun ⟨_, _, _, he, hno⟩ => hno ((Event.back.inj he).1 ▸ hl)

theorem noReads (h : Trimmed s s') (hr : s.NoReads) (hlive : ∀ g, s'.Live g → s.Live g) : s'.NoReads := fun g hl =>
  ⟨fun x hx => (hr g (hlive g hl)).1 x (h.atHost hx), fun x d hx => (hr g (hlive g hl)).2 x d (h.back (hlive g hl) hx)⟩

theorem noLines (h : Trimmed s s') (hl : s.NoLines) : s'.NoLines :=
  ⟨fun g x hx => hl.1 g x (h.go hx), fun x d hx => hl.2 x d (h.land hx)⟩

/-- What the module is at is not touched. -/
theorem doing (h : Trimmed s s') (hd : s.Doing a) : s'.Doing a := by
  obtain ⟨q, n, hstate⟩ := h.state
  subst hstate
  have hreads : s.NoReads → Sim.NoReads { s with q := q, n := n } := fun hr => h.noReads hr fun _ => id
  have hshots : s.NoShots → Sim.NoShots { s with q := q, n := n } := fun hs r m hx => hs r m (h.shot hx)
  have hup : s.Up → Sim.Up { s with q := q, n := n } := fun hu =>
    hu.keep rfl
  have hfront : s.Front → Sim.Front { s with q := q, n := n } := fun hf => ⟨hf.before, hf.later⟩
  cases a with
  | off =>
    obtain ⟨he, hen, hdr, hw, hb, hr, hs, hl, hm⟩ := hd
    exact ⟨he, hen, hdr, hw, hb, hreads hr, hshots hs, h.noLines hl, hm⟩
  | idle =>
    obtain ⟨hu, hf, hw, hb, hr, hs, hl, hm⟩ := hd
    exact ⟨hup hu, hfront hf, hw, hb, hreads hr, hshots hs, h.noLines hl, hm⟩
  | reading g =>
    obtain ⟨hu, hf, hw, hb, hs, hl, hle, hlt, c, hc, hfresh, hr⟩ := hd
    refine ⟨hup hu, hfront hf, hw, hb, hshots hs, h.noLines hl, hle, hlt, c, hc, hfresh, ?_⟩
    refine ⟨hr.lt, hr.live, fun g' hl' ⟨x, hx⟩ => hr.only g' hl' ⟨x, ?_⟩, ?_, hr.nodup, fun x hx =>
      hr.asked x (h.atHost hx), fun x d hx => hr.coming x d (h.back hr.live hx), hr.got, hr.keys, hr.what⟩
    · exact hx.imp h.atHost fun ⟨d, hx⟩ => ⟨d, h.back hl' hx⟩
    · exact (Nat.add_le_add_right (h.reads g hr.live) _).trans hr.count
  | shooting r =>
    obtain ⟨hu, hf, hw, hb, hr, hle, hlt, c, hc, hs⟩ := hd
    refine ⟨hup hu, hfront hf, hw, hb, hreads hr, hle, hlt, c, hc, ?_⟩
    exact ⟨hs.lt, hs.job, hs.idx, hs.d, hs.rows, hs.cols, hs.out, hs.status, hs.n, hs.raw, hs.slot,
      fun r' m hx => hs.shots r' m (h.shot hx), (h.shots r).trans hs.one, fun g x hx => hs.gos g x (h.go hx),
      by rw [h.gos]; exact hs.count, hs.sent, hs.ordered, fun i hi => (hs.written i hi).imp_right (h.lands _ _),
      fun x d hx => hs.lands x d (h.land hx)⟩
  | recording st index =>
    obtain ⟨hu, hf, hw, hb, hr, hs, hle, hlt, c, hc, hrec⟩ := hd
    refine ⟨hup hu, hfront hf, hw, hb, hreads hr, hshots hs, hle, hlt, c, hc, ?_⟩
    exact ⟨hrec.told, fun g x hx => hrec.gos g x (h.go hx), h.gos.trans hrec.count,
      fun hle' => (hrec.slot hle').imp_right fun ⟨hm, hx⟩ => ⟨hm, h.lands _ _ hx⟩, h.landed.trans hrec.one,
      fun x d hx => hrec.lands x d (h.land hx)⟩
  | wedged =>
    obtain ⟨hu, hf, hw, hr, hs, hl, hm⟩ := hd
    exact ⟨hup hu, hfront hf, hw, hreads hr, hshots hs, h.noLines hl, hm⟩
  | torn =>
    obtain ⟨he, hen, hw, hb, hba, hsz, hdr, hr, hs, hg, hl, hbef, hk⟩ := hd
    exact ⟨he, hen, hw, hb, hba, hsz, hdr, hreads hr, hshots hs, fun g x hx => hg g x (h.go hx),
      fun x d hx => hl x d (h.land hx), hbef, hk⟩
  | dead =>
    obtain ⟨he, hr, hs, hl, hk⟩ := hd
    exact ⟨he.imp_right fun ⟨hw, hu, hf⟩ => ⟨hw, hup hu, hfront hf⟩, hreads hr, fun r m hx => hs r m (h.shot hx),
      h.noLines hl, hk⟩

end Trimmed

/-- An event that does nothing is let go by. -/
theorem Trimmed.drop (hq : s.q = e :: q) (hi : Idles s e.fn) : Trimmed s (s.withQ q) where
  state := ⟨q, s.n, rfl⟩
  has := fun _ hx => .inl (hx.of_cons hq)
  lands := by
    intro x d hx
    rcases (has_cons hq).mp hx with hx | hx
    · rw [← hx] at hi
      exact absurd hi id
    · exact hx
  gos := by
    rw [countOf_cons hq Event.isGo]
    cases hfn : e.fn <;> rw [hfn] at hi <;> first | rfl | exact absurd hi id
  landed := countOf_withQ_le hq _
  reads := fun _ _ => countOf_withQ_le hq _
  shots := fun _ => countOf_withQ_le hq _

end Sim

/-- Taking an event off the module's side leaves the register side. -/
theorem SameControl.withQ (hq : s.q = e :: q) (hfn : e.fn.isControl = false) : SameControl s (s.withQ q) :=
  .beside rfl rfl rfl rfl rfl (control_cons hq hfn)

/-- What is left of the agenda was in it. -/
theorem mem_of_cons (hq : s.q = e :: q) {e' : Entry Event} (he : e' ∈ q) : e' ∈ s.q :=
  hq ▸ List.mem_cons_of_mem e he

theorem Sim.Safe.idles (h : s.Safe a) (hq : s.q = e :: q) (hi : Idles s e.fn) (hctl : e.fn.isControl = false)
    (hgo : e.fn.isGo = false) : (s.withQ q).Safe a :=
  ⟨h.queue.drop hq hgo, h.book, (Trimmed.drop hq hi).doing h.doing, (SameControl.withQ hq hctl).still
  (fun _ he _ => mem_of_cons hq he) rfl id id h.wires,
    h.clean⟩

/-! ## Which activity has lines to read -/

/-- A line of the present job is read for the command at `head`. -/
theorem Sim.Doing.reading_of_live (hd : s.Doing a) {g : ℕ} (hl : s.Live g)
    (hx : ∃ x, s.Has (.atHost g x) ∨ ∃ d, s.Has (.back g x d)) : a = .reading g := by
  have hno : ¬s.NoReads := by
    intro hr
    obtain ⟨x, hx | ⟨d, hx⟩⟩ := hx
    · exact (hr g hl).1 x hx
    · exact (hr g hl).2 x d hx
  cases a with
  | off => exact absurd hd.2.2.2.2.2.1 hno
  | idle => exact absurd hd.2.2.2.2.1 hno
  | reading g' =>
    obtain ⟨-, -, -, -, -, -, -, -, c, -, -, hr⟩ := hd
    rw [hr.only g hl hx]
  | shooting r => exact absurd hd.2.2.2.2.1 hno
  | recording st index => exact absurd hd.2.2.2.2.1 hno
  | wedged => exact absurd hd.2.2.2.1 hno
  | torn => exact absurd hd.2.2.2.2.2.2.2.1 hno
  | dead => exact absurd hd.2.1 hno

/-! ## A line is sampled -/

/-- The line is on its way back, as it is in memory. -/
theorem atHost_spec (h : s.Safe a) {g x : ℕ} (hq : s.q = e :: q) (hfn : e.fn = .atHost g x) :
    ((s.withQ q).atHost g x).Safe a := by
  have hctl : SameControl s ((s.withQ q).atHost g x) := by
    refine ⟨rfl, rfl, rfl, rfl, rfl, rfl, rfl, rfl, rfl, rfl, rfl, rfl, rfl, ?_⟩
    exact (control_after rfl).trans (control_cons hq (hfn ▸ rfl))
  have hg : g < s.readCt := by
    have hok := h.queue.ok e (hq ▸ List.mem_cons_self)
    rw [hfn] at hok
    exact hok
  have hqueue : Queue ((s.withQ q).atHost g x) :=
    (h.queue.drop hq (hfn ▸ rfl)).after (by decide) Bool.noConfusion (fun _ _ he => Event.noConfusion he) rfl hg
  have hlines : ∀ e' ∈ ((s.withQ q).atHost g x).q, e'.fn.isLine = true → e' ∈ s.q := by
    intro e' he' hl
    rcases mem_push.mp he' with rfl | he'
    · exact absurd hl Bool.false_ne_true
    · exact mem_of_cons hq he'
  refine ⟨hqueue, h.book, ?_, hctl.still hlines rfl id id h.wires, h.clean⟩
  have hhas : ∀ fn, ((s.withQ q).atHost g x).Has fn ↔ fn = .back g x (s.mem x) ∨ (s.withQ q).Has fn := fun fn =>
    has_after
  by_cases hlive : s.Live g
  · obtain rfl := h.doing.reading_of_live hlive ⟨x, .inl (hfn ▸ has_head hq)⟩
    obtain ⟨hup, hf, hw, hb, hs, hl, hle, hlt, c, hc, hfresh, hr⟩ := h.doing
    refine ⟨hup.keep rfl, ⟨hf.before, hf.later⟩, hw, hb,
      fun r m hx => ?_, ⟨fun gen y hx => ?_, fun y d hx => ?_⟩, hle, hlt, c, hc, hfresh, ?_⟩
    · exact hs r m (((hhas _).mp hx).resolve_left Event.noConfusion |>.of_cons hq)
    · exact hl.1 gen y (((hhas _).mp hx).resolve_left Event.noConfusion |>.of_cons hq)
    · exact hl.2 y d (((hhas _).mp hx).resolve_left Event.noConfusion |>.of_cons hq)
    constructor
    case lt => exact hr.lt
    case live => exact hr.live
    case only =>
      rintro g' hl' ⟨y, hy | ⟨d, hy⟩⟩
      · exact hr.only g' hl' ⟨y, .inl (((hhas _).mp hy).resolve_left Event.noConfusion |>.of_cons hq)⟩
      · rcases (hhas _).mp hy with hy | hy
        · exact (Event.back.inj hy).1
        · exact hr.only g' hl' ⟨y, .inr ⟨d, hy.of_cons hq⟩⟩
    case count =>
      have hcount := hr.count
      rw [countOf_cons hq, hfn] at hcount
      change ((s.withQ q).after L 1 (.back g x (s.mem x))).countOf (Event.isRead g) + _ ≤ _
      rw [countOf_after]
      exact hcount
    case nodup => exact hr.nodup
    case asked => exact fun y hy => hr.asked y (((hhas _).mp hy).resolve_left Event.noConfusion |>.of_cons hq)
    case coming =>
      intro y d hy
      rcases (hhas _).mp hy with hy | hy
      · obtain ⟨-, rfl, rfl⟩ := Event.back.inj hy
        exact ⟨hr.asked y (hfn ▸ has_head hq), rfl⟩
      · exact hr.coming y d (hy.of_cons hq)
    case got => exact hr.got
    case keys => exact hr.keys
    case what => exact hr.what
  · -- it is of a dropped job, and so is what it sends back
    have htrim : Trimmed s ((s.withQ q).atHost g x) := by
      refine ⟨⟨_, _, rfl⟩, fun fn hx => ?_, fun y d hx => (hhas _).mpr (.inr ?_), ?_, ?_, fun g' hl' => ?_, fun r => ?_⟩
      · exact ((hhas fn).mp hx).elim (fun he => .inr ⟨g, x, s.mem x, he, hlive⟩) fun hx => .inl (hx.of_cons hq)
      · exact ((has_cons hq).mp hx).resolve_left fun he => Event.noConfusion (he.trans hfn)
      · rw [countOf_cons hq, hfn]
        exact countOf_after (s := s.withQ q) _
      · rw [countOf_cons hq, hfn]
        exact (countOf_after (s := s.withQ q) _).le
      · have hne : ¬g = g' := fun he => hlive (he ▸ hl')
        have hno : Event.isRead g' (.back g x (s.mem x)) = false := decide_eq_false hne
        refine (countOf_after (s := s.withQ q) _).trans_le ?_
        rw [countOf_cons hq, hfn, hno]
        exact Nat.le_add_right _ _
      · refine (countOf_after (s := s.withQ q) _).trans_le ?_
        rw [countOf_cons hq, hfn]
        exact le_rfl
    exact htrim.doing h.doing

/-! ## All the lines are back -/

/-- While the module works, the seed in force is that of every command behind the tail. -/
theorem Sim.Wires.seed (h : s.Wires a) (ht : a ≠ .torn) (hd : a ≠ .dead) (hw : a ≠ .wedged) {idx : ℕ}
    (hle : s.host.hhead ≤ idx) (hlt : idx < s.module.tail) (hc : s.host.cmds idx = some c) :
    c.seed = s.module.seed := by
  have hlead : ∀ ws, Leads s ws → c.seed = s.module.seed := fun ws ⟨σ, hs, _⟩ => hs.seeds idx c hle hlt hc
  have hphase := h.phase
  cases hp : s.host.phase with
  | script =>
    rw [hp] at hphase
    exact hlead _ (hphase.2.2.2.2.resolve_left hw)
  | status t0 box =>
    rw [hp] at hphase
    rcases hphase.2.2.2.2.2.2.2 with ⟨-, -, -, ws, v, -, -, hl⟩ | ⟨-, ⟨rfl, -⟩ | rfl⟩
    · exact hlead ws (hl.resolve_left hw)
    · exact absurd rfl ht
    · exact absurd rfl hw
  | head box =>
    rw [hp] at hphase
    exact absurd hphase.1 ht
  | resetting wake =>
    rw [hp] at hphase
    exact absurd hphase.1 hd

theorem flatten_lines {mem : ℕ → Line} {base nbytes : ℕ} {data : Line} (hlen : data.length = nbytes)
    (h : ∀ i, i < lines nbytes → mem (base + i * LINE) = lineOf (padded nbytes 0 data) i) :
    (((List.range (lines nbytes)).map fun i => mem (base + i * LINE)).flatten).take nbytes = data := by
  have hmap : ((List.range (lines nbytes)).map fun i => mem (base + i * LINE)) =
      (List.range (lines nbytes)).map (lineOf (padded nbytes 0 data)) :=
    List.map_congr_left fun i hi => h i (List.mem_range.mp hi)
  rw [hmap, ← List.flatMap_def, flatMap_lineOf, List.take_take, Nat.min_eq_left (lines_mul_le nbytes)]
  unfold padded
  rw [List.take_append_of_le_length hlen.ge, ← hlen, List.take_length]

/-- The operands, as the module unpacks them from the lines in memory. -/
theorem Operands.unpack {mem : ℕ → Line} (hwf : c.Wf) (h : Operands mem c) :
    let datas := (weightLines c ++ activationLines c).map mem
    (datas.take (weightLines c).length).flatten.take (c.K * c.N) = c.W ∧
      (datas.drop (weightLines c).length).flatten.take (c.M * c.K) = c.A := by
  dsimp only
  rw [List.map_append, List.take_left' (List.length_map _), List.drop_left' (List.length_map _)]
  unfold weightLines activationLines
  rw [List.map_map, List.map_map]
  exact ⟨flatten_lines hwf.lenW h.2, flatten_lines hwf.lenA h.1⟩

theorem Published.Wf.outLines_pos (h : c.Wf) : 0 < c.outLines := by
  rw [h.outLines]
  have hpos : 0 < c.M * c.N := Nat.mul_pos h.pos.1 h.pos.2.2
  unfold lines
  exact Nat.div_pos (by change 64 ≤ c.M * c.N * 4 + 63; omega) (by decide)

/-- The shots begin: the run has the sums of the operands as they are in memory. -/
theorem Between.startShots (h : Between s c) (hq : Queue s) (hwf : c.Wf) (hfresh : Fresh s.mem s.module.head c)
    (index : ℕ) :
    Worked s (s.shots ((weightLines c ++ activationLines c).map s.mem) s.module.head c.desc c.M c.K c.N c.out index
      c.seed (weightLines c).length DONE) := by
  obtain ⟨hW, hA⟩ := hfresh.2.2.unpack hwf
  unfold Sim.shots
  dsimp only at hW hA ⊢
  rw [hW, hA]
  have hold : ∀ e ∈ s.q, ∀ m, e.fn ≠ .shot s.runCt m := by
    intro e he m hfn
    have hok := hq.ok e he
    rw [hfn] at hok
    exact absurd hok.1 (Nat.lt_irrefl _)
  have hne : ∀ r, r < s.runCt → ∀ run : Shots, (Function.update s.runs s.runCt run : ℕ → Shots) r = s.runs r :=
    fun r hr _ =>
    Function.update_of_ne (Nat.ne_of_lt hr) _ _
  have hnone : s.countOf (Event.isShot s.runCt) = 0 := by
    refine List.countP_eq_zero.mpr fun e he hs => ?_
    cases hfn : e.fn with
    | shot r m =>
      rw [hfn] at hs
      obtain rfl : r = s.runCt := of_decide_eq_true hs
      exact hold e he m hfn
    | _ => rw [hfn] at hs; exact absurd hs Bool.false_ne_true
  refine ⟨?_, ?_, rfl, rfl, .shooting s.runCt, Activity.noConfusion, Activity.noConfusion, ?_⟩
  · refine Queue.after ?_ le_rfl (fun _ => by decide) (fun _ _ he => Event.noConfusion he) rfl
      ⟨Nat.lt_succ_self _, ?_⟩
    case refine_2 =>
      change (Function.update s.runs s.runCt _ s.runCt).job ≤ s.module.job
      rw [Function.update_self]
    exact hq.move rfl rfl rfl rfl rfl (fun _ _ => ⟨rfl, rfl⟩) (Nat.le_succ _) (fun r hr =>
      congrArg Shots.job (hne r hr _)) rfl
      le_rfl rfl
  · refine ⟨rfl, rfl, rfl, rfl, rfl, rfl, rfl, rfl, rfl, rfl, rfl, rfl, rfl, ?_⟩
    exact control_after rfl
  · refine ⟨h.up.keep rfl,
      ⟨h.front.before, h.front.later⟩, h.wedged, h.busy, fun g hl => ⟨fun x hx => ?_, fun x d hx => ?_⟩, h.hhead,
      h.tail, c, h.cmd, ?_⟩
    · exact (h.reads g hl).1 x ((has_after.mp hx).resolve_left Event.noConfusion)
    · exact (h.reads g hl).2 x d ((has_after.mp hx).resolve_left Event.noConfusion)
    set run : Shots := ⟨s.module.head, c.desc, c.M, c.N, c.out, index, DONE,
      resultBytes (gemm (c.A.map BitVec.toInt) (c.W.map BitVec.toInt) c.M c.K c.N (gemmSeed c.seed index)),
      lines (c.M * c.N * R_BYTES), s.module.job, 0, 0⟩ with hrun
    have hself : (Function.update s.runs s.runCt run : ℕ → Shots) s.runCt = run := Function.update_self _ _ _
    constructor
    case lt => exact Nat.lt_succ_self _
    case job => exact congrArg Shots.job hself
    case idx => exact congrArg Shots.idx hself
    case d => exact congrArg Shots.d hself
    case rows => exact congrArg Shots.M hself
    case cols => exact congrArg Shots.N hself
    case out => exact congrArg Shots.out hself
    case status => exact congrArg Shots.status hself
    case n => exact (congrArg Shots.n hself).trans hwf.outLines.symm
    case raw =>
      change (Function.update s.runs s.runCt run s.runCt).raw =
        resultBytes (c.sums (Function.update s.runs s.runCt run s.runCt).index)
      rw [hself]
      rfl
    case slot => exact hfresh.1
    case shots =>
      intro r' m hx hjob
      rcases has_after.mp hx with hx | hx
      · obtain ⟨rfl, rfl⟩ := Event.shot.inj hx
        refine ⟨rfl, hwf.pos.1, ?_⟩
        change (Function.update s.runs s.runCt run s.runCt).sent ≤ _
        rw [hself]
        exact Nat.zero_le _
      · obtain ⟨e, he, hfn⟩ := hx
        have hok := hq.ok e he
        rw [hfn] at hok
        change (Function.update s.runs s.runCt run r').job = _ at hjob
        rw [hne r' hok.1] at hjob
        exact absurd hjob (h.shots r' m ⟨e, he, hfn⟩)
    case one =>
      rw [countOf_after]
      change s.countOf (Event.isShot s.runCt) + _ ≤ 1
      rw [hnone]
      exact (Nat.zero_add _).trans_le (by split <;> decide)
    case gos => exact fun gen x hx => absurd ((has_after.mp hx).resolve_left Event.noConfusion) (h.quiet.1 gen x)
    case count =>
      rw [countOf_after]
      change s.countOf Event.isGo + 0 + (Function.update s.runs s.runCt run s.runCt).ordered =
        (Function.update s.runs s.runCt run s.runCt).sent
      rw [hself, countOf_isGo_of_noLines h.quiet]
      rfl
    case sent => exact (congrArg Shots.sent hself).trans_le (Nat.zero_le _)
    case ordered => exact (congrArg Shots.ordered hself).trans_lt hwf.outLines_pos
    case written =>
      intro i hi
      change i < (Function.update s.runs s.runCt run s.runCt).sent at hi
      rw [hself] at hi
      exact absurd hi (Nat.not_lt_zero i)
    case lands => exact fun x d hx => absurd ((has_after.mp hx).resolve_left Event.noConfusion) (h.quiet.2 x d)

theorem lookup_mem {xs : List (ℕ × Line)} {y : ℕ} (h : y ∈ xs.map Prod.fst) : ∃ v, xs.lookup y = some v ∧
    (y, v) ∈ xs := by
  induction xs with
  | nil => exact absurd h List.not_mem_nil
  | cons x xs ih =>
    obtain ⟨k, v⟩ := x
    by_cases hk : y = k
    · subst hk
      exact ⟨v, by rw [List.lookup_cons, beq_self_eq_true], List.mem_cons_self⟩
    · have hmem : y ∈ xs.map Prod.fst := (List.mem_cons.mp h).resolve_left hk
      obtain ⟨w, hw, hin⟩ := ih hmem
      refine ⟨w, ?_, List.mem_cons_of_mem _ hin⟩
      rw [List.lookup_cons, beq_eq_false_iff_ne.mpr hk]
      exact hw

/-- The lines of a read, once as many are back as were asked for. -/
theorem Sim.Reading.all_back {mem : ℕ → Line} {addrs : List ℕ} {got : List (ℕ × Line)}
    (hkeys : (got.map Prod.fst).Nodup) (hgot : ∀ x ∈ got, x.1 ∈ addrs ∧ x.2 = mem x.1)
    (hlen : got.length = addrs.length) :
    (addrs.map fun x => (got.lookup x).getD []) = addrs.map mem := by
  have hsub : got.map Prod.fst ⊆ addrs := by
    intro x hx
    obtain ⟨p, hp, rfl⟩ := List.mem_map.mp hx
    exact (hgot p hp).1
  have hperm : (got.map Prod.fst).Perm addrs :=
    (List.subperm_of_subset hkeys hsub).perm_of_length_le (by rw [List.length_map, hlen])
  refine List.map_congr_left fun x hx => ?_
  obtain ⟨v, hv, hin⟩ := lookup_mem (hperm.mem_iff.mpr hx)
  rw [hv]
  exact (hgot (x, v) hin).2

/-- A line comes back. -/
theorem back_spec (h : s.Safe a) {g x : ℕ} {data : Line} (hq : s.q = e :: q) (hfn : e.fn = .back g x data) :
    ∃ a, ((s.withQ q).back g x data).Safe a := by
  have hctl := SameControl.withQ hq (show e.fn.isControl = false from hfn ▸ rfl)
  by_cases hlive : s.Live g
  case neg =>
    have hskip : (s.withQ q).back g x data = s.withQ q := by
      unfold Sim.back
      dsimp only
      exact if_pos fun heq => hlive ⟨congrArg Prod.fst heq, congrArg Prod.snd heq⟩
    rw [hskip]
    exact ⟨a, h.idles hq (hfn ▸ hlive) (hfn ▸ rfl) (hfn ▸ rfl)⟩
  -- a line of the present job can only be one of the read that the module is at
  obtain rfl := h.doing.reading_of_live hlive ⟨x, .inr ⟨data, hfn ▸ has_head hq⟩⟩
  have hrest : ∀ {s'}, Worked (s.withQ q) s' → ∃ a, s'.Safe a := by
    rintro s' ⟨hqueue, hcontrol, hhost, hfired, a, ht, hd, hdoing⟩
    refine ⟨a, hqueue, hhost ▸ h.book, hdoing, ?_, fun c hc => h.clean c (hfired ▸ hc)⟩
    exact (hctl.trans hcontrol).work h.queue hqueue Activity.noConfusion Activity.noConfusion Activity.noConfusion
      ht hd h.wires
  obtain ⟨hup, hf, hw, hb, hs, hl, hle, hlt, c, hc, hfresh, hr⟩ := h.doing
  obtain ⟨hin, hdata⟩ := hr.coming x data (hfn ▸ has_head hq)
  have hwf := (h.book.wf _ c hc).1
  refine hrest ?_
  have hqueue := h.queue.drop hq (show e.fn.isGo = false from hfn ▸ rfl)
  unfold Sim.back
  dsimp only
  rw [if_neg (not_not.mpr (show ((s.reads g).job, (s.reads g).gen) = (s.module.job, s.module.gen) by rw [hlive.1,
    hlive.2]))]
  set got : List (ℕ × Line) := (x, data) :: (s.reads g).got.filter (·.1 ≠ x) with hgotdef
  set s₁ : Sim := (s.withQ q).setRead g { s.reads g with got := got } with hs₁
  -- the read is as it was, but for the line that is back
  have hself : s₁.reads g = { s.reads g with got := got } := Function.update_self _ _ _
  have hother : ∀ g', g' ≠ g → s₁.reads g' = s.reads g' := fun g' hg' => Function.update_of_ne hg' _ _
  have hliveEq : ∀ g', s₁.Live g' ↔ s.Live g' := by
    intro g'
    unfold Live
    by_cases hg' : g' = g
    · subst hg'
      rw [hself]
      rfl
    · rw [hother g' hg']
      rfl
  have hqueue₁ : Queue s₁ := by
    refine hqueue.move rfl rfl rfl rfl rfl (fun g' _ => ?_) le_rfl (fun _ _ => rfl) rfl le_rfl rfl
    by_cases hg' : g' = g
    · subst hg'
      rw [hself]
      exact ⟨rfl, rfl⟩
    · rw [hother g' hg']
      exact ⟨rfl, rfl⟩
  -- a line that comes back twice is kept once
  have hkeys : (got.map Prod.fst).Nodup := by
    rw [hgotdef, List.map_cons]
    refine List.nodup_cons.mpr ⟨fun hx => ?_, hr.keys.sublist (List.filter_sublist.map _)⟩
    obtain ⟨p, hp, hpx⟩ := List.mem_map.mp hx
    exact of_decide_eq_true (List.mem_filter.mp hp).2 hpx
  have hgot : ∀ p ∈ got, p.1 ∈ (s.reads g).addrs ∧ p.2 = s.mem p.1 := by
    intro p hp
    rcases List.mem_cons.mp hp with rfl | hp
    · exact ⟨hin, hdata⟩
    · exact hr.got p (List.mem_filter.mp hp).1
  have hlen : got.length ≤ (s.reads g).got.length + 1 := Nat.succ_le_succ (List.length_filter_le _ _)
  have hcount : s.countOf (Event.isRead g) = (s.withQ q).countOf (Event.isRead g) + 1 := by
    rw [countOf_cons hq, hfn, show Event.isRead g (.back g x data) = true from decide_eq_true rfl]
    rfl
  have htotal := hr.count
  have hworked : ∀ {s'}, Worked s₁ s' → Worked (s.withQ q) s' := fun hwk =>
    hwk.of ⟨rfl, rfl, rfl, rfl, rfl, rfl, rfl, rfl, rfl, rfl, rfl, rfl, rfl, rfl⟩ rfl rfl
  by_cases hfull : got.length = (s.reads g).addrs.length
  · rw [if_pos hfull]
    -- nothing more of it is in flight
    have hzero : (s.withQ q).countOf (Event.isRead g) = 0 := by omega
    have hbetween : Between s₁ c := by
      refine ⟨hup.keep rfl, ⟨hf.before, hf.later⟩, hw, hb, ?_,
        fun r m hx => hs r m (Has.of_cons hq hx), ⟨fun _ _ hx => hl.1 _ _ (Has.of_cons hq hx), fun _ _ hx =>
          hl.2 _ _ (Has.of_cons hq hx)⟩,
        hle, hlt, hc⟩
      intro g' hl'
      have hl' := (hliveEq g').mp hl'
      refine ⟨fun y hy => ?_, fun y d hy => ?_⟩
      · obtain rfl := hr.only g' hl' ⟨y, .inl (Has.of_cons hq hy)⟩
        have hno := countOf_eq_zero hzero hy
        exact absurd (decide_eq_true rfl : Event.isRead g' (.atHost g' y) = true) (Bool.eq_false_iff.mp hno)
      · obtain rfl := hr.only g' hl' ⟨y, .inr ⟨d, Has.of_cons hq hy⟩⟩
        have hno := countOf_eq_zero hzero hy
        exact absurd (decide_eq_true rfl : Event.isRead g' (.back g' y d) = true) (Bool.eq_false_iff.mp hno)
    -- as many as were asked for, each once: all of them, as they are in memory
    rw [Reading.all_back hkeys hgot hfull]
    rcases hr.what with ⟨hnext, haddrs⟩ | ⟨index, hnext, haddrs⟩
    · rw [hnext, haddrs]
      have hdesc : s.mem (slotAddr s.module.head) = c.desc := hfresh.1
      rw [List.map_singleton, hdesc]
      have hseed := h.wires.seed Activity.noConfusion Activity.noConfusion Activity.noConfusion hle hlt hc
      exact hworked (hbetween.gotDescriptor hqueue₁ hwf hseed hfresh)
    · rw [hnext, haddrs]
      exact hworked (hbetween.startShots hqueue₁ hwf hfresh index)
  · rw [if_neg hfull]
    refine hworked ⟨hqueue₁, .refl _, rfl, rfl, .reading g, Activity.noConfusion, Activity.noConfusion, ?_⟩
    refine ⟨hup.keep rfl, ⟨hf.before, hf.later⟩, hw, hb,
      fun r m hx => hs r m (Has.of_cons hq hx), ⟨fun _ _ hx => hl.1 _ _ (Has.of_cons hq hx), fun _ _ hx =>
        hl.2 _ _ (Has.of_cons hq hx)⟩,
      hle, hlt, c, hc, hfresh, ?_⟩
    constructor
    case lt => exact hr.lt
    case live => exact (hliveEq g).mpr hr.live
    case only =>
      rintro g' hl' ⟨y, hy⟩
      exact hr.only g' ((hliveEq g').mp hl') ⟨y, hy.imp (Has.of_cons hq) fun ⟨d, hd⟩ => ⟨d, Has.of_cons hq hd⟩⟩
    case count =>
      rw [hself]
      change (s.withQ q).countOf (Event.isRead g) + got.length ≤ (s.reads g).addrs.length
      omega
    case nodup => rw [hself]; exact hr.nodup
    case asked => rw [hself]; exact fun y hy => hr.asked y (Has.of_cons hq hy)
    case coming => rw [hself]; exact fun y d hy => hr.coming y d (Has.of_cons hq hy)
    case got => rw [hself]; exact hgot
    case keys => rw [hself]; exact hkeys
    case what => rw [hself]; exact hr.what

end Grxcp.BoardTransport
