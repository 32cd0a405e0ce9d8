import Grxcp.Transport.Reads

/-!
# Lines that are written

A shot sends the lines that are full (`shot_spec`), the module counts the ones it knows to be ordered and
writes the record after the last (`go_spec`), and a line that lands is one of the command at `head`, which
the host has not ended (`land_spec`).
-/

namespace Grxcp.BoardTransport

open Agenda Runs Sim

variable {s s' : Sim} {a : Activity} {c : Published} {e : Entry Event} {q : List (Entry Event)} {r : ℕ}

/-! ## Shots -/

/-- The GEMM of the command at `head` runs, and its shot is the one in hand. -/
structure Firing (s : Sim) (r : ℕ) (c : Published) : Prop where
  queue : Queue s
  up : s.Up
  front : s.Front
  wedged : s.module.wedged = false
  busy : s.module.busy = true
  reads : s.NoReads
  shots : s.NoShots
  hhead : s.host.hhead ≤ s.module.head
  tail : s.module.head < s.module.tail
  cmd : s.host.cmds s.module.head = some c
  run : s.Shooting r c

namespace Firing

theorem doing (h : Firing s r c) : s.Doing (.shooting r) :=
  ⟨h.up, h.front, h.wedged, h.busy, h.reads, h.hhead, h.tail, c, h.cmd, h.run⟩

/-- One line is sent. -/
theorem send (h : Firing s r c) (hlt : (s.runs r).sent < c.outLines) :
    let s' := (s.setRun r { s.runs r with sent := (s.runs r).sent + 1 }).writeLine
      ((s.runs r).out + (s.runs r).sent * LINE) (lineOf (s.runs r).raw (s.runs r).sent) (.ordered r)
    Firing s' r c ∧ SameControl s s' ∧ s'.host = s.host ∧ s'.fired = s.fired ∧ (s'.runs r).sent =
      (s.runs r).sent + 1 := by
  dsimp only
  set run : Shots := { s.runs r with sent := (s.runs r).sent + 1 } with hrun
  have hself : (s.setRun r run).runs r = run := Function.update_self _ _ _
  have hjob : ∀ r', ((s.setRun r run).runs r').job = (s.runs r').job := by
    intro r'
    by_cases hr' : r' = r
    · subst hr'
      rw [hself]
    · exact congrArg Shots.job (Function.update_of_ne hr' _ _)
  set s' := (s.setRun r run).writeLine ((s.runs r).out + (s.runs r).sent * LINE) (lineOf (s.runs r).raw (s.runs r).sent)
    (.ordered r) with hs'
  have hhas : ∀ fn, s'.Has fn ↔ fn = .go s.module.gen (.ordered r) ∨
      fn = .land ((s.runs r).out + (s.runs r).sent * LINE) (lineOf (s.runs r).raw (s.runs r).sent) ∨ s.Has fn :=
    fun fn => has_writeLine
  have hself' : s'.runs r = run := hself
  have hout := h.run.out
  have hqueue : Queue s' := by
    have hset : Queue (s.setRun r run) :=
      h.queue.move rfl rfl rfl rfl rfl (fun _ _ => ⟨rfl, rfl⟩) le_rfl (fun r' _ => hjob r') rfl le_rfl rfl
    refine hset.writeLine ?_
    exact ⟨rfl, h.run.lt, by rw [hjob, h.run.job]; exact le_rfl⟩
  have hshots : s'.NoShots := by
    intro r' m hx
    change ((s.setRun r run).runs r').job ≠ s.module.job
    rw [hjob]
    exact h.shots r' m ((((hhas _).mp hx).resolve_left Event.noConfusion).resolve_left Event.noConfusion)
  have hreads : s'.NoReads := fun g hl =>
    ⟨fun x hx => (h.reads g hl).1 x ((((hhas _).mp hx).resolve_left Event.noConfusion).resolve_left Event.noConfusion),
      fun x d hx =>
        (h.reads g hl).2 x d ((((hhas _).mp hx).resolve_left Event.noConfusion).resolve_left Event.noConfusion)⟩
  refine ⟨⟨hqueue, h.up.keep rfl,
    ⟨h.front.before, h.front.later⟩, h.wedged, h.busy, hreads, hshots, h.hhead, h.tail, h.cmd, ?_⟩, ?_, rfl, rfl,
    congrArg Shots.sent hself'⟩
  · constructor
    case lt => exact h.run.lt
    case job => rw [hself']; exact h.run.job
    case idx => rw [hself']; exact h.run.idx
    case d => rw [hself']; exact h.run.d
    case rows => rw [hself']; exact h.run.rows
    case cols => rw [hself']; exact h.run.cols
    case out => rw [hself']; exact h.run.out
    case status => rw [hself']; exact h.run.status
    case n => rw [hself']; exact h.run.n
    case raw => rw [hself']; exact h.run.raw
    case slot => exact h.run.slot
    case shots => exact fun r' m hx hj => absurd hj (hshots r' m hx)
    case one =>
      refine (countOf_writeLine _).trans_le ?_
      exact h.run.one
    case gos =>
      intro gen x hx
      rcases (hhas _).mp hx with hx | hx | hx
      · exact (Event.go.inj hx).2
      · exact Event.noConfusion hx
      · exact h.run.gos gen x hx
    case count =>
      rw [hself']
      refine (congrArg (· + run.ordered) (countOf_writeLine (s := s.setRun r run) _)).trans ?_
      change s.countOf Event.isGo + 0 + 1 + (s.runs r).ordered = (s.runs r).sent + 1
      have hcount := h.run.count
      omega
    case sent => rw [hself']; exact hlt
    case ordered => rw [hself']; exact h.run.ordered
    case written =>
      intro i hi
      rw [hself'] at hi ⊢
      rcases Nat.lt_succ_iff_lt_or_eq.mp hi with hi | rfl
      · exact (h.run.written i hi).imp_right fun hx => (hhas _).mpr (.inr (.inr hx))
      · exact .inr ((hhas _).mpr (.inr (.inl (by rw [hout]))))
    case lands =>
      intro x d hx
      rw [hself']
      rcases (hhas _).mp hx with hx | hx | hx
      · exact Event.noConfusion hx
      · obtain ⟨rfl, rfl⟩ := Event.land.inj hx
        exact ⟨(s.runs r).sent, Nat.lt_succ_self _, by rw [hout], rfl⟩
      · obtain ⟨i, hi, hrest⟩ := h.run.lands x d hx
        exact ⟨i, Nat.lt_succ_of_lt hi, hrest⟩
  · have hset : SameControl s (s.setRun r run) := .beside rfl rfl rfl rfl rfl rfl
    exact hset.trans (.writeLine _ _ _ _)

/-- Some lines are sent. -/
theorem sendLines (k : ℕ) (h : Firing s r c) (hk : (s.runs r).sent + k ≤ c.outLines) :
    Firing (sendLines r k s) r c ∧ SameControl s (sendLines r k s) ∧ (Sim.sendLines r k s).host = s.host ∧
      (Sim.sendLines r k s).fired = s.fired ∧ ((Sim.sendLines r k s).runs r).sent = (s.runs r).sent + k := by
  induction k generalizing s with
  | zero => exact ⟨h, .refl s, rfl, rfl, rfl⟩
  | succ k ih =>
    obtain ⟨hf, hctl, hhost, hfired, hsent⟩ := h.send (show (s.runs r).sent < c.outLines by omega)
    unfold Sim.sendLines
    dsimp only at hf hctl hhost hfired hsent ⊢
    obtain ⟨hf', hctl', hhost', hfired', hsent'⟩ := ih hf (by rw [hsent]; omega)
    exact ⟨hf', hctl.trans hctl', hhost'.trans hhost, hfired'.trans hfired, by rw [hsent', hsent]; omega⟩

end Firing

/-- A shot of the present job is one of the command at `head`. -/
theorem Sim.Doing.shooting_of_shot (hd : s.Doing a) {r m : ℕ} (hx : s.Has (.shot r m))
    (hjob : (s.runs r).job = s.module.job) :
    a = .shooting r := by
  have hno : ¬s.NoShots := fun h => h r m hx hjob
  cases a with
  | off => exact absurd hd.2.2.2.2.2.2.1 hno
  | idle => exact absurd hd.2.2.2.2.2.1 hno
  | reading g => exact absurd hd.2.2.2.2.1 hno
  | shooting r' =>
    obtain ⟨-, -, -, -, -, -, -, c, -, hs⟩ := hd
    rw [(hs.shots r m hx hjob).1]
  | recording st index => exact absurd hd.2.2.2.2.2.1 hno
  | wedged => exact absurd hd.2.2.2.2.1 hno
  | torn => exact absurd hd.2.2.2.2.2.2.2.2.1 hno
  | dead => exact absurd hx (hd.2.2.1 r m)

/-- A step of the module's work keeps what holds in every state. -/
theorem Sim.Safe.worked (h : s.Safe a) (ht : a ≠ .torn) (hd : a ≠ .dead) (hw : a ≠ .wedged) (hworked : Worked s s') :
    ∃ a', s'.Safe a' := by
  obtain ⟨hqueue, hcontrol, hhost, hfired, a', ht', hd', hdoing⟩ := hworked
  exact ⟨a', hqueue, hhost ▸ h.book, hdoing, hcontrol.work h.queue hqueue ht hd hw ht' hd' h.wires, fun c hc =>
    h.clean c (hfired ▸ hc)⟩

/-- A shot: the lines that are full are sent, and the next is a tick away. -/
theorem shot_spec (h : s.Safe a) {r m : ℕ} (hq : s.q = e :: q) (hfn : e.fn = .shot r m) :
    ∃ a, ((s.withQ q).shot r m).Safe a := by
  by_cases hjob : (s.runs r).job = s.module.job
  case neg =>
    have hskip : (s.withQ q).shot r m = s.withQ q := by
      unfold Sim.shot
      dsimp only
      exact if_pos hjob
    rw [hskip]
    exact ⟨a, h.idles hq (hfn ▸ hjob) (hfn ▸ rfl) (hfn ▸ rfl)⟩
  obtain rfl := h.doing.shooting_of_shot (hfn ▸ has_head hq) hjob
  refine h.worked Activity.noConfusion Activity.noConfusion Activity.noConfusion ?_
  have hctl := SameControl.withQ hq (show e.fn.isControl = false from hfn ▸ rfl)
  obtain ⟨hup, hf, hw, hb, hr, hle, hlt, c, hc, hs⟩ := h.doing
  obtain ⟨-, hm, hsent⟩ := hs.shots r m (hfn ▸ has_head hq) hjob
  have hgo : (s.withQ q).countOf Event.isGo = s.countOf Event.isGo := by
    rw [countOf_cons hq, hfn]
    rfl
  have hnoshots : (s.withQ q).NoShots := by
    intro r' m' hx hj
    obtain ⟨rfl, -, -⟩ := hs.shots r' m' (hx.of_cons hq) hj
    have hone := hs.one
    rw [countOf_cons hq, hfn, show Event.isShot r' (.shot r' m) = true from decide_eq_true rfl, if_pos rfl] at hone
    have hpos := countOf_pos (p := Event.isShot r') hx (decide_eq_true rfl)
    omega
  have hfiring : Firing (s.withQ q) r c := by
    refine ⟨h.queue.drop hq (hfn ▸ rfl), hup.keep rfl,
      ⟨hf.before, hf.later⟩, hw, hb, fun g hl => ⟨fun x hx => (hr g hl).1 x (hx.of_cons hq), fun x d hx =>
      (hr g hl).2 x d (hx.of_cons hq)⟩, hnoshots, hle, hlt, hc, ?_⟩
    exact ⟨hs.lt, hs.job, hs.idx, hs.d, hs.rows, hs.cols, hs.out, hs.status, hs.n, hs.raw, hs.slot,
      fun r' m' hx => hs.shots r' m' (hx.of_cons hq), (countOf_withQ_le hq _).trans hs.one, fun g x hx =>
        hs.gos g x (hx.of_cons hq),
      by rw [hgo]; exact hs.count, hs.sent, hs.ordered,
      fun i hi => (hs.written i hi).imp_right fun hx => ((has_cons hq).mp hx).resolve_left fun he =>
        Event.noConfusion (he.trans hfn),
      fun x d hx => hs.lands x d (hx.of_cons hq)⟩
  unfold Sim.shot
  dsimp only
  rw [if_neg (not_not.mpr hjob), hs.rows, hs.cols, hs.n]
  set full := min c.outLines (if m + 1 = c.M then c.outLines else (m + 1) * c.N * R_BYTES / LINE) with hfull
  have hfulln : full ≤ c.outLines := Nat.min_le_left _ _
  obtain ⟨hf', hctl', hhost', hfired', hsent'⟩ :=
    hfiring.sendLines (full - (s.runs r).sent) (show (s.runs r).sent + (full - (s.runs r).sent) ≤ c.outLines from by
      have := hs.sent
      omega)
  have hdone : Worked (s.withQ q) (sendLines r (full - (s.runs r).sent) (s.withQ q)) :=
    ⟨hf'.queue, hctl', hhost', hfired', .shooting r, Activity.noConfusion, Activity.noConfusion, hf'.doing⟩
  by_cases hmore : m + 1 < c.M
  case neg =>
    rw [if_neg hmore]
    exact hdone.of hctl rfl rfl
  rw [if_pos hmore]
  generalize Sim.sendLines r (full - (s.runs r).sent) (s.withQ q) = s₁ at hf' hctl' hhost' hfired' hsent' ⊢
  refine Worked.of (s := s.withQ q) ⟨hf'.queue.after le_rfl (fun _ => by decide) (fun _ _ he =>
    Event.noConfusion he) rfl
    ⟨hf'.run.lt, hf'.run.job.le⟩, hctl'.trans (.after rfl),
    hhost', hfired', .shooting r, Activity.noConfusion, Activity.noConfusion, ?_⟩ hctl rfl rfl
  refine ⟨hf'.up.keep rfl,
    ⟨hf'.front.before, hf'.front.later⟩, hf'.wedged, hf'.busy, fun g hl => ⟨fun x hx => ?_, fun x d hx => ?_⟩,
    hf'.hhead, hf'.tail, c,
    hf'.cmd, ?_⟩
  · exact (hf'.reads g hl).1 x ((has_after.mp hx).resolve_left Event.noConfusion)
  · exact (hf'.reads g hl).2 x d ((has_after.mp hx).resolve_left Event.noConfusion)
  have hrun := hf'.run
  refine ⟨hrun.lt, hrun.job, hrun.idx, hrun.d, hrun.rows, hrun.cols, hrun.out, hrun.status, hrun.n, hrun.raw,
    hrun.slot, ?_, ?_, ?_, ?_, hrun.sent, hrun.ordered, ?_, ?_⟩
  · intro r' m' hx hj
    rcases has_after.mp hx with hx | hx
    · obtain ⟨rfl, rfl⟩ := Event.shot.inj hx
      refine ⟨rfl, hmore, ?_⟩
      change (s₁.runs r').sent ≤ _
      rw [hsent']
      -- what was sent before, and what this shot fills
      have hmono : m * c.N * R_BYTES / LINE ≤ (m + 1) * c.N * R_BYTES / LINE :=
        Nat.div_le_div_right (Nat.mul_le_mul_right _ (Nat.mul_le_mul_right _ (Nat.le_succ m)))
      have hle' : full ≤ (m + 1) * c.N * R_BYTES / LINE := by
        rw [hfull, if_neg (Nat.ne_of_lt hmore)]
        exact Nat.min_le_right _ _
      change (s.runs r').sent + (full - (s.runs r').sent) ≤ _
      omega
    · exact absurd hj (hf'.shots r' m' hx)
  · have hzero : s₁.countOf (Event.isShot r) = 0 := by
      refine List.countP_eq_zero.mpr fun e' he' hsh => ?_
      cases hfn' : e'.fn with
      | shot r' m' =>
        rw [hfn'] at hsh
        obtain rfl : r' = r := of_decide_eq_true hsh
        exact hf'.shots r' m' ⟨e', he', hfn'⟩ hrun.job
      | _ => rw [hfn'] at hsh; exact absurd hsh Bool.false_ne_true
    rw [countOf_after, hzero]
    exact (Nat.zero_add _).trans_le (by split <;> decide)
  · exact fun g x hx => hrun.gos g x ((has_after.mp hx).resolve_left Event.noConfusion)
  · rw [countOf_after]
    exact hrun.count
  · exact fun i hi => (hrun.written i hi).imp_right fun hx => has_after.mpr (.inr hx)
  · exact fun x d hx => hrun.lands x d ((has_after.mp hx).resolve_left Event.noConfusion)

/-! ## Notices -/

theorem settle_eq (h : s.module.draining = false) : s.settle = s := by
  unfold Sim.settle
  exact if_neg fun hd => Bool.false_ne_true (h.symm.trans hd.1)

theorem kick_draining (s : Sim) : s.kick.module.draining = s.module.draining := by
  unfold Sim.kick
  split
  · obtain ⟨q, n, d, hstate⟩ := readLines_eq (s.setModule { s.module with busy := true })
      [(s.setModule { s.module with busy := true }).slot s.module.head] (.gotDescriptor s.module.head)
    dsimp only
    change ((s.setModule { s.module with busy := true }).readLines
      [(s.setModule { s.module with busy := true }).slot s.module.head]
        (.gotDescriptor s.module.head)).module.draining = _
    rw [hstate]
    rfl
  · rfl

/-- Until its last shot a GEMM has not filled its last line. -/
theorem filled_lt {m M N : ℕ} (hm : m < M) (hN : 0 < N) : m * N * R_BYTES / LINE < lines (M * N * R_BYTES) := by
  have hmul : (m + 1) * N ≤ M * N := Nat.mul_le_mul_right N hm
  rw [Nat.succ_mul] at hmul
  unfold lines
  change m * N * 4 / 64 < (M * N * 4 + 63) / 64
  omega

/-- The module learns that a line of results is ordered, and writes the record after the last. -/
theorem ordered_worked (h : s.Safe (.shooting r)) {gen : ℕ} (hq : s.q = e :: q) (hfn : e.fn = .go gen (.ordered r)) :
    Worked s ((((s.withQ q).setModule { s.module with inflight := s.module.inflight - 1 }).ordered r).settle) := by
  obtain ⟨hup, hf, hw, hb, hr, hle, hlt, c, hc, hs⟩ := h.doing
  have hwf := (h.book.wf _ c hc).1
  have hqueue := h.queue.dropGo hq (show e.fn.isGo = true from hfn ▸ rfl)
  have hctl₀ : SameControl s ((s.withQ q).setModule { s.module with inflight := s.module.inflight - 1 }) :=
    (SameControl.withQ hq (hfn ▸ rfl)).trans ⟨rfl, rfl, rfl, rfl, rfl, rfl, rfl, rfl, rfl, rfl, rfl, rfl, rfl, rfl⟩
  set s₀ : Sim := (s.withQ q).setModule { s.module with inflight := s.module.inflight - 1 } with hs₀
  have hhas : ∀ {fn}, s₀.Has fn → s.Has fn := fun hx => Has.of_cons hq hx
  have hcount : s.countOf Event.isGo = s₀.countOf Event.isGo + 1 := by
    rw [countOf_cons hq, hfn]
    rfl
  set run : Shots := { s.runs r with ordered := (s.runs r).ordered + 1 } with hrun
  change Worked s ((if run.ordered = run.n ∧ run.job = (s₀.setRun r run).module.job then
    (s₀.setRun r run).endSlot run.idx run.d run.status run.index else s₀.setRun r run).settle)
  have hself : (s₀.setRun r run).runs r = run := Function.update_self _ _ _
  have hjob : ∀ r', ((s₀.setRun r run).runs r').job = (s.runs r').job := by
    intro r'
    by_cases hr' : r' = r
    · subst hr'
      rw [hself]
    · exact congrArg Shots.job (Function.update_of_ne hr' _ _)
  have hqueue₁ : Queue (s₀.setRun r run) :=
    hqueue.move rfl rfl rfl rfl rfl (fun _ _ => ⟨rfl, rfl⟩) le_rfl (fun r' _ => hjob r') rfl le_rfl rfl
  have hctl₁ : SameControl s (s₀.setRun r run) :=
    hctl₀.trans (.beside rfl rfl rfl rfl rfl rfl)
  have hreads : (s₀.setRun r run).NoReads := fun g hl =>
    ⟨fun x hx => (hr g hl).1 x (hhas hx), fun x d hx => (hr g hl).2 x d (hhas hx)⟩
  have hlands : ∀ x d, s.Has (.land x d) → s₀.Has (.land x d) := fun x d hx =>
    ((has_cons hq).mp hx).resolve_left fun he => Event.noConfusion (he.trans hfn)
  have htotal := hs.count
  -- the record is written on the last notice, not when the last line is sent
  by_cases hlast : (s.runs r).ordered + 1 = (s.runs r).n ∧ (s.runs r).job = s.module.job
  · rw [if_pos (show run.ordered = run.n ∧ run.job = (s₀.setRun r run).module.job from hlast)]
    have hn : (s.runs r).ordered + 1 = c.outLines := hlast.1.trans hs.n
    have hsent : (s.runs r).sent = c.outLines := by
      have := hs.sent
      omega
    -- every line has been sent and ordered
    have hnolines : (s₀.setRun r run).NoLines := hqueue₁.noLines (show s₀.countOf Event.isGo = 0 by omega)
    -- a shot still to come would have a line to fill
    have hnoshots : (s₀.setRun r run).NoShots := by
      intro r' m hx hj
      rw [hjob] at hj
      obtain ⟨rfl, hm, hfull⟩ := hs.shots r' m (hhas hx) hj
      have hlt := filled_lt hm hwf.pos.2.2
      rw [← hwf.outLines] at hlt
      omega
    have hfinished : Finished s.mem c (s.runs r).index := by
      intro i hi
      rcases hs.written i (hsent.symm ▸ hi) with hm | hx
      · rw [hm, hs.raw]
      · exact absurd (hlands _ _ hx) (hnolines.2 _ _)
    have hbetween : Between (s₀.setRun r run) c :=
      ⟨hup.keep rfl, ⟨hf.before, hf.later⟩, hw, hb, hreads, hnoshots, hnolines, hle, hlt, hc⟩
    rw [settle_eq (show ((s₀.setRun r run).endSlot run.idx run.d run.status run.index).module.draining = false from
      hup.draining)]
    rw [show run.idx = (s₀.setRun r run).module.head from hs.idx, show run.d = c.desc from hs.d,
      show run.status = DONE from hs.status]
    exact (hbetween.endSlot hqueue₁ hs.slot (.inl ⟨rfl, hfinished⟩)).of hctl₁ rfl rfl
  · rw [if_neg (show ¬(run.ordered = run.n ∧ run.job = (s₀.setRun r run).module.job) from hlast)]
    rw [settle_eq (show (s₀.setRun r run).module.draining = false from hup.draining)]
    refine ⟨hqueue₁, hctl₁, rfl, rfl, .shooting r, Activity.noConfusion, Activity.noConfusion, ?_⟩
    refine ⟨hup.keep rfl, ⟨hf.before, hf.later⟩, hw, hb, hreads, hle, hlt, c, hc, ?_⟩
    constructor
    case lt => exact hs.lt
    case job => rw [hself]; exact hs.job
    case idx => rw [hself]; exact hs.idx
    case d => rw [hself]; exact hs.d
    case rows => rw [hself]; exact hs.rows
    case cols => rw [hself]; exact hs.cols
    case out => rw [hself]; exact hs.out
    case status => rw [hself]; exact hs.status
    case n => rw [hself]; exact hs.n
    case raw => rw [hself]; exact hs.raw
    case slot => exact hs.slot
    case shots =>
      intro r' m hx hj
      rw [hjob] at hj
      rw [hself]
      exact hs.shots r' m (hhas hx) hj
    case one => exact (countOf_withQ_le hq _).trans hs.one
    case gos => exact fun g x hx => hs.gos g x (hhas hx)
    case count =>
      rw [hself]
      change s₀.countOf Event.isGo + ((s.runs r).ordered + 1) = (s.runs r).sent
      omega
    case sent => rw [hself]; exact hs.sent
    case ordered =>
      rw [hself]
      have hne : (s.runs r).ordered + 1 ≠ c.outLines := fun he => hlast ⟨he.trans hs.n.symm, hs.job⟩
      exact lt_of_le_of_ne hs.ordered hne
    case written => rw [hself]; exact fun i hi => (hs.written i hi).imp_right (hlands _ _)
    case lands => rw [hself]; exact fun x d hx => hs.lands x d (hhas hx)

/-- The module learns that the record is ordered: `head` moves over a slot that has its record. -/
theorem ended_worked {st index : ℕ} (h : s.Safe (.recording st index)) {gen : ℕ} (hq : s.q = e :: q)
    (hfn : e.fn = .go gen (.ended s.module.head st s.module.job)) :
    Worked s ((((s.withQ q).setModule { s.module with inflight := s.module.inflight - 1 }).ended s.module.head st
      s.module.job).settle) := by
  obtain ⟨hup, hf, hw, hb, hr, hsh, hle, hlt, c, hc, hs⟩ := h.doing
  have hqueue := h.queue.dropGo hq (show e.fn.isGo = true from hfn ▸ rfl)
  have hcount : s.countOf Event.isGo = (s.withQ q).countOf Event.isGo + 1 := by
    rw [countOf_cons hq, hfn]
    rfl
  have hhead : (s.module.head + 1) % 2 ^ 32 = s.module.head + 1 :=
    Nat.mod_eq_of_lt ((Nat.succ_le_of_lt hlt).trans_lt (hup.next.trans_lt h.book.short))
  set m : Module := { s.module with
    inflight := s.module.inflight - 1, busy := false, head := s.module.head + 1, prev := some st } with hm
  have hended :
      ((s.withQ q).setModule { s.module with inflight := s.module.inflight - 1 }).ended s.module.head st s.module.job =
      (((s.withQ q).setModule m).irq (s.module.head + 1)).kick := by
    unfold Sim.ended
    dsimp only
    refine (if_neg (not_or.mpr ⟨not_not.mpr rfl, not_not.mpr hup.enable⟩)).trans ?_
    rw [hhead]
    rfl
  rw [hended]
  have hqueue₁ : Queue ((s.withQ q).setModule m) := hqueue.setModule m rfl le_rfl rfl
  have hctl₁ : SameControl s ((s.withQ q).setModule m) :=
    (SameControl.withQ hq (hfn ▸ rfl)).trans (.setModule _ _ rfl rfl rfl rfl rfl)
  -- the record has landed before the module's notice of it
  have hnolines : ((s.withQ q).setModule m).NoLines := by
    refine hqueue₁.noLines ?_
    have hone := hs.count
    change (s.withQ q).countOf Event.isGo = 0
    omega
  have hrecorded : s.host.hhead ≤ s.module.head → Recorded s.mem s.module.head c := by
    intro hle'
    rcases hs.slot hle' with hm | ⟨-, hx⟩
    · exact ⟨st, index, hm, hs.told⟩
    · exact absurd (((has_cons hq).mp hx).resolve_left fun he => Event.noConfusion (he.trans hfn)) (hnolines.2 _ _)
  have hidle : ((s.withQ q).setModule m).Doing .idle := by
    refine ⟨⟨hup.enable, hup.enabled, hup.draining, hup.base, hup.size, hlt, hup.next⟩, ⟨?_, ?_⟩, hw, rfl,
      fun g hl => ⟨fun x hx => (hr g hl).1 x (Has.of_cons hq hx), fun x d hx => (hr g hl).2 x d (Has.of_cons hq hx)⟩,
      fun r m' hx => hsh r m' (Has.of_cons hq hx), hnolines, hle, ?_⟩
    · intro idx c' hge hlt' hc'
      rcases Nat.lt_succ_iff_lt_or_eq.mp hlt' with hlt' | rfl
      · exact hf.before idx c' hge hlt' hc'
      · obtain rfl := Option.some.inj (hc.symm.trans hc')
        exact hrecorded hge
    · exact fun idx c' hlt' hc' => hf.later idx c' ((Nat.lt_succ_self _).trans hlt') hc'
    · exact fun c' hc' => hf.later (s.module.head + 1) c' (Nat.lt_succ_self _) hc'
  generalize hs₁ : (s.withQ q).setModule m = s₁ at hqueue₁ hctl₁ hnolines hidle ⊢
  have hhost : s₁.host = s.host := by rw [← hs₁]; rfl
  have hfired : s₁.fired = s.fired := by rw [← hs₁]; rfl
  -- the interrupt is no matter of the queue
  have hirq : Worked s₁ (s₁.irq (s.module.head + 1)) ∧ (s₁.irq (s.module.head + 1)).Doing .idle := by
    unfold Sim.irq
    split
    · have hctl : SameControl s₁ (s₁.after L 2 .msi) := .after rfl
      have hdoing : (s₁.after L 2 .msi).Doing .idle := by
        obtain ⟨hu, hf', hw', hb', hr', hsh', hl', hm'⟩ := hidle
        refine ⟨hu.keep rfl, ⟨hf'.before, hf'.later⟩, hw', hb',
          fun g hl => ⟨fun x hx => ?_, fun x d hx => ?_⟩, fun r m' hx => ?_, ⟨fun g x hx => ?_, fun x d hx => ?_⟩, hm'⟩
        · exact (hr' g hl).1 x ((has_after.mp hx).resolve_left Event.noConfusion)
        · exact (hr' g hl).2 x d ((has_after.mp hx).resolve_left Event.noConfusion)
        · exact hsh' r m' ((has_after.mp hx).resolve_left Event.noConfusion)
        · exact hl'.1 g x ((has_after.mp hx).resolve_left Event.noConfusion)
        · exact hl'.2 x d ((has_after.mp hx).resolve_left Event.noConfusion)
      exact ⟨⟨hqueue₁.after (by decide) Bool.noConfusion (fun _ _ he => Event.noConfusion he) rfl trivial, hctl,
        rfl, rfl, .idle, Activity.noConfusion, Activity.noConfusion, hdoing⟩, hdoing⟩
    · exact ⟨⟨hqueue₁, .refl _, rfl, rfl, .idle, Activity.noConfusion, Activity.noConfusion, hidle⟩, hidle⟩
  have hbook : Book (s₁.irq (s.module.head + 1)).host := by
    rw [hirq.1.host, hhost]
    exact h.book
  rw [settle_eq (by rw [kick_draining]; exact hirq.2.1.draining)]
  exact ((kick_worked hirq.1.queue hbook hirq.2).of hirq.1.control hirq.1.host hirq.1.fired).of hctl₁ hhost hfired

/-- A notice to a queue that has been torn down: it has stopped when the last is here. -/
theorem torn_spec (h : s.Safe .torn) {gen : ℕ} {x : After} (hq : s.q = e :: q) (hfn : e.fn = .go gen x)
    (hgen : gen = s.module.gen) : ((s.withQ q).go gen x).Safe .torn := by
  obtain ⟨he, hen, hw, hb, hba, hsz, hdr, hr, hs, hg, hl, hbef, hk⟩ := h.doing
  have hqueue := h.queue.dropGo hq (show e.fn.isGo = true from hfn ▸ rfl)
  have hcount : 0 < s.module.inflight :=
    h.queue.inflight ▸ countOf_pos (p := Event.isGo) (hfn ▸ has_head hq) rfl
  have hdrain : s.module.draining = true := by
    by_contra hno
    exact hcount.ne' (hdr (Bool.eq_false_iff.mpr hno))
  have hstale : s.Stale x := hg gen x (hfn ▸ has_head hq)
  have hbusy : ({ s.module with busy := false } : Module) = s.module := by rw [← hb]
  -- whatever the notice was of, no more than the count of lines has changed
  have hleft : ∀ runs : ℕ → Shots, (∀ r, (runs r).job = (s.runs r).job) →
      (settle { (s.withQ q).setModule { s.module with inflight := s.module.inflight - 1 } with
        runs := runs }).Safe .torn := by
    intro runs hjob
    set s₁ : Sim :=
      { (s.withQ q).setModule { s.module with inflight := s.module.inflight - 1 } with runs := runs } with hs₁
    have hqueue₁ : Queue s₁ :=
      hqueue.move rfl rfl rfl rfl rfl (fun _ _ => ⟨rfl, rfl⟩) le_rfl (fun r' _ => hjob r') rfl le_rfl rfl
    have hctl₁ : SameControl s s₁ :=
      (SameControl.withQ hq (hfn ▸ rfl)).trans ⟨rfl, rfl, rfl, rfl, rfl, rfl, rfl, rfl, rfl, rfl, rfl, rfl, rfl, rfl⟩
    have hreads : s₁.NoReads := fun g hl' =>
      ⟨fun y hx => (hr g hl').1 y (Has.of_cons hq hx), fun y d hx => (hr g hl').2 y d (Has.of_cons hq hx)⟩
    have hshots : s₁.NoShots := fun r m hx => by
      change (runs r).job ≠ _
      rw [hjob]
      exact hs r m (Has.of_cons hq hx)
    have hgos : ∀ gen x, s₁.Has (.go gen x) → s₁.Stale x := by
      intro gen' y hx
      have hstale' := hg gen' y (Has.of_cons hq hx)
      cases y with
      | ordered r =>
        change (runs r).job ≠ _
        rw [hjob]
        exact hstale'
      | ended => exact hstale'
    unfold Sim.settle
    split
    case isTrue hlast =>
      refine ⟨hqueue₁.setModule _ rfl le_rfl rfl, h.book, ?_, ?_, h.clean⟩
      · exact ⟨he, rfl, hw, hb, hba, hsz, fun _ => hlast.2, hreads, hshots, hgos,
          fun y d hx => hl y d (Has.of_cons hq hx), hbef, hk⟩
      · have hctl := hctl₁.trans
          (.setModule s₁ { s₁.module with enabled := false, draining := false } rfl rfl rfl rfl rfl)
        refine hctl.still (fun _ he' _ => mem_of_cons hq he') rfl (fun _ => rfl) (fun hon => ?_) h.wires
        exact ⟨hon.enable, rfl, rfl, hon.wedged, hon.busy, hon.base, hon.size, hon.tail, hon.seed⟩
    case isFalse =>
      refine ⟨hqueue₁, h.book, ?_, ?_, h.clean⟩
      · exact ⟨he, hen, hw, hb, hba, hsz, fun hno => absurd (hdrain.symm.trans hno) Bool.noConfusion, hreads,
          hshots, hgos, fun y d hx => hl y d (Has.of_cons hq hx), hbef, hk⟩
      · refine hctl₁.still (fun _ he' _ => mem_of_cons hq he') rfl id (fun hon => ?_) h.wires
        exact ⟨hon.enable, hon.enabled, hon.draining, hon.wedged, hon.busy, hon.base, hon.size, hon.tail, hon.seed⟩
  unfold Sim.go
  rw [if_neg (not_not.mpr hgen)]
  cases x with
  | ordered r =>
    have hnot : (((s.withQ q).setModule { s.module with inflight := s.module.inflight - 1 }).ordered r) =
        { (s.withQ q).setModule { s.module with inflight := s.module.inflight - 1 } with
          runs := Function.update s.runs r { s.runs r with ordered := (s.runs r).ordered + 1 } } :=
      if_neg fun hcond => hstale hcond.2
    dsimp only
    rw [hnot]
    refine hleft _ fun r' => ?_
    by_cases hr' : r' = r
    · subst hr'
      rw [Function.update_self]
    · rw [Function.update_of_ne hr']
  | ended idx st job =>
    have hnot : (((s.withQ q).setModule { s.module with inflight := s.module.inflight - 1 }).ended idx st job) =
        (s.withQ q).setModule { s.module with inflight := s.module.inflight - 1, busy := false } :=
      if_pos (.inl hstale)
    dsimp only
    rw [hnot]
    refine (congrArg (fun m : Module => (settle ((s.withQ q).setModule
      { m with inflight := m.inflight - 1 })).Safe .torn)
      hbusy).mpr (hleft s.runs fun _ => rfl)

/-- A notice that a line of the module's own is ordered. -/
theorem go_spec (h : s.Safe a) {gen : ℕ} {x : After} (hq : s.q = e :: q) (hfn : e.fn = .go gen x) :
    ∃ a, ((s.withQ q).go gen x).Safe a := by
  have hx : s.Has (.go gen x) := hfn ▸ has_head hq
  have hgen : gen = s.module.gen := by
    have hok := h.queue.ok e (hq ▸ List.mem_cons_self)
    rw [hfn] at hok
    cases x <;> exact hok.1
  have hno : ¬s.NoLines := fun hl => hl.1 gen x hx
  cases a with
  | off => exact absurd h.doing.2.2.2.2.2.2.2.1 hno
  | idle => exact absurd h.doing.2.2.2.2.2.2.1 hno
  | reading g => exact absurd h.doing.2.2.2.2.2.1 hno
  | shooting r =>
    obtain ⟨-, -, -, -, -, -, -, c, -, hs⟩ := h.doing
    obtain rfl := hs.gos gen x hx
    refine h.worked Activity.noConfusion Activity.noConfusion Activity.noConfusion ?_
    have hworked := ordered_worked h hq hfn
    unfold Sim.go
    rwa [if_neg (not_not.mpr hgen)]
  | recording st index =>
    obtain ⟨-, -, -, -, -, -, -, -, c, -, hs⟩ := h.doing
    obtain rfl := hs.gos gen x hx
    refine h.worked Activity.noConfusion Activity.noConfusion Activity.noConfusion ?_
    have hworked := ended_worked h hq hfn
    unfold Sim.go
    rwa [if_neg (not_not.mpr hgen)]
  | wedged => exact absurd h.doing.2.2.2.2.2.1 hno
  | torn => exact ⟨.torn, torn_spec h hq hfn hgen⟩
  | dead => exact absurd h.doing.2.2.2.1 hno

end Grxcp.BoardTransport
