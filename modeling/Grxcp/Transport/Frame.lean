import Grxcp.Transport.InFlight

/-!
# What the other side leaves alone

Register traffic, the host's own state and what is watched change nothing of what the module is at
(`Doing.same`), and the module's work on its lines changes nothing of the register side
(`InPhase.same`).
-/

namespace Grxcp.BoardTransport

open Agenda Runs Sim

variable {s s' : Sim} {a : Activity}

/-! ## The data side -/

/-- The two states are at the same thing: they differ on the register side, and the tail may have moved. -/
structure SameData (s s' : Sim) : Prop where
  mem : s'.mem = s.mem
  reads : s'.reads = s.reads
  readCt : s'.readCt = s.readCt
  runs : s'.runs = s.runs
  runCt : s'.runCt = s.runCt
  head : s'.module.head = s.module.head
  job : s'.module.job = s.module.job
  gen : s'.module.gen = s.module.gen
  enable : s'.module.enable = s.module.enable
  enabled : s'.module.enabled = s.module.enabled
  draining : s'.module.draining = s.module.draining
  busy : s'.module.busy = s.module.busy
  wedged : s'.module.wedged = s.module.wedged
  inflight : s'.module.inflight = s.module.inflight
  base : s'.module.base = s.module.base
  size : s'.module.sizeLog2 = s.module.sizeLog2
  tail : s.module.tail ≤ s'.module.tail
  tailNext : s.module.tail ≤ s.host.next → s'.module.tail ≤ s'.host.next
  hhead : s'.host.hhead = s.host.hhead
  cmds : s'.host.cmds = s.host.cmds
  has : ∀ fn, fn.isControl = false → (s'.Has fn ↔ s.Has fn)
  count : ∀ p, (∀ fn, fn.isControl = true → p fn = false) → s'.countOf p = s.countOf p

namespace SameData

theorem live (h : SameData s s') (g : ℕ) : s'.Live g ↔ s.Live g := by
  unfold Live
  rw [h.reads, h.job, h.gen]

theorem hasAtHost (h : SameData s s') (g a : ℕ) : s'.Has (.atHost g a) ↔ s.Has (.atHost g a) :=
  h.has _ rfl

theorem hasBack (h : SameData s s') (g a : ℕ) (d : Line) : s'.Has (.back g a d) ↔ s.Has (.back g a d) :=
  h.has _ rfl

theorem hasShot (h : SameData s s') (r m : ℕ) : s'.Has (.shot r m) ↔ s.Has (.shot r m) :=
  h.has _ rfl

theorem hasGo (h : SameData s s') (gen : ℕ) (x : After) : s'.Has (.go gen x) ↔ s.Has (.go gen x) :=
  h.has _ rfl

theorem hasLand (h : SameData s s') (a : ℕ) (d : Line) : s'.Has (.land a d) ↔ s.Has (.land a d) :=
  h.has _ rfl

theorem noReads (h : SameData s s') : s'.NoReads ↔ s.NoReads := by
  simp only [NoReads, h.live, h.hasAtHost, h.hasBack]

theorem noShots (h : SameData s s') : s'.NoShots ↔ s.NoShots := by
  simp only [NoShots, h.hasShot, h.runs, h.job]

theorem noLines (h : SameData s s') : s'.NoLines ↔ s.NoLines := by
  simp only [NoLines, h.hasGo, h.hasLand]

theorem up (h : SameData s s') (hu : s.Up) : s'.Up where
  enable := h.enable.trans hu.enable
  enabled := h.enabled.trans hu.enabled
  draining := h.draining.trans hu.draining
  base := h.base.trans hu.base
  size := h.size.trans hu.size
  tail := (h.head.trans_le hu.tail).trans h.tail
  next := h.tailNext hu.next

theorem front (h : SameData s s') (hf : s.Front) : s'.Front where
  before := by
    rw [h.mem, h.head, h.hhead, h.cmds]
    exact hf.before
  later := by
    rw [h.mem, h.head, h.cmds]
    exact hf.later

theorem readsFor (h : SameData s s') (c : Published) (read : ReadLines) : s'.ReadsFor c read ↔ s.ReadsFor c read := by
  simp only [ReadsFor, h.head]

theorem reading (h : SameData s s') {g : ℕ} {c : Published} (hr : s.Reading g c) : s'.Reading g c where
  lt := h.readCt ▸ hr.lt
  live := (h.live g).mpr hr.live
  only := by
    simp only [h.live, h.hasAtHost, h.hasBack]
    exact hr.only
  count := by
    rw [h.count _ (fun fn hfn => by cases fn <;> first | rfl | cases hfn), h.reads]
    exact hr.count
  nodup := h.reads ▸ hr.nodup
  asked := by
    simp only [h.hasAtHost, h.reads]
    exact hr.asked
  coming := by
    simp only [h.hasBack, h.reads, h.mem]
    exact hr.coming
  got := by
    rw [h.reads, h.mem]
    exact hr.got
  keys := h.reads ▸ hr.keys
  what := (h.readsFor c _).mpr (h.reads ▸ hr.what)

theorem shooting (h : SameData s s') {r : ℕ} {c : Published} (hr : s.Shooting r c) : s'.Shooting r c where
  lt := h.runCt ▸ hr.lt
  job := by rw [h.runs, h.job]; exact hr.job
  idx := by rw [h.runs, h.head]; exact hr.idx
  d := h.runs ▸ hr.d
  rows := h.runs ▸ hr.rows
  cols := h.runs ▸ hr.cols
  out := h.runs ▸ hr.out
  status := h.runs ▸ hr.status
  n := h.runs ▸ hr.n
  raw := h.runs ▸ hr.raw
  slot := by rw [h.mem, h.head]; exact hr.slot
  shots := by
    simp only [h.hasShot, h.runs, h.job]
    exact hr.shots
  one := (h.count _ (fun fn hfn => by cases fn <;> first | rfl | cases hfn)).trans_le hr.one
  gos := by
    simp only [h.hasGo]
    exact hr.gos
  count := by
    rw [h.count _ (fun fn hfn => by cases fn <;> first | rfl | cases hfn), h.runs]
    exact hr.count
  sent := h.runs ▸ hr.sent
  ordered := h.runs ▸ hr.ordered
  written := by
    simp only [h.runs, h.mem, h.hasLand]
    exact hr.written
  lands := by
    simp only [h.runs, h.hasLand]
    exact hr.lands

theorem recording (h : SameData s s') {st index : ℕ} {c : Published} (hr : s.Recording st index c) :
    s'.Recording st index c where
  told := h.mem ▸ hr.told
  gos := by
    simp only [h.hasGo, h.head, h.job]
    exact hr.gos
  count := (h.count _ (fun fn hfn => by cases fn <;> first | rfl | cases hfn)).trans hr.count
  slot := by
    rw [h.hhead, h.head, h.mem, h.hasLand]
    exact hr.slot
  one := (h.count _ (fun fn hfn => by cases fn <;> first | rfl | cases hfn)).trans_le hr.one
  lands := by
    simp only [h.hasLand, h.head, h.hhead, h.mem]
    exact hr.lands

theorem stray (h : SameData s s') (x : ℕ) (d : Line) : s'.Stray x d ↔ s.Stray x d := by
  simp only [Stray, h.hhead, h.head, h.cmds]

theorem stale (h : SameData s s') (x : After) : s'.Stale x ↔ s.Stale x := by
  cases x <;> simp only [Stale, h.runs, h.job]

/-- The register side changes nothing of what the module is at. -/
theorem doing (h : SameData s s') (hd : s.Doing a) : s'.Doing a := by
  cases a with
  | off =>
    simp only [Doing, h.enable, h.enabled, h.draining, h.wedged, h.busy, h.noReads, h.noShots, h.noLines, h.mem,
      h.hhead, h.cmds] at hd ⊢
    exact hd
  | idle =>
    obtain ⟨hup, hfront, hd⟩ := hd
    simp only [Doing, h.wedged, h.busy, h.noReads, h.noShots, h.noLines, h.mem, h.hhead, h.cmds, h.head]
    exact ⟨h.up hup, h.front hfront, hd⟩
  | reading g =>
    obtain ⟨hup, hfront, hw, hb, hs, hl, hle, hlt, c, hc, hfresh, hr⟩ := hd
    refine ⟨h.up hup, h.front hfront, h.wedged.trans hw, h.busy.trans hb, h.noShots.mpr hs, h.noLines.mpr hl, ?_,
      ?_, c, ?_, ?_, h.reading hr⟩
    · rw [h.hhead, h.head]; exact hle
    · rw [h.head]; exact hlt.trans_le h.tail
    · rw [h.cmds, h.head]; exact hc
    · rw [h.mem, h.head]; exact hfresh
  | shooting r =>
    obtain ⟨hup, hfront, hw, hb, hs, hle, hlt, c, hc, hr⟩ := hd
    refine ⟨h.up hup, h.front hfront, h.wedged.trans hw, h.busy.trans hb, h.noReads.mpr hs, ?_, ?_, c, ?_,
      h.shooting hr⟩
    · rw [h.hhead, h.head]; exact hle
    · rw [h.head]; exact hlt.trans_le h.tail
    · rw [h.cmds, h.head]; exact hc
  | recording st index =>
    obtain ⟨hup, hfront, hw, hb, hs, hl, hle, hlt, c, hc, hr⟩ := hd
    refine ⟨h.up hup, h.front hfront, h.wedged.trans hw, h.busy.trans hb, h.noReads.mpr hs, h.noShots.mpr hl, ?_,
      ?_, c, ?_, h.recording hr⟩
    · rw [h.hhead, h.head]; exact hle
    · rw [h.head]; exact hlt.trans_le h.tail
    · rw [h.cmds, h.head]; exact hc
  | wedged =>
    obtain ⟨hup, hfront, hd⟩ := hd
    simp only [Doing, h.wedged, h.noReads, h.noShots, h.noLines, h.mem, h.hhead, h.cmds, h.head]
    exact ⟨h.up hup, h.front hfront, hd⟩
  | torn =>
    simp only [Doing, h.enable, h.enabled, h.draining, h.wedged, h.busy, h.base, h.size, h.inflight, h.noReads,
      h.noShots, h.hasGo, h.hasLand, h.stale, h.stray, h.mem, h.hhead, h.head, h.cmds] at hd ⊢
    exact hd
  | dead =>
    obtain ⟨hoff, hd⟩ := hd
    simp only [Doing, h.enable, h.wedged, h.noReads, h.hasShot, h.noLines, h.mem, h.hhead, h.cmds]
    exact ⟨hoff.imp_right fun ⟨hw, hup, hfront⟩ => ⟨hw, h.up hup, h.front hfront⟩, hd⟩

/-- The fields of the module that its work does not look at, and a tail that moves forward. -/
theorem setModule (s : Sim) (m : Module) (hhead : m.head = s.module.head) (hjob : m.job = s.module.job)
    (hgen : m.gen = s.module.gen) (henable : m.enable = s.module.enable) (henabled : m.enabled = s.module.enabled)
    (hdraining : m.draining = s.module.draining) (hbusy : m.busy = s.module.busy) (hwedged : m.wedged = s.module.wedged)
    (hinflight : m.inflight = s.module.inflight) (hbase : m.base = s.module.base)
    (hsize : m.sizeLog2 = s.module.sizeLog2)
    (htail : s.module.tail ≤ m.tail) (hnext : s.module.tail ≤ s.host.next → m.tail ≤ s.host.next) :
    SameData s (s.setModule m) :=
  ⟨rfl, rfl, rfl, rfl, rfl, hhead, hjob, hgen, henable, henabled, hdraining, hbusy, hwedged, hinflight, hbase,
  hsize, htail, hnext,
    rfl, rfl, fun _ _ => Iff.rfl, fun _ _ => rfl⟩

/-- A register event in flight is no matter of the module's work. -/
theorem push (s : Sim) {dt prio : ℕ} {fn : Event} (hfn : fn.isControl = true) : SameData s (s.after dt prio fn) where
  mem := rfl
  reads := rfl
  readCt := rfl
  runs := rfl
  runCt := rfl
  head := rfl
  job := rfl
  gen := rfl
  enable := rfl
  enabled := rfl
  draining := rfl
  busy := rfl
  wedged := rfl
  inflight := rfl
  base := rfl
  size := rfl
  tail := le_rfl
  tailNext := id
  hhead := rfl
  cmds := rfl
  has := fun f hf => by
    rw [has_after]
    exact or_iff_right fun he => Bool.false_ne_true (hf.symm.trans (he ▸ hfn))
  count := fun p hp => by rw [countOf_after, hp fn hfn]; rfl

theorem drop {e : Entry Event} {q : List (Entry Event)} (hq : s.q = e :: q) (hfn : e.fn.isControl = true) :
    SameData s (s.withQ q) where
  mem := rfl
  reads := rfl
  readCt := rfl
  runs := rfl
  runCt := rfl
  head := rfl
  job := rfl
  gen := rfl
  enable := rfl
  enabled := rfl
  draining := rfl
  busy := rfl
  wedged := rfl
  inflight := rfl
  base := rfl
  size := rfl
  tail := le_rfl
  tailNext := id
  hhead := rfl
  cmds := rfl
  has := fun f hf => by
    rw [has_cons hq]
    exact (or_iff_right fun he : f = e.fn => Bool.false_ne_true (hf.symm.trans (he ▸ hfn))).symm
  count := fun p hp => by rw [countOf_cons hq, hp e.fn hfn]; rfl

/-- What neither the module's work nor the agenda has is beside the matter. -/
theorem beside (hmem : s'.mem = s.mem) (hreads : s'.reads = s.reads) (hreadCt : s'.readCt = s.readCt)
    (hruns : s'.runs = s.runs) (hrunCt : s'.runCt = s.runCt) (hmodule : s'.module = s.module) (hq : s'.q = s.q)
    (hhead : s'.host.hhead = s.host.hhead) (hnext : s'.host.next = s.host.next) (hcmds : s'.host.cmds = s.host.cmds) :
    SameData s s' := by
  refine ⟨hmem, hreads, hreadCt, hruns, hrunCt, ?_, ?_, ?_, ?_, ?_, ?_, ?_, ?_, ?_, ?_, ?_,
    (congrArg Module.tail hmodule).ge, fun ht => ?_, hhead, hcmds, fun fn _ => ?_, fun p _ => ?_⟩
  case refine_12 => rwa [hmodule, hnext]
  case refine_13 => unfold Sim.Has; rw [hq]
  case refine_14 => unfold Sim.countOf; rw [hq]
  all_goals rw [hmodule]

end SameData

/-! ## The register side -/

namespace Sim

/-- The register side's part of the agenda. -/
def control (s : Sim) : List (Entry Event) :=
  s.q.filter fun e => e.fn.isControl

theorem mem_control {s : Sim} {e : Entry Event} : e ∈ s.control ↔ e ∈ s.q ∧ e.fn.isControl = true :=
  List.mem_filter

theorem writes_eq_control (s : Sim) : s.writes = s.control.filterMap fun e => e.fn.write? := by
  unfold writes control
  rw [List.filterMap_filter]
  refine List.filterMap_congr fun e _ => ?_
  cases hfn : e.fn <;> rfl

theorem control_after {s : Sim} {dt prio : ℕ} {fn : Event} (hfn : fn.isControl = false) :
    (s.after dt prio fn).control = s.control := by
  unfold control
  rw [← List.filterMap_eq_filter]
  refine filterMap_push_none (Option.guard fun e : Entry Event => e.fn.isControl) ?_ s.q
  rw [Option.guard, hfn]
  rfl

theorem control_cons {s : Sim} {e : Entry Event} {q : List (Entry Event)} (hq : s.q = e :: q)
    (hfn : e.fn.isControl = false) :
    (s.withQ q).control = s.control := by
  unfold control
  rw [hq, List.filter_cons, hfn]
  rfl

section SameAgenda

variable {s s' : Sim} (h : s'.control = s.control)
include h

theorem writes_of_control : s'.writes = s.writes := by
  rw [writes_eq_control, writes_eq_control, h]

theorem has_of_control {fn : Event} (hfn : fn.isControl = true) : s'.Has fn ↔ s.Has fn := by
  have hmem : ∀ s : Sim, s.Has fn ↔ ∃ e ∈ s.control, e.fn = fn := by
    intro s
    refine ⟨fun ⟨e, he, hf⟩ => ⟨e, mem_control.mpr ⟨he, hf ▸ hfn⟩, hf⟩, fun ⟨e, he, hf⟩ =>
      ⟨e, (mem_control.mp he).1, hf⟩⟩
  rw [hmem, hmem, h]

theorem noAnswers_of_control : s'.NoAnswers ↔ s.NoAnswers := by
  have hread : ∀ off box, s'.Has (.read off box) ↔ s.Has (.read off box) := fun _ _ => has_of_control h rfl
  have happend : ∀ box v, s'.Has (.append box v) ↔ s.Has (.append box v) := fun _ _ => has_of_control h rfl
  simp only [NoAnswers, hread, happend]

theorem countOf_of_control {p : Event → Bool} (hp : ∀ fn, p fn = true → fn.isControl = true) :
    s'.countOf p = s.countOf p := by
  have hcontrol : ∀ s : Sim, s.countOf p = s.control.countP fun e => p e.fn := by
    intro s
    unfold Sim.countOf Sim.control
    rw [List.countP_filter]
    refine List.countP_congr fun e _ => ?_
    rw [Bool.and_eq_true]
    exact ⟨fun hpe => ⟨hpe, hp e.fn hpe⟩, And.left⟩
  rw [hcontrol, hcontrol, h]

theorem asked_of_control (ha : s.countOf Event.isAnswer ≤ 1) : s'.countOf Event.isAnswer ≤ 1 :=
  (countOf_of_control h fun fn hfn => by cases fn <;> first | rfl | cases hfn).trans_le ha

/-- An entry of the register side. -/
theorem entry_of_control {e : Entry Event} (he : e ∈ s'.q) (hfn : e.fn.isControl = true) : e ∈ s.q :=
  (mem_control.mp (h ▸ mem_control.mpr ⟨he, hfn⟩ : e ∈ s.control)).1

end SameAgenda

theorem write_isControl {fn : Event} (h : fn.write?.isSome = true) : fn.isControl = true := by
  cases fn <;> first | rfl | cases h

end Sim

/-- The two states agree on the register side. -/
structure SameControl (s s' : Sim) : Prop where
  enable : s'.module.enable = s.module.enable
  base : s'.module.base = s.module.base
  size : s'.module.sizeLog2 = s.module.sizeLog2
  seed : s'.module.seed = s.module.seed
  tail : s'.module.tail = s.module.tail
  hhead : s'.host.hhead = s.host.hhead
  next : s'.host.next = s.host.next
  cmds : s'.host.cmds = s.host.cmds
  hseed : s'.host.seed = s.host.seed
  phase : s'.host.phase = s.host.phase
  boxes : s'.boxes = s.boxes
  boxCt : s'.boxCt = s.boxCt
  t : s'.t = s.t
  control : s'.control = s.control

namespace SameControl

/-- What neither the registers nor the host have, and the agenda has only of the module's side, is beside the
matter. -/
theorem beside (hmodule : s'.module = s.module) (hhost : s'.host = s.host) (hboxes : s'.boxes = s.boxes)
    (hboxCt : s'.boxCt = s.boxCt) (ht : s'.t = s.t) (hcontrol : s'.control = s.control) : SameControl s s' := by
  constructor <;> first | assumption | rw [hmodule] | rw [hhost]

/-- An event of the module's side is put on the agenda. -/
theorem after {dt prio : ℕ} {fn : Event} (hfn : fn.isControl = false) : SameControl s (s.after dt prio fn) :=
  .beside rfl rfl rfl rfl rfl (control_after hfn)

theorem writes (h : SameControl s s') : s'.writes = s.writes :=
  writes_of_control h.control

theorem hasRead (h : SameControl s s') (off : Reg) (box : ℕ) : s'.Has (.read off box) ↔ s.Has (.read off box) :=
  has_of_control h.control rfl

theorem hasAppend (h : SameControl s s') (box v : ℕ) : s'.Has (.append box v) ↔ s.Has (.append box v) :=
  has_of_control h.control rfl

theorem hasReset (h : SameControl s s') : s'.Has .reset ↔ s.Has .reset :=
  has_of_control h.control rfl

theorem noAnswers (h : SameControl s s') : s'.NoAnswers ↔ s.NoAnswers :=
  noAnswers_of_control h.control

theorem asked (h : SameControl s s') (ha : s.countOf Event.isAnswer ≤ 1) : s'.countOf Event.isAnswer ≤ 1 :=
  asked_of_control h.control ha

theorem entry (h : SameControl s s') {e : Entry Event} (he : e ∈ s'.q) (hfn : e.fn.isControl = true) : e ∈ s.q :=
  entry_of_control h.control he hfn

theorem leads (h : SameControl s s') {ws : List (Reg × ℕ)} (hl : Leads s ws) : Leads s' ws := by
  obtain ⟨σ, hs, halong, hen, hseed, htail⟩ := hl
  refine ⟨σ, ⟨?_, ?_, ?_, ?_, ?_, ?_, ?_⟩, ?_, hen, ?_, ?_⟩
  · rw [h.enable]; exact hs.enable
  · rw [h.base]; exact hs.base
  · rw [h.size]; exact hs.size
  · rw [h.seed]; exact hs.seed
  · rw [h.tail]; exact hs.tail
  · rw [h.tail]; exact hs.exact
  · rw [h.hhead, h.tail, h.cmds, h.seed]; exact hs.seeds
  · refine halong.mono fun σ w hw => ?_
    obtain ⟨off, v⟩ := w
    cases off <;> simp only [Track.Ok, h.hhead, h.next, h.cmds] at hw ⊢ <;> exact hw
  · rw [h.hseed]; exact hseed
  · rw [h.next]; exact htail

theorem order (h : SameControl s s')
    (ho : ∀ e ∈ s.q, ∀ e' ∈ s.q, e.fn.write?.isSome = true → (∃ off b, e'.fn = .read off b) → ¬e'.Before e) :
    ∀ e ∈ s'.q, ∀ e' ∈ s'.q, e.fn.write?.isSome = true → (∃ off b, e'.fn = .read off b) → ¬e'.Before e := by
  intro e he e' he' hw hr
  refine ho e (h.entry he (write_isControl hw)) e' (h.entry he' ?_) hw hr
  obtain ⟨off, b, hfn⟩ := hr
  rw [hfn]
  rfl

/-- The module goes on at its work, and may have sent lines. -/
theorem work (h : SameControl s s') {a' : Activity} (hqs : Queue s) (hq : Queue s') (ht : a ≠ .torn)
    (hd : a ≠ .dead) (hw : a ≠ .wedged)
    (ht' : a' ≠ .torn) (hd' : a' ≠ .dead) (hwires : s.Wires a) : s'.Wires a' := by
  have hdue : ∀ e ∈ s'.q, e.fn.write?.isSome = true → e.prio = 1 ∧ e.due ≤ s'.t + L := by
    intro e he hwr
    rw [h.t]
    exact hwires.due e (h.entry he (write_isControl hwr)) hwr
  have hboxes : ∀ b, s'.boxCt ≤ b → s'.boxes b = none := by
    rw [h.boxCt, h.boxes]
    exact hwires.boxes
  refine ⟨hdue, hboxes, h.asked hwires.asked, ?_⟩
  have hphase := hwires.phase
  rw [h.phase]
  cases hp : s.host.phase with
  | script =>
    rw [hp] at hphase
    obtain ⟨-, -, hans, hreset, hlead⟩ := hphase
    refine ⟨ht', hd', h.noAnswers.mpr hans, fun hr => hreset (h.hasReset.mp hr), .inr ?_⟩
    rw [h.writes]
    exact h.leads (hlead.resolve_left hw)
  | status t0 box =>
    rw [hp] at hphase
    obtain ⟨hbox, hreset, -, hreads, horder, happ, hans, hstate⟩ := hphase
    rcases hstate with ⟨-, -, hlate, ws, v, hws, hv, hlead⟩ | ⟨-, hbad⟩
    · -- the teardown's write has not come yet, so what is sent now is soon enough
      have hne : s.writes ≠ [] := by rw [hws]; exact List.append_ne_nil_of_right_ne_nil _ (List.cons_ne_nil _ _)
      have hnow : s.t ≤ t0 + L := by
        obtain ⟨w, hw⟩ := List.exists_mem_of_ne_nil _ hne
        obtain ⟨e, he, hwr⟩ := List.mem_filterMap.mp hw
        exact ((Nat.le_add_right _ _).trans (hqs.due e he)).trans (hlate e he (hwr ▸ rfl))
      refine ⟨h.boxCt ▸ hbox, fun hr => hreset (h.hasReset.mp hr), fun e he hl => ?_, ?_, h.order horder, ?_, ?_,
        .inl ?_⟩
      · have hsoon := hq.soon e he hl
        rw [h.t] at hsoon
        have : 3 * L + JITTER = L + (2 * L + JITTER) := by decide
        omega
      · simp only [h.hasRead]
        exact hreads
      · intro b v' hb
        exact absurd (happ b v' ((h.hasAppend b v').mp hb)).2.1 hne
      · intro v' hb
        rw [h.boxes] at hb
        exact absurd (hans v' hb).1 hne
      · refine ⟨ht', hd', fun e he hwr => hlate e (h.entry he (write_isControl hwr)) hwr, ws, v, h.writes.trans hws, hv,
          .inr (h.leads (hlead.resolve_left hw))⟩
    · rcases hbad with ⟨rfl, -, -⟩ | rfl
      · exact absurd rfl ht
      · exact absurd rfl hw
  | head box =>
    rw [hp] at hphase
    exact absurd hphase.1 ht
  | resetting wake =>
    rw [hp] at hphase
    exact absurd hphase.1 hd

/-- The module sends nothing. -/
theorem still (h : SameControl s s') (hlines : ∀ e ∈ s'.q, e.fn.isLine = true → e ∈ s.q)
    (hhead : s'.module.head = s.module.head)
    (hen : s.module.enabled = false → s'.module.enabled = false) (hon : PowerOn s.module → PowerOn s'.module)
    (hwires : s.Wires a) : s'.Wires a := by
  have hdue : ∀ e ∈ s'.q, e.fn.write?.isSome = true → e.prio = 1 ∧ e.due ≤ s'.t + L := by
    intro e he hwr
    rw [h.t]
    exact hwires.due e (h.entry he (write_isControl hwr)) hwr
  have hboxes : ∀ b, s'.boxCt ≤ b → s'.boxes b = none := by
    rw [h.boxCt, h.boxes]
    exact hwires.boxes
  have hstop : s.Stopped a → s'.Stopped a := fun hs => ⟨hs.1, hen hs.2⟩
  refine ⟨hdue, hboxes, h.asked hwires.asked, ?_⟩
  have hphase := hwires.phase
  rw [h.phase]
  cases hp : s.host.phase with
  | script =>
    rw [hp] at hphase
    obtain ⟨ht, hd, hans, hreset, hlead⟩ := hphase
    refine ⟨ht, hd, h.noAnswers.mpr hans, fun hr => hreset (h.hasReset.mp hr), hlead.imp_right fun hl => ?_⟩
    rw [h.writes]
    exact h.leads hl
  | status t0 box =>
    rw [hp] at hphase
    obtain ⟨hbox, hreset, hline, hreads, horder, happ, hans, hstate⟩ := hphase
    refine ⟨h.boxCt ▸ hbox, fun hr => hreset (h.hasReset.mp hr), fun e he hl => hline e (hlines e he hl) hl, ?_,
      h.order horder, ?_, ?_, ?_⟩
    · simp only [h.hasRead]
      exact hreads
    · intro b v hb
      obtain ⟨hb', hws, hv⟩ := happ b v ((h.hasAppend b v).mp hb)
      exact ⟨hb', h.writes.trans hws, hv.imp_right hstop⟩
    · intro v hb
      rw [h.boxes] at hb
      obtain ⟨hws, hno, hv⟩ := hans v hb
      exact ⟨h.writes.trans hws, h.noAnswers.mpr hno, hv.imp_right hstop⟩
    · rw [h.writes, h.seed, h.hseed, h.tail, h.next]
      refine hstate.imp_left ?_
      rintro ⟨ht, hd, hlate, ws, v, hws, hv, hlead⟩
      exact ⟨ht, hd, fun e he hwr => hlate e (h.entry he (write_isControl hwr)) hwr, ws, v, hws, hv,
        hlead.imp_right h.leads⟩
  | head box =>
    rw [hp] at hphase
    obtain ⟨ha, hoff, hseed, htail, hreset, hws, hbox, hreads, happ, hans⟩ := hphase
    refine ⟨ha, hen hoff, ?_, ?_, fun hr => hreset (h.hasReset.mp hr), h.writes.trans hws, h.boxCt ▸ hbox, ?_, ?_, ?_⟩
    · rw [h.seed, h.hseed]; exact hseed
    · rw [h.tail, h.next]; exact htail
    · simp only [h.hasRead]
      exact hreads
    · intro b v hb
      obtain ⟨hb', hv⟩ := happ b v ((h.hasAppend b v).mp hb)
      exact ⟨hb', hv.trans hhead.symm⟩
    · intro v hb
      rw [h.boxes] at hb
      obtain ⟨hv, hno⟩ := hans v hb
      exact ⟨hv.trans hhead.symm, h.noAnswers.mpr hno⟩
  | resetting wake =>
    rw [hp] at hphase
    obtain ⟨ha, hans, hws, hdue', hst⟩ := hphase
    refine ⟨ha, h.noAnswers.mpr hans, h.writes.trans hws, fun e he hr => hdue' e (h.entry he (hr ▸ rfl)) hr, ?_⟩
    exact hst.imp h.hasReset.mpr hon

end SameControl

/-! ## What the host keeps to itself -/

namespace Sim.Safe

/-- The host's books change where neither side looks. -/
theorem setHost (h : s.Safe a) {h' : Host} (hbook : Book h') (hhead : h'.hhead = s.host.hhead)
    (hnext : h'.next = s.host.next)
    (hcmds : h'.cmds = s.host.cmds) (hseed : h'.seed = s.host.seed) (hphase : h'.phase = s.host.phase) :
    (s.setHost h').Safe a := by
  have hdata : SameData s (s.setHost h') :=
    .beside rfl rfl rfl rfl rfl rfl rfl hhead hnext hcmds
  have hctl : SameControl s (s.setHost h') :=
    ⟨rfl, rfl, rfl, rfl, rfl, hhead, hnext, hcmds, hseed, hphase, rfl, rfl, rfl, rfl⟩
  refine ⟨?_, hbook, hdata.doing h.doing, hctl.still (fun _ he _ => he) rfl id id h.wires, h.clean⟩
  exact h.queue.move rfl rfl rfl rfl rfl (fun _ _ => ⟨rfl, rfl⟩) le_rfl (fun _ _ => rfl) rfl le_rfl rfl

/-- A check that a script answers for is made. -/
theorem check (h : s.Safe a) {c : Check} (hc : c = .C3 ∨ c = .C4 ∨ c = .C6 ∨ c = .C11) (ok : Prop) [Decidable ok] :
    (s.check c ok).Safe a := by
  unfold Sim.check
  split
  · exact h
  have hdata : SameData s (s.fail c) := .beside rfl rfl rfl rfl rfl rfl rfl rfl rfl rfl
  have hctl : SameControl s (s.fail c) := .beside rfl rfl rfl rfl rfl rfl
  refine ⟨?_, h.book, hdata.doing h.doing, hctl.still (fun _ he _ => he) rfl id id h.wires, fun c' hc' => ?_⟩
  · exact h.queue.move rfl rfl rfl rfl rfl (fun _ _ => ⟨rfl, rfl⟩) le_rfl (fun _ _ => rfl) rfl le_rfl rfl
  · rcases Finset.mem_insert.mp hc' with rfl | hc'
    · exact hc
    · exact h.clean c' hc'

end Sim.Safe

end Grxcp.BoardTransport
