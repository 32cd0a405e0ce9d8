import Grxcp.Pta.ModuleSteps

/-!
# What holds in every run of the module

The two contracts of the queue: slots end once and in order, each with its lines, its record, the
head and the interrupt in that order; and nothing is written of a command that a teardown dropped.
-/

namespace Grxcp.PtaModule

open PtaTwin

variable {Dev σ : Type} (h : Host σ) (k : TileKernel Dev)

/-! ## The doorbell -/

/-- The doorbell's two tests together: the tail moves forward, and by no more than the ring has left.
-/
theorem takesBell_iff {ring head tail : U32} (hring : ring ≤ 1024) (hb : tail - head ≤ ring)
    (v : U32) :
    ¬(ring < v - head ∨ 0x80000000 < v - tail) ↔ v - tail ≤ ring - (tail - head) := by
  constructor
  · intro hv
    obtain ⟨h₁, h₂⟩ := not_or.mp hv
    bv_omega
  · intro hv
    refine not_or.mpr ⟨?_, ?_⟩ <;> bv_omega

/-! ## Ends in order -/

/-- Everything the queue promises of a module whose queue is enabled. -/
structure InOrder (m : Module Dev σ) (first : U32) (es : List Event) (ended : List EndedSlot)
    (rest : List Event) : Prop where
  /-- The events since `ENABLE`, which found the ring empty at `first`. -/
  session : session m.trace = some (first, es)
  /-- Of ending slots: each with its lines, its record, the head and the interrupt, in that order;
  then at most one that a failed write cut short. -/
  events : es.filter Event.ofSlot = ended.flatMap (EndedSlot.events m.slotAddr) ++ rest
  /-- One slot for each index, in order. -/
  idx : ended.map (·.idx) = (List.range ended.length).map fun i => first + BitVec.ofNat 32 i
  /-- The head is the next. -/
  head : m.head = first + BitVec.ofNat 32 ended.length
  /-- A write that failed halted the queue, and its slot has not ended and will not. -/
  rest : rest = [] ∨ (∃ n, CutShort n rest) ∧ m.halted ≠ 0 ∧
    (m.cur.live = true → m.cur.orphan = true)
  /-- So did a read. -/
  unread : ∀ a, Event.read a false ∈ es → m.halted ≠ 0

/-- The queue's discipline, in every state of every run. -/
theorem queue_discipline (b : Build) (dev : Dev) (heap : ℕ → Bool) (s : σ) (as : List Action) :
    let m := (Module.new b dev heap s).acts h k as
    (m.enable = true →
      m.tail - m.head ≤ m.ringSize ∧ ∃ first es ended rest, InOrder m first es ended rest) ∧
    (m.cur.live = true → m.cur.orphan = false → m.enable = true ∧ m.cur.idx = m.head) ∧
    (m.enable = true → ∀ v, m.write32 h k ptqTail v =
      if v - m.tail ≤ m.ringSize - (m.tail - m.head) then { m with tail := v }.service h k
      else m.halt haltDoorbell) := by
  intro m
  obtain ⟨-, hinv⟩ := reachable_inv h k b dev heap s as
  have hinv : m.queue.Inv := hinv
  refine ⟨fun he => ⟨hinv.bound he, ?_⟩, fun hl hor => ?_, fun he v => ?_⟩
  · obtain ⟨first, es, ended, rest, ho⟩ := hinv.order he
    refine ⟨first, es, ended, rest, ho.session, ho.events, ho.idx, ho.head, ?_, ?_⟩
    · refine ho.rest.imp_right fun ⟨hcut, hh, hc⟩ => ⟨hcut, by simpa [Module.queue] using hh, ?_⟩
      intro hl
      exact hc _ (by simp [Module.queue, Inflight.holder, hl]; rfl)
    · exact fun a ha => by simpa [Module.queue] using ho.unread a ha
  · obtain ⟨he, hi, -⟩ := hinv.held ⟨m.cur.n, m.cur.idx, m.cur.orphan, m.cur.status = .pending⟩
      (by simp [Module.queue, Inflight.holder, hl]) hor
    exact ⟨he, hi⟩
  · have hwrite : m.write32 h k ptqTail v = m.doorbell h k v := rfl
    have hbell : ¬(m.ringSize < v - m.head ∨ 0x80000000 < v - m.tail) ↔
        v - m.tail ≤ m.ringSize - (m.tail - m.head) :=
      takesBell_iff (ringSize_le hinv.ring) (hinv.bound he) v
    rw [hwrite]
    unfold Module.doorbell
    rw [if_neg (by simp [he])]
    by_cases hv : v - m.tail ≤ m.ringSize - (m.tail - m.head)
    · rw [if_pos hv, if_neg (hbell.mpr hv)]
    · rw [if_neg hv, if_pos (not_not.mp fun hn => hv (hbell.mp hn))]

/-! ## After a teardown -/

/-- The events one step adds, and the slots that write in it: the one held, unless it was dropped, or
the one being taken. -/
theorem Queue.Step.writes {q q' : Queue} (hs : q.Step q') :
    (∃ es, q'.trace = q.trace ++ es ∧ ∀ e ∈ es, ∀ n, e.writer = some n →
      n = q.taken ∨ ∃ c, q.cur = some c ∧ c.orphan = false ∧ c.n = n) ∧
    q.taken ≤ q'.taken ∧
    (∀ c', q'.cur = some c' → c'.n = q.taken ∨
      ∃ c, q.cur = some c ∧ c'.n = c.n ∧ (c.orphan = true → c'.orphan = true)) := by
  -- the lines read and the command handed over are written by nobody
  have hbefore : ∀ (reads : List Event) (handed : Bool) (n : ℕ) (l : List ℕ),
      (∀ e ∈ reads, e.quiet) →
      ∀ e ∈ reads ++ (if handed then [Event.handed n l] else []), e.writer = none := by
    intro reads handed n l hr e he
    obtain he | he := List.mem_append.mp he
    · exact quiet_writer (hr e he)
    · split at he
      · rw [List.mem_singleton.mp he]
        rfl
      · simp at he
  have hsame : ∀ c', q.cur = some c' → c'.n = q.taken ∨
      ∃ c, q.cur = some c ∧ c'.n = c.n ∧ (c.orphan = true → c'.orphan = true) :=
    fun c' hc => .inr ⟨c', hc, rfl, id⟩
  cases hs with
  | quiet es hq =>
    exact ⟨⟨es, rfl, fun e he n hn => by simp [quiet_writer (hq e he)] at hn⟩, le_rfl, hsame⟩
  | take ht q' hs =>
    have hcur := ht.2.2.1
    cases hs with
    | unread reads hr a =>
      refine ⟨⟨_, rfl, fun e he n hn => ?_⟩, Nat.le_succ _, hsame⟩
      obtain he | he := List.mem_append.mp he
      · simp [quiet_writer (hr e he)] at hn
      · rw [List.mem_singleton.mp he] at hn
        cases hn
    | ended reads hr handed e' hn' hi =>
      refine ⟨⟨_, rfl, fun e he n hn => .inl ?_⟩, Nat.le_succ _, hsame⟩
      obtain he | he := List.mem_append.mp he
      · simp [hbefore reads handed _ _ hr e he] at hn
      · exact (e'.writer_events _ e he n hn).trans hn'
    | failed reads hr handed es hcut =>
      refine ⟨⟨_, rfl, fun e he n hn => .inl ?_⟩, Nat.le_succ _, hsame⟩
      obtain he | he := List.mem_append.mp he
      · simp [hbefore reads handed _ _ hr e he] at hn
      · exact hcut.writer e he n hn
    | held reads hr ended inTile hin =>
      refine ⟨⟨_, rfl, fun e he n hn => ?_⟩, Nat.le_succ _, ?_⟩
      · have := hbefore reads true q.taken q.inTile hr e (by simpa using he)
        simp [this] at hn
      · intro c' hc'
        exact .inl (congrArg Holder.n (Option.some.inj hc')).symm
  | finish c hc hp q' hs =>
    cases hs with
    | orphan => exact ⟨⟨[], by simp, by simp⟩, le_rfl, by simp⟩
    | ended hor e' hn' hi =>
      exact ⟨⟨_, rfl, fun e he n hn =>
        .inr ⟨c, hc, hor, hn'.symm.trans (e'.writer_events _ e he n hn).symm⟩⟩, le_rfl, by simp⟩
    | failed hor es hcut =>
      exact ⟨⟨_, rfl, fun e he n hn => .inr ⟨c, hc, hor, (hcut.writer e he n hn).symm⟩⟩, le_rfl,
        by simp⟩
  | tile ended inTile hin =>
    refine ⟨⟨[], by simp, by simp⟩, le_rfl, fun c' hc' => ?_⟩
    obtain ⟨c, hc, rfl⟩ := Option.map_eq_some_iff.mp hc'
    exact .inr ⟨c, hc, rfl, id⟩
  | enable he => exact ⟨⟨_, rfl, by simp [Event.writer]⟩, le_rfl, hsame⟩
  | disable he =>
    refine ⟨⟨_, rfl, by simp [Event.writer]⟩, le_rfl, fun c' hc' => ?_⟩
    obtain ⟨c, hc, rfl⟩ := Option.map_eq_some_iff.mp hc'
    exact .inr ⟨c, hc, rfl, fun _ => rfl⟩
  | program => exact ⟨⟨[], by simp, by simp⟩, le_rfl, hsame⟩
  | bell => exact ⟨⟨[], by simp, by simp⟩, le_rfl, hsame⟩
  | halt => exact ⟨⟨[], by simp, by simp⟩, le_rfl, hsame⟩
  | reset => exact ⟨⟨_, rfl, by simp [Event.writer]⟩, le_rfl, by simp⟩

/-- Since a state with `N` slots taken: only slots taken later have written, and those taken earlier
are dropped if they are still held. -/
structure Queue.Since (tr : List Event) (N : ℕ) (q : Queue) : Prop where
  writes : ∃ es, q.trace = tr ++ es ∧ ∀ e ∈ es, ∀ n, e.writer = some n → N ≤ n
  taken : N ≤ q.taken
  dropped : ∀ c, q.cur = some c → c.n < N → c.orphan = true

theorem Queue.Since.step {tr : List Event} {N : ℕ} {q q' : Queue} (hq : q.Since tr N)
    (hs : q.Step q') : q'.Since tr N := by
  obtain ⟨⟨es, htr, hes⟩, htaken, hcur⟩ := hs.writes
  obtain ⟨es₀, htr₀, hes₀⟩ := hq.writes
  refine ⟨⟨es₀ ++ es, by rw [htr, htr₀, List.append_assoc], ?_⟩, hq.taken.trans htaken, ?_⟩
  · intro e he n hn
    obtain he | he := List.mem_append.mp he
    · exact hes₀ e he n hn
    · obtain rfl | ⟨c, hc, hor, rfl⟩ := hes e he n hn
      · exact hq.taken
      · by_contra hlt
        simp [hq.dropped c hc (Nat.lt_of_not_le hlt)] at hor
  · intro c' hc' hlt
    obtain hn | ⟨c, hc, hn, hor⟩ := hcur c' hc'
    · exact absurd (hn ▸ hlt) (Nat.not_lt.mpr hq.taken)
    · exact hor (hq.dropped c hc (hn ▸ hlt))

/-- A disabled queue holds no slot but a dropped one. -/
theorem Queue.Inv.since {q : Queue} (hinv : q.Inv) (he : q.enable = false) :
    q.Since q.trace q.taken where
  writes := ⟨[], by simp, by simp⟩
  taken := le_rfl
  dropped := by
    intro c hc _
    by_contra hor
    have := (hinv.held c hc (by simpa using hor)).1
    simp [he] at this

theorem enabled_of_ptqStatus {m : Module Dev σ} (hr : (m.read32 ptqStatus).2 &&& 1 = 0) :
    m.enabled = false := by
  by_contra he
  have he : m.enabled = true := by simpa using he
  have hw : (m.read32 ptqStatus).2 = 1 ||| (if m.halted ≠ 0 then statusHalted else 0) |||
      (m.halted <<< 8) := by
    show m.ptqWord ptqStatus = _
    simp [Module.ptqWord, ptqStatus, ptqId, ptqCaps, ptqCtrl, he]
  have h0 := congrArg (BitVec.getLsbD · 0) hr
  rw [hw] at h0
  simp at h0

/-- **No write after a teardown.** Once `PTQ_STATUS.ENABLED` reads zero, no line of a command taken
before that is ever written, and a command is handed to the tile only when the tile holds none of the
module's. -/
theorem no_write_after_teardown (b : Build) (dev : Dev) (heap : ℕ → Bool) (s : σ)
    (before later : List Action) :
    let m := (Module.new b dev heap s).acts h k before
    let m' := m.acts h k later
    (m.read32 ptqStatus).2 &&& 1 = 0 →
      (∃ es, m'.trace = m.trace ++ es ∧
        ∀ e ∈ es, ∀ n, e.writer = some n → m.taken ≤ n) ∧
      ∀ n inTile, .handed n inTile ∈ m'.trace → inTile = [] := by
  intro m m' hr
  obtain ⟨hok, hinv⟩ := reachable_inv h k b dev heap s before
  have he : m.queue.enable = false := hinv.status ▸ enabled_of_ptqStatus hr
  obtain ⟨-, hs⟩ := acts_refines h k m later hok
  have hsince : m'.queue.Since m.trace m.taken :=
    Runs.reflTransGen_invariant (fun _ _ hq hs => hq.step hs) hs (hinv.since he)
  have hinv' : m'.queue.Inv :=
    Runs.reflTransGen_invariant (fun _ _ hi hs => hs.inv hi) hs hinv
  exact ⟨hsince.writes, hinv'.alone⟩

/-- A descriptor of a one by one GEMM, with all its operands at address zero. -/
def unitDesc : Line :=
  put32 (put32 (put32 (put32 zeroLine dSizeVersion v1) dM 1) dK 1) dN 1

/-- A host that reads that line everywhere. -/
def unitHost : Host Unit where
  readLine _ _ := ((), some unitDesc)
  writeLine _ _ _ := ((), true)
  msi := none
  malloc _ := ((), true)

/-- A tile whose sums are all zeros. -/
def zeroKernel : TileKernel Unit where
  gemm _ _ dev _ M N _ _ _ := (dev, some (0, List.replicate (M * N).toNat 0))
  calBank _ _ dev _ _ _ := (dev, none)
  modelReset dev _ := dev
  calReset dev := dev
  columnCal dev _ _ _ := dev
  driftAge _ dev _ := dev

/-- A queue taken down with its first command in the tile, and enabled again. -/
theorem no_write_after_teardown_running :
    let m := (Module.new ⟨4, 4, 8, 32, 1, 0⟩ () (fun _ => true) ()).acts unitHost zeroKernel
      [.write32 ptqCtrl 1, .write32 ptqTail 1, .write32 ptqCtrl 0]
    inTile m.tile = [0] ∧ m.taken = 1 ∧ (m.read32 ptqStatus).2 &&& 1 = 0 ∧
      ∃ es, (m.acts unitHost zeroKernel [.write32 ptqCtrl 1, .run 100]).trace = m.trace ++ es ∧
        ∀ e ∈ es, ∀ n, e.writer = some n → m.taken ≤ n :=
  ⟨by decide +kernel, by decide +kernel, by decide +kernel, (no_write_after_teardown unitHost zeroKernel ⟨4, 4, 8, 32, 1, 0⟩
    () (fun _ => true) () [.write32 ptqCtrl 1, .write32 ptqTail 1, .write32 ptqCtrl 0]
    [.write32 ptqCtrl 1, .run 100] (by decide +kernel)).1⟩

end Grxcp.PtaModule
