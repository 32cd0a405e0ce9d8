import Grxcp.Pta.SeedProtocol
import Grxcp.Pta.ModuleRuns

/-!
# The index in the record

The module reads `PTA_GEMM_CT` as it hands a command to the tile, and the tile takes it as the command
starts. The two are one index as long as no write of `PTA_SEED` comes between them, which takes a
calibration that holds the command back: the record then names the GEMM it is about, over every run of
the module.

`Module.actOps` lists the operations an action makes on the tile, so that the tile's history is that
of `TwinMoves.lean`.
-/

namespace Grxcp.PtaModule

open PtaTwin Runs

variable {Dev σ : Type} (h : Host σ) (k : TileKernel Dev)

/-! ## The module's operations on its tile -/

/-- The operations of `take` on the tile. -/
def Module.takeOps (m : Module Dev σ) : List (Op Ptr) :=
  let idx := m.head
  let n := m.taken
  let m := { m with taken := m.taken + 1 }
  match m.readLine h (m.slotAddr idx) with
  | (_, none) => []
  | (m, some d) =>
      if unusable d then []
      else if notRun d m.prev then []
      else
        let (m, okA) := m.malloc h
        let (m, okB) := m.malloc h
        let (m, okC) := m.malloc h
        if !(okA && okB && okC) then []
        else
          match readOperands h (get64 d dWgt) ((get32 d dK).toNat * (get32 d dN).toNat) m with
          | (_, none) => []
          | (m, some B) =>
              match readOperands h (get64 d dAct) ((get32 d dM).toNat * (get32 d dK).toNat) m with
              | (_, none) => []
              | (_, some A) => [.read32 0x018, .submit (tileCmd d n A B)]

/-- The operations of `service` on the tile. -/
def serviceOps : ℕ → Module Dev σ → List (Op Ptr)
  | 0, _ => []
  | fuel + 1, m =>
      if m.cur.live then
        let m := m.finish h
        if m.cur.live then [] else serviceOps fuel m
      else if !m.enable ∨ m.halted ≠ 0 ∨ m.head = m.tail then []
      else m.takeOps h ++ serviceOps fuel (m.take h k)

/-- The operations of an action on the tile. -/
def Module.actOps (m : Module Dev σ) : Action → List (Op Ptr)
  | .read32 off => if off < ptq then [.read32 off] else []
  | .write32 off v =>
      if off < ptq then [.write32 off v]
      else if off = ptqCtrl then
        if v &&& ctrlEnable != 0 && !m.enable then
          let m := { m with irqEn := v &&& ctrlIrqEn != 0 }
          let m := { m with enable := true, enabled := true, head := m.tail, prev := none,
                            halted := 0 }.emit (.enable m.tail)
          serviceOps h k m.serviceFuel m
        else []
      else if off = ptqTail ∧ m.enable ∧ ¬(m.ringSize < v - m.head ∨ 0x80000000 < v - m.tail) then
        let m := { m with tail := v }
        serviceOps h k m.serviceFuel m
      else []
  | .run cycles =>
      let m' := m.service h k
      let m'' := m'.tileMoved (PtaTwin.run k m'.tile cycles)
      serviceOps h k m.serviceFuel m ++ .run cycles :: serviceOps h k m''.serviceFuel m''
  | .reset => [.reset]
  | .tile op =>
      [match op with
        | .read32 off => .read32 off
        | .write32 off v => .write32 off v
        | .submit c => .submit (foreignCmd c)
        | .run cycles => .run cycles
        | .age steps => .age steps
        | .reset => .reset]

/-- The operations of a sequence of actions on the tile. -/
def Module.actsOps : Module Dev σ → List Action → List (Op Ptr)
  | _, [] => []
  | m, a :: as => m.actOps h k a ++ Module.actsOps (m.act h k a) as

/-! ## The one command in the tile -/

variable {h k} {n : ℕ} {idx : U32} {s : History Dev Ptr}

/-- Every GEMM of the module's slot `n` that started took index `idx`. -/
def Named (n : ℕ) (idx : U32) (ms : List (Move Ptr)) : Prop :=
  ∀ pre c post, ms = pre ++ .start c :: post → ownNumber c = some n →
    BitVec.ofNat 32 (startsSince pre) = idx

theorem Named.snoc {ms : List (Move Ptr)} (hn : Named n idx ms) {m : Move Ptr}
    (hm : ∀ c, m = .start c → ownNumber c = some n → BitVec.ofNat 32 (startsSince ms) = idx) :
    Named n idx (ms ++ [m]) := by
  intro pre c post heq hc
  rcases List.eq_nil_or_concat post with rfl | ⟨post', x, rfl⟩
  · obtain ⟨rfl, hx⟩ := List.append_inj' heq rfl
    exact hm c (by simpa using hx) hc
  · rw [List.concat_eq_append, ← List.cons_append, ← List.append_assoc] at heq
    obtain ⟨hms, -⟩ := List.append_inj' heq rfl
    exact hn pre c post' hms hc

/-- No command of the slot has started. -/
theorem Named.of_fresh {ms : List (Move Ptr)} (hf : ∀ c, .start c ∈ ms → ownNumber c ≠ some n) :
    Named n idx ms := by
  rintro pre c post rfl hc
  exact absurd hc (hf c (by simp))

/-- What runs and what ended done has started. -/
structure Begun (s : History Dev Ptr) : Prop where
  running : s.twin.state = .gemm → .start s.twin.cur ∈ s.moves
  done : ∀ e ∈ s.ended, e.how.status = .done → .start e.cmd ∈ s.moves

/-- What the tile has of the module's is the command of slot `n`, and while it waits its index is the
next one. -/
structure Lone (n : ℕ) (idx : U32) (s : History Dev Ptr) : Prop where
  own : ∀ c ∈ accepted s.twin, ownNumber c = some n
  one : (accepted s.twin).length ≤ 1
  waiting : s.twin.q ≠ [] → s.twin.regs.gemmCt = idx

/-- A move that keeps it so. -/
def Safe (n : ℕ) (idx : U32) (s : History Dev Ptr) : Move Ptr → Prop
  | .accept c => ownNumber c = some n ∧ accepted s.twin = [] ∧ s.twin.regs.gemmCt = idx
  | .store off _ => off = 0x050 → s.twin.q = [] ∨ s.twin.regs.gemmCt = 0
  | _ => True

theorem Begun.step (hb : Begun s) {m : Move Ptr} (hm : m.Ready k s.twin) :
    Begun (s.step k m) := by
  have hkeep : (m.apply k s.twin).2 = [] →
      ((m.apply k s.twin).1.state = .gemm →
        s.twin.state = .gemm ∧ (m.apply k s.twin).1.cur = s.twin.cur) → Begun (s.step k m) := by
    intro he hs
    refine ⟨fun hg => ?_, fun e hmem hd => ?_⟩
    · obtain ⟨hg, hc⟩ := hs hg
      show .start (m.apply k s.twin).1.cur ∈ s.moves ++ [m]
      rw [hc]
      exact List.mem_append_left _ (hb.running hg)
    · rw [show (s.step k m).ended = s.ended ++ (m.apply k s.twin).2 from rfl, he,
        List.append_nil] at hmem
      exact List.mem_append_left _ (hb.done e hmem hd)
  by_cases hquiet : m.quiet = true
  · obtain ⟨hq, he⟩ := quiet_sameQueue (k := k) (t := s.twin) hquiet
    exact hkeep he fun hg => ⟨hq.state ▸ hg, hq.cur⟩
  cases m with
  | copy | pass | store | latch | age => exact absurd rfl hquiet
  | accept c => exact hkeep rfl fun hg => ⟨hg, rfl⟩
  | calNow => exact hkeep rfl fun hg => ⟨hg, rfl⟩
  | calBegin => exact hkeep rfl fun hg => absurd hg (by simp [Move.apply])
  | calEnd r => exact hkeep rfl fun hg => absurd hg (by simp [Move.apply])
  | start c =>
    obtain ⟨-, -, sats, sums, dev, -, heq⟩ := gemmBegin_started hm.2.2.2 hm.1
    have hr : (Move.start c).apply k s.twin = gemmBegin k { s.twin with q := s.twin.q.tail } c := rfl
    rw [heq] at hr
    refine ⟨fun _ => ?_, fun e hmem hd => ?_⟩
    · show .start ((Move.start c).apply k s.twin).1.cur ∈ s.moves ++ [.start c]
      rw [hr]
      exact List.mem_append_right _ List.mem_cons_self
    · rw [show (s.step k (.start c)).ended = s.ended ++ ((Move.start c).apply k s.twin).2 from rfl,
        hr, List.append_nil] at hmem
      exact List.mem_append_left _ (hb.done e hmem hd)
  | refuse c =>
    obtain ⟨heap, dev, heq⟩ := gemmBegin_refused_any hm.2.2.2
    have hr : (Move.refuse c).apply k s.twin =
        gemmBegin k { s.twin with q := s.twin.q.tail } c := rfl
    rw [heq] at hr
    refine ⟨fun hg => ?_, fun e hmem hd => ?_⟩
    · rw [show (s.step k (.refuse c)).twin = ((Move.refuse c).apply k s.twin).1 from rfl, hr] at hg
      exact absurd (hm.1.symm.trans hg) (by simp)
    · rw [show (s.step k (.refuse c)).ended = s.ended ++ ((Move.refuse c).apply k s.twin).2 from rfl,
        hr] at hmem
      rcases List.mem_append.mp hmem with hmem | hmem
      · exact List.mem_append_left _ (hb.done e hmem hd)
      · rw [List.mem_singleton.mp hmem] at hd
        cases hd
  | finish =>
    refine ⟨fun hg => absurd hg (by simp [History.step, Move.apply]), fun e hmem hd => ?_⟩
    rcases List.mem_append.mp hmem with hmem | hmem
    · exact List.mem_append_left _ (hb.done e hmem hd)
    · rw [List.mem_singleton.mp hmem]
      exact List.mem_append_left _ (hb.running hm.1)
  | reset =>
    refine ⟨fun hg => ?_, fun e hmem hd => ?_⟩
    · cases (show (PtaTwin.reset k s.twin).1.state = .gemm from hg)
    · rcases List.mem_append.mp hmem with hmem | hmem
      · exact List.mem_append_left _ (hb.done e hmem hd)
      · have hlost : ∀ e ∈ (PtaTwin.reset k s.twin).2, e.how = .lost := by
          intro e he
          simp only [PtaTwin.reset, dropAll, List.mem_append, List.mem_map] at he
          rcases he with he | ⟨c, -, rfl⟩
          · split at he
            · rw [List.mem_singleton.mp he]
            · cases he
          · rfl
        rw [hlost e hmem] at hd
        cases hd

theorem Lone.step (hl : Lone n idx s) {m : Move Ptr} (hm : m.Ready k s.twin)
    (hs : Safe n idx s m) : Lone n idx (s.step k m) := by
  have hcons := Move.conserves hm
  -- what the tile has after the move, it had before, or it is the command accepted
  have hsub : (accepted (m.apply k s.twin).1).Sublist (accepted s.twin ++ m.accepts.toList) := by
    rw [hcons]
    exact List.sublist_append_right _ _
  have hkeep : m.accepts = none → (∀ c ∈ accepted (m.apply k s.twin).1, ownNumber c = some n) ∧
      (accepted (m.apply k s.twin).1).length ≤ 1 := by
    intro ha
    rw [ha, Option.toList_none, List.append_nil] at hsub
    exact ⟨fun c hc => hl.own c (hsub.subset hc), hsub.length_le.trans hl.one⟩
  have hempty : ∀ c, s.twin.state = .idle → s.twin.q = c :: s.twin.q.tail → s.twin.q.tail = [] := by
    intro c hi hq
    have h1 := hl.one
    rw [accepted_of_not_gemm (by simp [hi]), hq, List.length_cons] at h1
    exact List.length_eq_zero_iff.mp (by omega)
  have hsame : m.accepts = none → (m.apply k s.twin).1.q = s.twin.q →
      SameCounters s.twin.regs (m.apply k s.twin).1.regs → Lone n idx (s.step k m) := by
    intro ha hq hr
    refine ⟨(hkeep ha).1, (hkeep ha).2, fun hne => ?_⟩
    exact hr.gemmCt.trans (hl.waiting (hq ▸ hne))
  cases m with
  | copy c => exact hsame rfl (copyMallocs_sameQueue _ c).q (copyMallocs_counters _ c)
  | accept c =>
    obtain ⟨hc, he, hidx⟩ := hs
    have hq : s.twin.q = [] := by
      have := he
      rw [accepted_eq, List.append_eq_nil_iff] at this
      exact this.2
    rw [he] at hsub
    refine ⟨fun c' hc' => ?_, hsub.length_le, fun _ => hidx⟩
    have := hsub.subset hc'
    simp only [Move.accepts, Option.toList_some, List.nil_append, List.mem_singleton] at this
    rw [this]
    exact hc
  | start c =>
    obtain ⟨-, -, sats, sums, dev, -, heq⟩ := gemmBegin_started hm.2.2.2 hm.1
    have hr : (Move.start c).apply k s.twin = gemmBegin k { s.twin with q := s.twin.q.tail } c := rfl
    rw [heq] at hr
    refine ⟨(hkeep rfl).1, (hkeep rfl).2, fun hne => absurd ?_ hne⟩
    show ((Move.start c).apply k s.twin).1.q = []
    rw [hr]
    exact hempty c hm.1 hm.2.2.1
  | refuse c =>
    obtain ⟨heap, dev, heq⟩ := gemmBegin_refused_any hm.2.2.2
    have hr : (Move.refuse c).apply k s.twin =
        gemmBegin k { s.twin with q := s.twin.q.tail } c := rfl
    rw [heq] at hr
    refine ⟨(hkeep rfl).1, (hkeep rfl).2, fun hne => absurd ?_ hne⟩
    show ((Move.refuse c).apply k s.twin).1.q = []
    rw [hr]
    exact hempty c hm.1 hm.2.2.1
  | finish => exact hsame rfl (gemmEnd_q _) (gemmEnd_counters _)
  | calBegin => exact hsame rfl rfl ⟨rfl, rfl, rfl, rfl⟩
  | calEnd r =>
    refine ⟨(hkeep rfl).1, (hkeep rfl).2, fun hne => ?_⟩
    exact (calEnd_counters s.twin).1.trans (hl.waiting hne)
  | pass cycles => exact hsame rfl rfl (.refl _)
  | store off v =>
    have hq := (storeWord_sameQueue k s.twin off v).q
    by_cases ho : off = 0x050
    · subst ho
      refine ⟨(hkeep rfl).1, (hkeep rfl).2, fun hne => ?_⟩
      have hne : s.twin.q ≠ [] := hne
      rcases hs rfl with h0 | h0
      · exact absurd h0 hne
      · exact (hl.waiting hne) ▸ h0.symm
    by_cases hc : off = 0x0DC
    · subst hc
      exact ⟨(hkeep rfl).1, (hkeep rfl).2, hl.waiting⟩
    · exact hsame rfl hq (storeWord_counters k _ v ho hc)
  | calNow => exact hsame rfl rfl (.refl _)
  | latch off => exact hsame rfl (read32_sameQueue _ off).q (read32_counters _ off)
  | age steps => exact hsame rfl (age_sameQueue k _ steps).q (age_counters k _ steps)
  | reset => exact ⟨(hkeep rfl).1, (hkeep rfl).2, fun hne => absurd rfl hne⟩

/-- The tile's history while it has nothing of the module's but the command of slot `n`. -/
structure Tracks (n : ℕ) (idx : U32) (s : History Dev Ptr) : Prop where
  counted : Counted s
  begun : Begun s
  lone : Lone n idx s
  named : Named n idx s.moves

/-- What a sequence of moves adds to the starts: those of slot `n`, under its index. -/
structure Grows (n : ℕ) (s s' : History Dev Ptr) : Prop where
  keeps : ∀ n' idx', n' ≠ n → Named n' idx' s.moves → Named n' idx' s'.moves
  starts : ∀ c, .start c ∈ s'.moves → .start c ∈ s.moves ∨ ownNumber c = some n
  still : ∀ c, .start c ∈ s.moves → .start c ∈ s'.moves

theorem Grows.refl (n : ℕ) (s : History Dev Ptr) : Grows n s s :=
  ⟨fun _ _ _ h => h, fun _ h => .inl h, fun _ h => h⟩

theorem Grows.trans {s' s'' : History Dev Ptr} (h₁ : Grows n s s') (h₂ : Grows n s' s'') :
    Grows n s s'' where
  keeps n' idx' hne hn := h₂.keeps n' idx' hne (h₁.keeps n' idx' hne hn)
  starts c hc := (h₂.starts c hc).elim (h₁.starts c) .inr
  still c hc := h₂.still c (h₁.still c hc)

/-- The command that starts is the one the tile has. -/
theorem Lone.started (hl : Lone n idx s) {c : Cmd Ptr} (hm : (Move.start c).Ready k s.twin) :
    ownNumber c = some n ∧ s.twin.regs.gemmCt = idx := by
  obtain ⟨hi, -, hq, -⟩ := hm
  refine ⟨hl.own c ?_, hl.waiting ?_⟩
  · rw [accepted_of_not_gemm (by simp [hi]), hq]
    exact List.mem_cons_self
  · rw [hq]
    simp

theorem Tracks.step (ht : Tracks n idx s) {m : Move Ptr} (hm : m.Ready k s.twin)
    (hs : Safe n idx s m) : Tracks n idx (s.step k m) ∧ Grows n s (s.step k m) := by
  refine ⟨⟨ht.counted.step hm, ht.begun.step hm, ht.lone.step hm hs, ?_⟩, ?_, ?_, ?_⟩
  · refine ht.named.snoc ?_
    rintro c rfl -
    rw [← ht.counted.gemmCt]
    exact (ht.lone.started hm).2
  · intro n' idx' hne hn
    refine hn.snoc ?_
    rintro c rfl hc
    have := (ht.lone.started hm).1.symm.trans hc
    exact absurd (Option.some.inj this).symm hne
  · intro c hc
    rcases List.mem_append.mp hc with hc | hc
    · exact .inl hc
    · have : Move.start c = m := List.mem_singleton.mp hc
      subst this
      exact .inr (ht.lone.started hm).1
  · exact fun c hc => List.mem_append_left _ hc

theorem Tracks.run {ms : List (Move Ptr)} :
    ∀ {s : History Dev Ptr}, Tracks n idx s →
      Along (History.step k) (fun s m => m.Ready k s.twin ∧ Safe n idx s m) s ms →
      Tracks n idx (after (History.step k) s ms) ∧
        Grows n s (after (History.step k) s ms) := by
  induction ms with
  | nil => exact fun ht _ => ⟨ht, .refl n _⟩
  | cons m ms ih =>
    intro s ht hs
    obtain ⟨ht', hg⟩ := ht.step hs.1.1 hs.1.2
    obtain ⟨ht'', hg'⟩ := ih ht' hs.2
    exact ⟨ht'', hg.trans hg'⟩

/-! ## An operation of the tile's -/

/-- The tile's own moves are safe. -/
theorem safe_of_own {m : Move Ptr} (h : m.own = true) : Safe n idx s m := by
  cases m <;> first | trivial | cases h

theorem along_own {ms : List (Move Ptr)} (h : ∀ m ∈ ms, m.own = true) (s : History Dev Ptr) :
    Along (History.step k) (Safe n idx) s ms :=
  along_of_forall (fun m hm _ => safe_of_own (h m hm)) s

/-- The operations that submit nothing, with the condition on a write of `PTA_SEED`. -/
def SafeOp (t : Twin Dev Ptr) : Op Ptr → Prop
  | .submit _ => False
  | .write32 off _ => off = 0x050 → t.q = [] ∨ t.regs.gemmCt = 0
  | _ => True

theorem SafeOp.along {o : Op Ptr} (ho : SafeOp s.twin o) :
    Along (History.step k) (Safe n idx) s (o.moves k s.twin) := by
  cases o with
  | submit c => cases ho
  | run cycles => exact along_own (loopMoves_own _ _ _) s
  | write32 off v =>
    refine ⟨ho, ?_⟩
    split
    · exact ⟨trivial, along_own (nextMoves_own _) _⟩
    · trivial
  | read32 off => exact ⟨trivial, trivial⟩
  | age steps => exact ⟨trivial, trivial⟩
  | reset => exact ⟨trivial, trivial⟩

theorem Tracks.op (ht : Tracks n idx s) {o : Op Ptr} (ho : SafeOp s.twin o) :
    Tracks n idx (opStep k s o) ∧ Grows n s (opStep k s o) :=
  ht.run (Along.and ((o.moves_spec s.twin).ready s rfl) ho.along)

/-- The module's own command, handed to a tile that has nothing. -/
theorem Tracks.submit (ht : Tracks n idx s) {c : Cmd Ptr} (hc : ownNumber c = some n)
    (he : accepted s.twin = []) (hidx : s.twin.regs.gemmCt = idx) :
    Tracks n idx (opStep k s (.submit c)) ∧ Grows n s (opStep k s (.submit c)) := by
  refine ht.run (Along.and ((Op.moves_spec s.twin (.submit c)).ready s rfl) ?_)
  show Along (History.step k) (Safe n idx) s (submitMoves k s.twin c)
  unfold submitMoves
  split
  · trivial
  split
  · trivial
  refine ⟨trivial, ?_⟩
  have htwin : (s.step k (.copy c)).twin = (copyMallocs s.twin c).2 := rfl
  have hsafe : Safe n idx (s.step k (.copy c)) (.accept (copyCmd c)) := by
    refine ⟨hc, ?_, ?_⟩
    · rw [htwin, (copyMallocs_sameQueue s.twin c).accepted]
      exact he
    · rw [htwin, (copyMallocs_counters s.twin c).gemmCt]
      exact hidx
  rcases copyMallocs s.twin c with ⟨ok, u⟩
  cases ok with
  | false => trivial
  | true =>
    dsimp only
    split
    · exact ⟨hsafe, along_own (queuedMoves_own _ _) _⟩
    · exact ⟨hsafe, trivial⟩

/-! ## The module and its tile's history -/

/-- What the records and the slot held say of the tile's history. The slots handed over so far are
below `N`. -/
structure Indexed (N : ℕ) (m : Module Dev σ) (s : History Dev Ptr) : Prop where
  twin : s.twin = m.tile
  counted : Counted s
  begun : Begun s
  fresh : ∀ c, .start c ∈ s.moves → ∃ n, ownNumber c = some n ∧ n < N
  status : ∀ c ∈ accepted m.tile, c.status = some .status
  idle : m.cur.live = false → accepted m.tile = []
  lone : m.cur.live = true → Lone m.cur.n m.cur.index s
  named : m.cur.live = true → Named m.cur.n m.cur.index s.moves ∧ m.cur.n < N
  ended : m.cur.live = true → m.cur.status ≠ .pending → accepted m.tile = []
  done : m.cur.live = true → m.cur.status = .done →
    ∃ c, .start c ∈ s.moves ∧ ownNumber c = some m.cur.n
  records : ∀ n addr line, .record n addr line true ∈ m.trace →
    get32 line dStatus = RecordStatus.done.word →
      n < N ∧ (m.cur.live = true → n ≠ m.cur.n) ∧
        (∃ c, .start c ∈ s.moves ∧ ownNumber c = some n) ∧ Named n (get32 line dIndex) s.moves

/-- An event that is not the record of a slot that ended done. -/
def Event.plain (e : Event) : Prop :=
  ∀ n addr line, e = .record n addr line true → get32 line dStatus ≠ RecordStatus.done.word

/-- The tile and the slot held stay as they are, and no slot's end by `done` is recorded. -/
structure SameSlot (m m' : Module Dev σ) : Prop where
  tile : m'.tile = m.tile
  taken : m'.taken = m.taken
  live : m'.cur.live = m.cur.live
  n : m'.cur.n = m.cur.n
  index : m'.cur.index = m.cur.index
  status : m'.cur.status = m.cur.status
  trace : ∃ es, m'.trace = m.trace ++ es ∧ ∀ e ∈ es, e.plain

theorem SameSlot.trans {m m' m'' : Module Dev σ} (h₁ : SameSlot m m') (h₂ : SameSlot m' m'') :
    SameSlot m m'' := by
  obtain ⟨es, he, hp⟩ := h₁.trace
  obtain ⟨es', he', hp'⟩ := h₂.trace
  refine ⟨h₂.tile.trans h₁.tile, h₂.taken.trans h₁.taken, h₂.live.trans h₁.live, h₂.n.trans h₁.n,
    h₂.index.trans h₁.index, h₂.status.trans h₁.status, es ++ es', ?_, ?_⟩
  · rw [he', he, List.append_assoc]
  · intro e hmem
    exact (List.mem_append.mp hmem).elim (hp e) (hp' e)

theorem Event.quiet.plain {e : Event} (h : e.quiet) : e.plain := by
  rintro n addr line rfl
  cases h

theorem Moved.sameSlot {m m' : Module Dev σ} {es : List Event} (hm : Moved m m' es)
    (he : ∀ e ∈ es, e.plain) : SameSlot m m' := by
  obtain ⟨s, rfl⟩ := hm
  exact ⟨rfl, rfl, rfl, rfl, rfl, rfl, es, rfl, he⟩

theorem Indexed.congr {N : ℕ} {m m' : Module Dev σ} (hi : Indexed N m s) (hs : SameSlot m m') :
    Indexed N m' s where
  twin := hi.twin.trans hs.tile.symm
  counted := hi.counted
  begun := hi.begun
  fresh := hi.fresh
  status := hs.tile ▸ hi.status
  idle := fun hl => hs.tile ▸ hi.idle (hs.live ▸ hl)
  lone := fun hl => by
    rw [hs.n, hs.index]
    exact hi.lone (hs.live ▸ hl)
  named := fun hl => by
    rw [hs.n, hs.index]
    exact hi.named (hs.live ▸ hl)
  ended := fun hl hst => hs.tile ▸ hi.ended (hs.live ▸ hl) (hs.status ▸ hst)
  done := fun hl hst => by
    rw [hs.n]
    exact hi.done (hs.live ▸ hl) (hs.status ▸ hst)
  records := by
    intro n addr line hmem hd
    obtain ⟨es, he, hp⟩ := hs.trace
    rw [he] at hmem
    rw [hs.live, hs.n]
    rcases List.mem_append.mp hmem with hmem | hmem
    · exact hi.records n addr line hmem hd
    · exact absurd hd (hp _ hmem n addr line rfl)

theorem Indexed.mono {N N' : ℕ} {m : Module Dev σ} (hi : Indexed N m s) (h : N ≤ N') :
    Indexed N' m s where
  __ := hi
  fresh c hc := (hi.fresh c hc).imp fun _ hn => ⟨hn.1, hn.2.trans_le h⟩
  named hl := ⟨(hi.named hl).1, (hi.named hl).2.trans_le h⟩
  records n addr line hmem hd := by
    obtain ⟨hn, hrest⟩ := hi.records n addr line hmem hd
    exact ⟨hn.trans_le h, hrest⟩

/-- A record that is not of an end by `done`. -/
theorem record_sameSlot (m : Module Dev σ) (n : ℕ) (idx : U32) (d : Line) {st : RecordStatus}
    (hst : st ≠ .done) (i : U32) (sats : U64) : SameSlot m (m.record h n idx d st i sats) := by
  have hplain : ∀ n addr (ok : Bool), Event.plain (.record n addr (recordLine d st i sats) ok) := by
    intro n addr ok n' addr' line' heq
    cases heq
    rw [get32_recordLine_status]
    exact fun hw => hst (RecordStatus.word_injective hw)
  obtain ⟨s, hr⟩ | ⟨s, irq, hr⟩ := record_cases h m n idx d st i sats
  · rw [hr]
    refine ⟨rfl, rfl, rfl, rfl, rfl, rfl, _, rfl, ?_⟩
    simpa using hplain _ _ _
  · rw [hr]
    refine ⟨rfl, rfl, rfl, rfl, rfl, rfl, _, rfl, ?_⟩
    intro e he
    rcases List.mem_append.mp he with he | he
    · rcases List.mem_cons.mp he with rfl | he
      · exact hplain _ _ _
      · rw [List.mem_singleton.mp he]
        rintro _ _ _ ⟨⟩
    · cases irq with
      | false => cases he
      | true =>
        rw [List.mem_singleton.mp he]
        rintro _ _ _ ⟨⟩

/-- The index of a record is the one it was given. -/
theorem get32_recordLine_index (d : Line) (st : RecordStatus) (i : U32) (sats : U64) :
    get32 (recordLine d st i sats) dIndex = i := by
  unfold recordLine put64 dStatus dIndex dSats
  simp (disch := omega) only [get32_put32_of_disjoint, get32_put32_self]

/-! ## Ending a slot -/

/-- The slot held has ended in the tile, and leaves the module. -/
theorem Indexed.drop {N : ℕ} {m : Module Dev σ} (hi : Indexed N m s) (hl : m.cur.live = true)
    (hst : m.cur.status ≠ .pending) : Indexed N m.drop s where
  twin := hi.twin
  counted := hi.counted
  begun := hi.begun
  fresh := hi.fresh
  status := hi.status
  idle := fun _ => hi.ended hl hst
  lone := fun h => by cases h
  named := fun h => by cases h
  ended := fun h => by cases h
  done := fun h => by cases h
  records := by
    intro n addr line hmem hd
    obtain ⟨hn, -, hrest⟩ := hi.records n addr line hmem hd
    exact ⟨hn, fun h => (by cases h), hrest⟩

/-- The record of a slot that ended done names the index under which its command started. -/
theorem Indexed.recordDone {N : ℕ} {m : Module Dev σ} (hi : Indexed N m s)
    (hl : m.cur.live = true) (hst : m.cur.status = .done) (idx : U32) (d : Line) (sats : U64) :
    Indexed N (m.record h m.cur.n idx d .done m.cur.index sats).drop s := by
  have hne : m.cur.status ≠ .pending := by simp [hst]
  have hdrop := hi.drop hl hne
  -- the records there were, and the new one
  have hrecords : ∀ es, (∀ e ∈ es, e = .record m.cur.n (m.slotAddr idx)
      (recordLine d .done m.cur.index sats) true ∨ e.plain) →
      ∀ n addr line, .record n addr line true ∈ m.trace ++ es →
        get32 line dStatus = RecordStatus.done.word → n < N ∧
          (∃ c, .start c ∈ s.moves ∧ ownNumber c = some n) ∧ Named n (get32 line dIndex) s.moves := by
    intro es hes n addr line hmem hd
    rcases List.mem_append.mp hmem with hmem | hmem
    · obtain ⟨hn, -, hrest⟩ := hi.records n addr line hmem hd
      exact ⟨hn, hrest⟩
    · rcases hes _ hmem with heq | hp
      · cases heq
        rw [get32_recordLine_index]
        exact ⟨(hi.named hl).2, hi.done hl hst, (hi.named hl).1⟩
      · exact absurd hd (hp n addr line rfl)
  obtain ⟨s', hr⟩ | ⟨s', irq, hr⟩ := record_cases h m m.cur.n idx d .done m.cur.index sats
  · have hfail : Event.plain (.record m.cur.n (m.slotAddr idx)
        (recordLine d .done m.cur.index sats) false) := by
      rintro _ _ _ ⟨⟩
    have hall := hrecords [.record m.cur.n (m.slotAddr idx)
      (recordLine d .done m.cur.index sats) false] fun e he => by
        rw [List.mem_singleton.mp he]
        exact .inr hfail
    rw [hr]
    exact { hdrop with
      twin := hi.twin
      records := fun n addr line hmem hd =>
        ⟨(hall n addr line hmem hd).1, fun h => (by cases h), (hall n addr line hmem hd).2⟩ }
  · have hall := hrecords ([.record m.cur.n (m.slotAddr idx)
      (recordLine d .done m.cur.index sats) true, .head (idx + 1)] ++ if irq then [.msi 0] else [])
      fun e he => by
        rcases List.mem_append.mp he with he | he
        · rcases List.mem_cons.mp he with rfl | he
          · exact .inl rfl
          · rw [List.mem_singleton.mp he]
            right
            rintro _ _ _ ⟨⟩
        · cases irq with
          | false => cases he
          | true =>
            rw [List.mem_singleton.mp he]
            right
            rintro _ _ _ ⟨⟩
    rw [hr]
    exact { hdrop with
      twin := hi.twin
      records := fun n addr line hmem hd =>
        ⟨(hall n addr line hmem hd).1, fun h => (by cases h), (hall n addr line hmem hd).2⟩ }

theorem resultEvents_plain {n : ℕ} {es : List Event} (hc : CutShort n es) : ∀ e ∈ es, e.plain := by
  obtain ⟨done, e, rfl, hf, -⟩ := hc
  intro x hx
  rcases List.mem_append.mp hx with hx | hx
  · obtain ⟨r, -, rfl⟩ := List.mem_map.mp hx
    rintro _ _ _ ⟨⟩
  · rw [List.mem_singleton.mp hx]
    rintro n addr line rfl
    cases hf

theorem Indexed.finish {N : ℕ} {m : Module Dev σ} (hi : Indexed N m s) :
    Indexed N (m.finish h) s := by
  unfold Module.finish
  dsimp only
  split
  · exact hi
  next hlive =>
  have hl : m.cur.live = true := by
    by_contra h
    exact hlive (.inl (by simpa using h))
  have hst : m.cur.status ≠ .pending := fun h => hlive (.inr h)
  split
  · exact hi.drop hl hst
  have hplain : ∀ st : RecordStatus, st ≠ .done →
      Indexed N (m.record h m.cur.n m.cur.idx m.cur.desc st noIndex 0).drop s := by
    intro st hne
    have hs := record_sameSlot (h := h) m m.cur.n m.cur.idx m.cur.desc hne noIndex 0
    exact (hi.congr hs).drop (hs.live.trans hl) (hs.status ▸ hst)
  cases hs : m.cur.status with
  | pending => exact absurd hs hst
  | refused => exact hplain .refused (by decide)
  | lost => exact hplain .lost (by decide)
  | done =>
    dsimp only
    obtain ⟨hb, hm⟩ | ⟨hb, es, hcut, hm⟩ :=
      writeLines_moved h m.cur (linesOf (m.cur.count * 4)) 0 m
    · rcases hwr : writeResults h m.cur m with ⟨m₁, b⟩
      have hb' : b = true := hb ▸ (congrArg Prod.snd hwr).symm
      subst hb'
      have hm : Moved m m₁ _ := (congrArg Prod.fst hwr) ▸ hm
      have hsame : SameSlot m m₁ := hm.sameSlot fun e he => by
        obtain ⟨r, -, rfl⟩ := List.mem_map.mp he
        rintro _ _ _ ⟨⟩
      have hdone := (hi.congr hsame).recordDone (h := h) (hsame.live.trans hl)
        (hsame.status.trans hs) m.cur.idx m.cur.desc (BitVec.ofInt 64 m.cur.sats)
      rwa [hsame.n, hsame.index] at hdone
    · rcases hwr : writeResults h m.cur m with ⟨m₁, b⟩
      have hb' : b = false := hb ▸ (congrArg Prod.snd hwr).symm
      subst hb'
      have hm₁ : (writeResults h m.cur m).1 = m₁ := congrArg Prod.fst hwr
      have hm : Moved m m₁ es := hm₁ ▸ hm
      have hsame : SameSlot m m₁ := hm.sameSlot (resultEvents_plain hcut)
      have hhalt : SameSlot m₁ (m₁.halt haltMemory) :=
        ⟨rfl, rfl, rfl, rfl, rfl, rfl, [], by simp [Module.halt], by simp⟩
      exact ((hi.congr hsame).congr hhalt).drop (hsame.live.trans hl) (hsame.status ▸ hst)

/-! ## The tile moves -/

theorem read32_gemmCt (t : Twin Dev Ptr) : PtaTwin.read32 t 0x018 = (t, t.regs.gemmCt) := by
  unfold PtaTwin.read32
  rw [if_neg (by decide), if_neg (by decide), if_neg (by decide)]
  rfl

/-- A tile with nothing in it is ready for any slot that has not been handed over. -/
theorem Indexed.tracks_idle {N : ℕ} {m : Module Dev σ} (hi : Indexed N m s)
    (he : accepted m.tile = []) {n : ℕ} (hn : N ≤ n) (idx : U32) : Tracks n idx s where
  counted := hi.counted
  begun := hi.begun
  lone := by
    have hq : s.twin.q = [] := by
      rw [hi.twin]
      rw [accepted_eq, List.append_eq_nil_iff] at he
      exact he.2
    refine ⟨fun c hc => ?_, ?_, fun hne => absurd hq hne⟩
    · rw [hi.twin, he] at hc
      cases hc
    · rw [hi.twin, he]
      exact Nat.zero_le 1
  named := .of_fresh fun c hc h => by
    obtain ⟨n', hn', hlt⟩ := hi.fresh c hc
    have := Option.some.inj (hn'.symm.trans h)
    omega

/-- The status word after the tile's ends: as it was, or that of a command that ended. -/
theorem endings_cases (es : List (Ending Ptr)) (f : Inflight) :
    ((es.flatMap Ending.stores).foldl Inflight.store f).status = f.status ∨
      ∃ e ∈ es, e.cmd.status = some .status ∧
        ((es.flatMap Ending.stores).foldl Inflight.store f).status = e.how.status := by
  induction es generalizing f with
  | nil => exact .inl rfl
  | cons e es ih =>
    rw [List.flatMap_cons, List.foldl_append]
    rcases ih (e.stores.foldl Inflight.store f) with h | ⟨e', he', hs, h⟩
    · rw [h, ending_status]
      by_cases hs : e.cmd.status = some .status
      · rw [if_pos hs]
        exact .inr ⟨e, List.mem_cons_self, hs, rfl⟩
      · rw [if_neg hs]
        exact .inl rfl
    · exact .inr ⟨e', List.mem_cons_of_mem _ he', hs, h⟩

/-- What the tile's ends do to the slot held, of a tile that had at most its command. -/
theorem Tracks.ends {n : ℕ} {idx : U32} {s' : History Dev Ptr} (ht : Tracks n idx s')
    {es : List (Ending Ptr)} {t' : Twin Dev Ptr} {cs : List (Cmd Ptr)}
    (hsub : ∀ e ∈ es, e ∈ s'.ended) (hone : cs.length ≤ 1)
    (hown : ∀ c ∈ cs, ownNumber c = some n) (hcons : cs = endedCmds es ++ accepted t')
    (f : Inflight) :
    let f' := (es.flatMap Ending.stores).foldl Inflight.store f
    (f'.status ≠ .pending → f.status ≠ .pending ∨ accepted t' = []) ∧
      (f'.status = .done → f.status = .done ∨ ∃ c, .start c ∈ s'.moves ∧ ownNumber c = some n) := by
  intro f'
  rcases endings_cases es f with h | ⟨e, he, hs, h⟩
  · exact ⟨fun hp => .inl (h ▸ hp), fun hd => .inl (h ▸ hd)⟩
  · have hmem : e.cmd ∈ endedCmds es := List.mem_map_of_mem he
    refine ⟨fun _ => .inr ?_, fun hd => .inr ⟨e.cmd, ?_, ?_⟩⟩
    · rw [hcons, List.length_append] at hone
      have := List.length_pos_of_mem hmem
      exact List.length_eq_zero_iff.mp (by omega)
    · exact ht.begun.done e (hsub e he) (h ▸ hd)
    · exact hown _ (hcons ▸ List.mem_append_left _ hmem)

/-- The tile's operations that submit nothing conserve its commands. -/
theorem SafeOp.conserves {t : Twin Dev Ptr} {o : Op Ptr} (ho : SafeOp t o) :
    accepted t = endedCmds (o.apply k t).2 ++ accepted (o.apply k t).1 := by
  cases o with
  | submit c => cases ho
  | run cycles => exact run_conserves k t cycles
  | write32 off v => exact write32_conserves k t off v
  | read32 off => exact (read32_accepted t off).symm
  | age steps => exact (age_accepted k t steps).symm
  | reset =>
    obtain ⟨h₁, h₂⟩ := reset_conserves k t
    show accepted t = endedCmds (PtaTwin.reset k t).2 ++ accepted (PtaTwin.reset k t).1
    rw [h₂, ← h₁, List.append_nil]

theorem tileMoved_index (m : Module Dev σ) (r : Twin Dev Ptr × List (Ending Ptr)) :
    (m.tileMoved r).cur.index = m.cur.index := by
  have hcur : (m.tileMoved r).cur = _ := stores_frame (r.2.flatMap Ending.stores) m.cur
  rw [hcur]

/-- The module after its tile moved, but for what the slot held says. -/
theorem Indexed.tile {N : ℕ} {m : Module Dev σ} (hi : Indexed N m s) {o : Op Ptr}
    (ho : SafeOp m.tile o) : Indexed N (m.tileMoved (o.apply k m.tile)) (opStep k s o) := by
  have hcons := ho.conserves (k := k)
  have hsub : (accepted (o.apply k m.tile).1).Sublist (accepted m.tile) := by
    rw [hcons]
    exact List.sublist_append_right _ _
  have htwin : (opStep k s o).twin = (o.apply k m.tile).1 := by
    rw [← hi.twin]
    exact (opStep_twin s o).1
  have hended : ∀ e ∈ (o.apply k m.tile).2, e ∈ (opStep k s o).ended := by
    rw [(opStep_twin s o).2, hi.twin]
    exact fun e he => List.mem_append_right _ he
  obtain ⟨hlive, -, -, -, -, hn, -, -⟩ := tileMoved_cur_frame m (o.apply k m.tile)
  have hidx := tileMoved_index m (o.apply k m.tile)
  have ho' : SafeOp s.twin o := hi.twin ▸ ho
  by_cases hl : m.cur.live = true
  · have ht : Tracks m.cur.n m.cur.index s := ⟨hi.counted, hi.begun, hi.lone hl, (hi.named hl).1⟩
    obtain ⟨ht', hg⟩ := ht.op ho'
    obtain ⟨hp, hd⟩ := ht'.ends (f := m.cur) hended (hi.twin ▸ (hi.lone hl).one)
      (hi.twin ▸ (hi.lone hl).own) hcons
    refine ⟨htwin, ht'.counted, ht'.begun, ?_, ?_, ?_, ?_, ?_, ?_, ?_, ?_⟩
    · intro c hc
      rcases hg.starts c hc with hc | hc
      · exact hi.fresh c hc
      · exact ⟨_, hc, (hi.named hl).2⟩
    · exact fun c hc => hi.status c (hsub.subset hc)
    · intro hl'
      rw [hlive, hl] at hl'
      cases hl'
    · intro _
      rw [hn, hidx]
      exact ht'.lone
    · intro _
      rw [hn, hidx]
      exact ⟨ht'.named, (hi.named hl).2⟩
    · intro _ hst
      rcases hp hst with hst | he
      · have := hi.ended hl hst
        rw [this] at hsub
        exact List.sublist_nil.mp hsub
      · exact he
    · intro _ hst
      rw [hn]
      rcases hd hst with hst | hc
      · exact (hi.done hl hst).imp fun c hc => ⟨hg.still c hc.1, hc.2⟩
      · exact hc
    · intro n addr line hmem hw
      obtain ⟨hlt, hne, ⟨c, hc, hcn⟩, hnamed⟩ := hi.records n addr line hmem hw
      rw [hn]
      exact ⟨hlt, fun _ => hne hl, ⟨c, hg.still c hc, hcn⟩, hg.keeps _ _ (hne hl) hnamed⟩
  · have hl : m.cur.live = false := by simpa using hl
    have he := hi.idle hl
    -- nothing can start: a start would be of every slot that has not been handed over
    obtain ⟨ht', hg⟩ := (hi.tracks_idle he (le_refl N) 0).op (k := k) ho'
    obtain ⟨-, hg'⟩ := (hi.tracks_idle he (Nat.le_succ N) 0).op (k := k) ho'
    have hold : ∀ c, .start c ∈ (opStep k s o).moves → .start c ∈ s.moves := by
      intro c hc
      rcases hg.starts c hc with h | h
      · exact h
      rcases hg'.starts c hc with h' | h'
      · exact h'
      · have := Option.some.inj (h.symm.trans h')
        omega
    refine ⟨htwin, ht'.counted, ht'.begun, fun c hc => hi.fresh c (hold c hc), ?_, ?_, ?_, ?_, ?_,
      ?_, ?_⟩
    · exact fun c hc => hi.status c (hsub.subset hc)
    · intro _
      rw [he] at hsub
      exact List.sublist_nil.mp hsub
    · intro h
      rw [hlive, hl] at h
      cases h
    · intro h
      rw [hlive, hl] at h
      cases h
    · intro h
      rw [hlive, hl] at h
      cases h
    · intro h
      rw [hlive, hl] at h
      cases h
    · intro n addr line hmem hw
      obtain ⟨hlt, -, ⟨c, hc, hcn⟩, hnamed⟩ := hi.records n addr line hmem hw
      refine ⟨hlt, fun h => ?_, ⟨c, hg.still c hc, hcn⟩, hg.keeps _ _ (by omega) hnamed⟩
      rw [hlive, hl] at h
      cases h

/-! ## Taking a slot -/

/-- Slot `N` is handed to a tile that has nothing. -/
theorem Indexed.submit {N : ℕ} {m : Module Dev σ} (hi : Indexed N m s) (hl : m.cur.live = false)
    (hN : m.taken = N + 1) (idx : U32) (d : Line) (A B : List ℤ) :
    Indexed (N + 1) (m.submit h k N idx d A B)
        (opsStep k s [.read32 0x018, .submit (tileCmd d N A B)]) ∧
      (m.submit h k N idx d A B).taken = N + 1 := by
  have he := hi.idle hl
  have hread : opStep k s (.read32 0x018) = s.step k (.latch 0x018) := rfl
  have htwin₁ : (s.step k (.latch 0x018)).twin = s.twin := by
    show (PtaTwin.read32 s.twin 0x018).1 = s.twin
    rw [read32_gemmCt]
  rw [opsStep_cons, opsStep_cons, opsStep_nil, hread]
  obtain ⟨ht₁, hg₁⟩ := (hi.tracks_idle he (le_refl N) m.tile.regs.gemmCt).step
    (k := k) (m := .latch 0x018) trivial trivial
  obtain ⟨ht, hg⟩ := ht₁.submit (k := k) (c := tileCmd d N A B) rfl
    (by rw [htwin₁, hi.twin]; exact he) (by rw [htwin₁, hi.twin])
  replace hg := hg₁.trans hg
  clear hg₁ ht₁
  obtain ⟨htwin, hended⟩ := opStep_twin (k := k) (s.step k (.latch 0x018)) (.submit (tileCmd d N A B))
  generalize hs' : opStep k (s.step k (.latch 0x018)) (.submit (tileCmd d N A B)) = s' at *
  rw [htwin₁, hi.twin] at htwin hended
  have hsub : ∀ e ∈ ((Op.submit (tileCmd d N A B)).apply k m.tile).2, e ∈ s'.ended := by
    rw [hended]
    exact fun e he => List.mem_append_right _ he
  have hfresh : ∀ c, .start c ∈ s'.moves → ∃ n, ownNumber c = some n ∧ n < N + 1 := by
    intro c hc
    rcases hg.starts c hc with hc | hc
    · exact (hi.fresh c hc).imp fun n hn => ⟨hn.1, hn.2.trans (Nat.lt_succ_self N)⟩
    · exact ⟨N, hc, Nat.lt_succ_self N⟩
  have hrecords : ∀ n addr line, .record n addr line true ∈ m.trace →
      get32 line dStatus = RecordStatus.done.word → n < N ∧
        (∃ c, .start c ∈ s'.moves ∧ ownNumber c = some n) ∧ Named n (get32 line dIndex) s'.moves := by
    intro n addr line hmem hw
    obtain ⟨hlt, -, ⟨c, hc, hcn⟩, hnamed⟩ := hi.records n addr line hmem hw
    exact ⟨hlt, ⟨c, hg.still c hc, hcn⟩, hg.keeps _ _ (by omega) hnamed⟩
  unfold Module.submit
  rw [read32_gemmCt]
  dsimp only
  rcases hsubmit : PtaTwin.submit k m.tile (tileCmd d N A B) with ⟨ok, r⟩
  have hr : (Op.submit (tileCmd d N A B)).apply k m.tile = r := by
    show (PtaTwin.submit k m.tile (tileCmd d N A B)).2 = r
    rw [hsubmit]
  rw [hr] at htwin hsub
  cases ok with
  | false =>
    obtain ⟨hes, hsame⟩ := submit_refused (k := k) (t := m.tile) (c := tileCmd d N A B)
      (by rw [hsubmit])
    rw [hsubmit] at hes hsame
    have hacc : accepted r.1 = [] := hsame.accepted.trans he
    simp only [Bool.false_eq_true, if_false]
    generalize hm : Module.drop _ = m'
    have hi' : Indexed (N + 1) m' s' := by
      rw [← hm]
      refine ⟨htwin, ht.counted, ht.begun, hfresh, ?_, fun _ => hacc, fun h => (by cases h),
        fun h => (by cases h), fun h => (by cases h), fun h => (by cases h), ?_⟩
      · intro c hc
        have hc : c ∈ accepted r.1 := hc
        rw [hacc] at hc
        cases hc
      · intro n addr line hmem hw
        rcases List.mem_append.mp hmem with hmem | hmem
        · obtain ⟨hlt, hrest⟩ := hrecords n addr line hmem hw
          exact ⟨hlt.trans (Nat.lt_succ_self N), fun h => (by cases h), hrest⟩
        · cases List.mem_singleton.mp hmem
    have hend : RecordStatus.notIssued ≠ .done := by decide
    have hframe := record_sameSlot (h := h) m' N idx d hend noIndex 0
    refine ⟨hi'.congr hframe, hframe.taken.trans ?_⟩
    rw [← hm]
    exact hN
  | true =>
    simp only [if_true]
    have hcons := submit_conserves (k := k) (t := m.tile) (c := tileCmd d N A B) (by rw [hsubmit])
    rw [hsubmit, he, List.nil_append] at hcons
    have hcons : [copyCmd (tileCmd d N A B)] = endedCmds r.2 ++ accepted r.1 := hcons
    have hown : ∀ c ∈ [copyCmd (tileCmd d N A B)], ownNumber c = some N := by
      intro c hc
      rw [List.mem_singleton.mp hc]
      rfl
    refine ⟨?_, hN⟩
    -- the slot as it is filled in
    generalize hf : ({ idx := idx, desc := d, M := get32 d dM, N := get32 d dN,
                       out := get64 d dOut, index := m.tile.regs.gemmCt, n := N } : Inflight) = f
    have hpending : f.status = .pending := by rw [← hf]
    have hindex : f.index = m.tile.regs.gemmCt := by rw [← hf]
    have hn : f.n = N := by rw [← hf]
    obtain ⟨hp, hd⟩ := ht.ends hsub (le_refl 1) hown hcons f
    have hframe := stores_frame (r.2.flatMap Ending.stores) f
    generalize hu : Module.tileMoved _ r = u
    have htile : u.tile = r.1 := by rw [← hu]; rfl
    have hcur : u.cur = (r.2.flatMap Ending.stores).foldl Inflight.store f := by rw [← hu]; rfl
    have htrace : u.trace = m.trace ++ [.handed N (inTile m.tile)] := by rw [← hu]; rfl
    rw [← hcur] at hp hd hframe
    have hun : u.cur.n = N := by
      rw [hframe]
      exact hn
    have huidx : u.cur.index = m.tile.regs.gemmCt := by
      rw [hframe]
      exact hindex
    refine ⟨htwin.trans htile.symm, ht.counted, ht.begun, hfresh, ?_, fun h => (by cases h), ?_, ?_,
      ?_, ?_, ?_⟩
    · intro c hc
      have hc : c ∈ accepted u.tile := hc
      rw [htile] at hc
      have hmem : c ∈ [copyCmd (tileCmd d N A B)] := by
        rw [hcons]
        exact List.mem_append_right _ hc
      rw [List.mem_singleton.mp hmem]
      rfl
    · intro _
      show Lone u.cur.n u.cur.index s'
      rw [hun, huidx]
      exact ht.lone
    · intro _
      show Named u.cur.n u.cur.index s'.moves ∧ u.cur.n < N + 1
      rw [hun, huidx]
      exact ⟨ht.named, Nat.lt_succ_self N⟩
    · intro _ hst
      show accepted u.tile = []
      rw [htile]
      exact (hp hst).resolve_left fun h => h hpending
    · intro _ hst
      show ∃ c, .start c ∈ s'.moves ∧ ownNumber c = some u.cur.n
      rw [hun]
      exact (hd hst).resolve_left fun h => absurd (hpending.symm.trans h) (by simp)
    · intro n addr line hmem hw
      have hmem : .record n addr line true ∈ u.trace := hmem
      show n < N + 1 ∧ (_ → n ≠ u.cur.n) ∧ _
      rw [htrace] at hmem
      rw [hun]
      rcases List.mem_append.mp hmem with hmem | hmem
      · obtain ⟨hlt, hrest⟩ := hrecords n addr line hmem hw
        exact ⟨hlt.trans (Nat.lt_succ_self N), fun _ => by omega, hrest⟩
      · cases List.mem_singleton.mp hmem

/-- Lines read, up to one that fails. -/
theorem ReadTo.sameSlot {m m' : Module Dev σ} {ok : Bool} (hr : ReadTo m m' ok) : SameSlot m m' := by
  obtain ⟨es, hq, hm⟩ := hr
  cases ok with
  | true => exact Moved.sameSlot hm fun e he => Event.quiet.plain (hq e he)
  | false =>
    obtain ⟨a, hm⟩ := hm
    refine hm.sameSlot fun e he => ?_
    rcases List.mem_append.mp he with he | he
    · exact Event.quiet.plain (hq e he)
    · rw [List.mem_singleton.mp he]
      rintro _ _ _ ⟨⟩

theorem halt_sameSlot (m : Module Dev σ) (why : U32) : SameSlot m (m.halt why) :=
  ⟨rfl, rfl, rfl, rfl, rfl, rfl, [], by simp [Module.halt], by simp⟩

/-- A slot that ends, or halts the queue, as it is taken. -/
theorem Indexed.passed {N : ℕ} {m m' : Module Dev σ} (hi : Indexed N m s) (hN : m.taken = N + 1)
    (hs : SameSlot m m') : Indexed (N + 1) m' s ∧ m'.taken = N + 1 :=
  ⟨(hi.congr hs).mono (Nat.le_succ N), hs.taken.trans hN⟩

theorem Indexed.take {m : Module Dev σ} (hi : Indexed m.taken m s) (hl : m.cur.live = false) :
    Indexed (m.take h k).taken (m.take h k) (opsStep k s (m.takeOps h)) := by
  suffices hmain : Indexed (m.taken + 1) (m.take h k) (opsStep k s (m.takeOps h)) ∧
      (m.take h k).taken = m.taken + 1 by
    rw [hmain.2]
    exact hmain.1
  have hi₀ : Indexed m.taken { m with taken := m.taken + 1 } s := { hi with }
  have hN₀ : ({ m with taken := m.taken + 1 } : Module Dev σ).taken = m.taken + 1 := rfl
  have hl₀ : ({ m with taken := m.taken + 1 } : Module Dev σ).cur.live = false := hl
  unfold Module.take Module.takeOps
  dsimp only
  generalize ({ m with taken := m.taken + 1 } : Module Dev σ) = m₀ at *
  -- what has moved since the slot was counted
  have hread : ∀ {m₁ : Module Dev σ}, SameSlot m₀ m₁ → Indexed m.taken m₁ s ∧
      m₁.taken = m.taken + 1 ∧ m₁.cur.live = false :=
    fun hs => ⟨hi₀.congr hs, hs.taken.trans hN₀, hs.live.trans hl₀⟩
  have hpassed : ∀ {m₁ m₂ : Module Dev σ}, SameSlot m₀ m₁ → SameSlot m₁ m₂ →
      Indexed (m.taken + 1) m₂ (opsStep k s []) ∧ m₂.taken = m.taken + 1 :=
    fun hs hs' => (hread hs).1.passed (hread hs).2.1 hs'
  rcases hrl : m₀.readLine h (m₀.slotAddr m.head) with ⟨m₁, _ | d⟩
  · have hs : SameSlot m₀ m₁ := (readLine_none h hrl).sameSlot fun e he => by
      rw [List.mem_singleton.mp he]
      rintro _ _ _ ⟨⟩
    exact hpassed hs (halt_sameSlot m₁ haltMemory)
  have hs : SameSlot m₀ m₁ := (readLine_some h hrl).sameSlot fun e he => by
    rw [List.mem_singleton.mp he]
    rintro _ _ _ ⟨⟩
  dsimp only
  by_cases hu : unusable d = true
  · rw [if_pos hu, if_pos hu]
    exact hpassed hs (record_sameSlot m₁ _ _ d (by decide) _ _)
  rw [if_neg hu, if_neg hu]
  by_cases hn : notRun d m₁.prev = true
  · rw [if_pos hn, if_pos hn]
    exact hpassed hs (record_sameSlot m₁ _ _ d (by decide) _ _)
  rw [if_neg hn, if_neg hn]
  have hs : SameSlot m₀ (((m₁.malloc h).1.malloc h).1.malloc h).1 :=
    hs.trans (((malloc_moved h m₁).sameSlot (by simp)).trans
      (((malloc_moved h (m₁.malloc h).1).sameSlot (by simp)).trans
        ((malloc_moved h ((m₁.malloc h).1.malloc h).1).sameSlot (by simp))))
  generalize (m₁.malloc h).2 = okA
  generalize ((m₁.malloc h).1.malloc h).2 = okB
  generalize (((m₁.malloc h).1.malloc h).1.malloc h).2 = okC
  generalize (((m₁.malloc h).1.malloc h).1.malloc h).1 = m₂ at *
  by_cases hok : (!(okA && okB && okC)) = true
  · rw [if_pos hok, if_pos hok]
    exact hpassed hs (record_sameSlot m₂ _ _ d (by decide) _ _)
  rw [if_neg hok, if_neg hok]
  have hrB := readOperands_moved h (get64 d dWgt) ((get32 d dK).toNat * (get32 d dN).toNat) m₂
  rcases hB : readOperands h (get64 d dWgt) ((get32 d dK).toNat * (get32 d dN).toNat) m₂ with
    ⟨m₃, _ | B⟩
  · rw [hB] at hrB
    exact hpassed hs (hrB.sameSlot.trans (halt_sameSlot m₃ haltMemory))
  rw [hB] at hrB
  have hs := hs.trans hrB.sameSlot
  have hrA := readOperands_moved h (get64 d dAct) ((get32 d dM).toNat * (get32 d dK).toNat) m₃
  dsimp only
  rcases hA : readOperands h (get64 d dAct) ((get32 d dM).toNat * (get32 d dK).toNat) m₃ with
    ⟨m₄, _ | A⟩
  · rw [hA] at hrA
    exact hpassed hs (hrA.sameSlot.trans (halt_sameSlot m₄ haltMemory))
  rw [hA] at hrA
  obtain ⟨hi₄, hN₄, hl₄⟩ := hread (hs.trans hrA.sameSlot)
  exact hi₄.submit hl₄ hN₄ m.head d A B

/-! ## Everything that can happen now -/

theorem finish_taken (m : Module Dev σ) : (m.finish h).taken = m.taken := by
  have hrec : ∀ (m : Module Dev σ) n idx d st i sats,
      (m.record h n idx d st i sats).taken = m.taken := by
    intro m n idx d st i sats
    obtain ⟨s, hr⟩ | ⟨s, irq, hr⟩ := record_cases h m n idx d st i sats <;> rw [hr]
  unfold Module.finish
  dsimp only
  split
  · rfl
  split
  · rfl
  cases m.cur.status with
  | done =>
    dsimp only
    have hm : (writeResults h m.cur m).1.taken = m.taken := by
      obtain ⟨-, s, hm⟩ | ⟨-, es, -, s, hm⟩ :=
        writeLines_moved h m.cur (linesOf (m.cur.count * 4)) 0 m <;>
      · show (writeLines h m.cur _ 0 m).1.taken = m.taken
        rw [hm]
    rcases hwr : writeResults h m.cur m with ⟨m₁, b⟩
    rw [hwr] at hm
    cases b with
    | false => exact hm
    | true => exact (hrec m₁ _ _ _ _ _ _).trans hm
  | pending | refused | lost => exact hrec m _ _ _ _ _ _

theorem Indexed.serviceLoop (fuel : ℕ) :
    ∀ {m : Module Dev σ} {s : History Dev Ptr}, Indexed m.taken m s →
      Indexed (serviceLoop h k fuel m).taken (serviceLoop h k fuel m)
        (opsStep k s (serviceOps h k fuel m)) := by
  induction fuel with
  | zero => exact fun hi => hi
  | succ fuel ih =>
    intro m s hi
    unfold PtaModule.serviceLoop serviceOps
    by_cases hl : m.cur.live = true
    · rw [if_pos hl, if_pos hl]
      have hi' : Indexed (m.finish h).taken (m.finish h) s := by
        rw [finish_taken]
        exact hi.finish
      dsimp only
      split
      · exact hi'
      · exact ih hi'
    · rw [if_neg hl, if_neg hl]
      split
      · exact hi
      · rw [opsStep_append]
        exact ih (hi.take (by simpa using hl))

theorem irqEdge_sameSlot (m : Module Dev σ) : SameSlot m (m.irqEdge h) := by
  have hlevel : ∀ (m' : Module Dev σ) (level : Bool), SameSlot m' { m' with irqLevel := level } :=
    fun m' level => ⟨rfl, rfl, rfl, rfl, rfl, rfl, [], by simp, by simp⟩
  unfold Module.irqEdge
  dsimp only
  split
  · obtain ⟨irq, hm⟩ := raise_moved h m 1
    refine (hm.sameSlot fun e he => ?_).trans (hlevel _ _)
    cases irq with
    | false => cases he
    | true =>
      rw [List.mem_singleton.mp he]
      rintro _ _ _ ⟨⟩
  · exact hlevel _ _

theorem Indexed.same {m m' : Module Dev σ} (hi : Indexed m.taken m s) (hs : SameSlot m m') :
    Indexed m'.taken m' s := by
  rw [hs.taken]
  exact hi.congr hs

theorem Indexed.service {m : Module Dev σ} (hi : Indexed m.taken m s) :
    Indexed (m.service h k).taken (m.service h k)
      (opsStep k s (serviceOps h k m.serviceFuel m)) :=
  (Indexed.serviceLoop m.serviceFuel hi).same (irqEdge_sameSlot _)

/-- An action through the module that does not write `PTA_SEED` while a command waits in the tile,
unless the count is zero and the write changes nothing. -/
def Action.Drained (m : Module Dev σ) : Action → Prop
  | .write32 off _ => off = 0x050 → m.tile.q = [] ∨ m.tile.regs.gemmCt = 0
  | .tile _ => False
  | _ => True

theorem Indexed.tileMoved {m : Module Dev σ} (hi : Indexed m.taken m s) {o : Op Ptr}
    (ho : SafeOp m.tile o) : Indexed (m.tileMoved (o.apply k m.tile)).taken
      (m.tileMoved (o.apply k m.tile)) (opsStep k s [o]) := by
  rw [opsStep_cons, opsStep_nil]
  exact hi.tile ho

/-- A slot left behind by a teardown keeps what the record names. -/
theorem orphaned_frame (f : Inflight) :
    let f' := if f.live then { f with orphan := true } else f
    f'.live = f.live ∧ f'.n = f.n ∧ f'.index = f.index ∧ f'.status = f.status := by
  dsimp only
  split <;> exact ⟨rfl, rfl, rfl, rfl⟩

theorem SameSlot.frame {m m' : Module Dev σ} (ht : m'.tile = m.tile) (hk : m'.taken = m.taken)
    (hc : m'.cur = m.cur) (he : m'.trace = m.trace) : SameSlot m m' :=
  ⟨ht, hk, by rw [hc], by rw [hc], by rw [hc], by rw [hc], [], by simp [he], by simp⟩

theorem Indexed.writeCtrl {m : Module Dev σ} (hi : Indexed m.taken m s) (v : U32) :
    Indexed (m.writeCtrl h k v).taken (m.writeCtrl h k v)
      (opsStep k s (m.actOps h k (.write32 ptqCtrl v))) := by
  unfold Module.writeCtrl Module.actOps
  dsimp only
  rw [if_neg (c := ptqCtrl < ptq) (by decide), if_pos (c := ptqCtrl = ptqCtrl) rfl]
  by_cases he : (v &&& ctrlEnable != 0 && !m.enable) = true
  · rw [if_pos he, if_pos he]
    refine (hi.same ?_).service
    refine ⟨rfl, rfl, rfl, rfl, rfl, rfl, [.enable m.tail], rfl, ?_⟩
    simp [Event.plain]
  · rw [if_neg he, if_neg he]
    split
    · have hcur := orphaned_frame m.cur
      exact hi.same ⟨rfl, rfl, hcur.1, hcur.2.1, hcur.2.2.1, hcur.2.2.2, [.disable], rfl,
        by simp [Event.plain]⟩
    · exact hi.same (.frame rfl rfl rfl rfl)

theorem Indexed.doorbell {m : Module Dev σ} (hi : Indexed m.taken m s) (v : U32) :
    Indexed (m.doorbell h k v).taken (m.doorbell h k v)
      (opsStep k s (m.actOps h k (.write32 ptqTail v))) := by
  unfold Module.doorbell Module.actOps
  dsimp only
  rw [if_neg (c := ptqTail < ptq) (by decide), if_neg (c := ptqTail = ptqCtrl) (by decide)]
  by_cases he : m.enable = true
  · have hon : ¬(!m.enable) = true := by simp [he]
    rw [if_neg hon]
    by_cases hbad : m.ringSize < v - m.head ∨ 0x80000000 < v - m.tail
    · rw [if_pos hbad, if_neg (fun hc => hc.2.2 hbad)]
      exact hi.same (halt_sameSlot m haltDoorbell)
    · rw [if_neg hbad, if_pos ⟨rfl, he, hbad⟩]
      have hs : SameSlot m { m with tail := v } := .frame rfl rfl rfl rfl
      exact (hi.same hs).service
  · have hne : (!m.enable) = true := by simpa using he
    rw [if_pos hne, if_neg fun hc => he hc.2.1]
    exact hi.same (.frame rfl rfl rfl rfl)

theorem Indexed.write32 {m : Module Dev σ} (hi : Indexed m.taken m s) (off v : U32)
    (ha : off = 0x050 → m.tile.q = [] ∨ m.tile.regs.gemmCt = 0) :
    Indexed (m.write32 h k off v).taken (m.write32 h k off v)
      (opsStep k s (m.actOps h k (.write32 off v))) := by
  unfold Module.write32
  by_cases ho : off < ptq
  · rw [if_pos ho]
    unfold Module.actOps
    dsimp only
    rw [if_pos ho]
    exact (hi.tileMoved (o := .write32 off v) ha).same (irqEdge_sameSlot _)
  rw [if_neg ho]
  by_cases hc : off = ptqCtrl
  · rw [if_pos hc, hc]
    exact hi.writeCtrl v
  rw [if_neg hc]
  by_cases ht : off = ptqTail
  · rw [if_neg (by rw [ht]; decide), if_neg (by rw [ht]; decide), if_neg (by rw [ht]; decide),
      if_pos ht, ht]
    exact hi.doorbell v
  have hnone : m.actOps h k (.write32 off v) = [] := by
    unfold Module.actOps
    dsimp only
    rw [if_neg ho, if_neg hc, if_neg fun h => ht h.1]
  rw [hnone, if_neg (c := off = ptqTail) ht]
  refine hi.same ?_
  -- the words of page 1 that are only kept
  split
  · split <;> exact .frame rfl rfl rfl rfl
  split
  · split <;> exact .frame rfl rfl rfl rfl
  split
  · split <;> exact .frame rfl rfl rfl rfl
  split <;> exact .frame rfl rfl rfl rfl

theorem Indexed.act {m : Module Dev σ} (hi : Indexed m.taken m s) {a : Action}
    (ha : a.Drained m) :
    Indexed (m.act h k a).taken (m.act h k a) (opsStep k s (m.actOps h k a)) := by
  cases a with
  | read32 off =>
    show Indexed (m.read32 off).1.taken (m.read32 off).1 _
    unfold Module.read32 Module.actOps
    dsimp only
    by_cases ho : off < ptq
    · rw [if_pos ho, if_pos ho]
      exact hi.tileMoved (o := .read32 off) trivial
    · rw [if_neg ho, if_neg ho]
      exact hi
  | write32 off v => exact hi.write32 off v ha
  | run cycles =>
    show Indexed (m.run h k cycles).taken (m.run h k cycles) _
    unfold Module.run Module.actOps
    dsimp only
    rw [opsStep_append, ← List.singleton_append, opsStep_append]
    exact (hi.service.tileMoved (o := .run cycles) trivial).service
  | reset =>
    have hi' := hi.tileMoved (k := k) (o := .reset) trivial
    have he := (reset_conserves k m.tile).2
    exact { hi' with
      idle := fun _ => he
      lone := fun h => (by cases h)
      named := fun h => (by cases h)
      ended := fun h => (by cases h)
      done := fun h => (by cases h)
      records := by
        intro n addr line hmem hw
        rcases List.mem_append.mp hmem with hmem | hmem
        · obtain ⟨hn, -, hrest⟩ := hi'.records n addr line hmem hw
          exact ⟨hn, fun h => (by cases h), hrest⟩
        · cases List.mem_singleton.mp hmem }
  | tile op => cases ha

/-! ## The records of a run -/

theorem Indexed.new (b : Build) (dev : Dev) (heap : ℕ → Bool) (s₀ : σ) :
    Indexed 0 (Module.new b dev heap s₀) (History.new b dev heap) where
  twin := rfl
  counted := .new b dev heap
  begun := ⟨fun h => (by cases h), fun _ h => (by cases h)⟩
  fresh := fun _ h => by cases h
  status := fun _ h => by cases h
  idle := fun _ => rfl
  lone := fun h => by cases h
  named := fun h => by cases h
  ended := fun h => by cases h
  done := fun h => by cases h
  records := fun _ _ _ h => by cases h

theorem Indexed.acts (as : List Action) :
    ∀ {m : Module Dev σ} {s : History Dev Ptr}, Indexed m.taken m s →
      Along (Module.act h k) Action.Drained m as →
      Indexed (m.acts h k as).taken (m.acts h k as) (opsStep k s (m.actsOps h k as)) := by
  induction as with
  | nil => exact fun hi _ => hi
  | cons a as ih =>
    intro m s hi ha
    show Indexed _ _ (opsStep k s (m.actOps h k a ++ (m.act h k a).actsOps h k as))
    rw [opsStep_append]
    exact ih (hi.act ha.1) ha.2

/-- The counters agree with the history at every point of it. -/
theorem counted_within {ms pre post : List (Move Ptr)} {s : History Dev Ptr}
    (hr : Along (History.step k) (fun s m => m.Ready k s.twin) s ms) (hs : Counted s)
    (heq : ms = pre ++ post) : Counted (after (History.step k) s pre) := by
  rw [heq, along_append] at hr
  exact invariant (I := Counted) (fun s m hs hm => hs.step hm) hr.1 hs

variable (h k)

/-- The completion record names the right GEMM. In a run of the module that does not write `PTA_SEED`
while a command waits in the tile, the index in the record of every slot that ended done is the number
of GEMMs started since the last write of `PTA_SEED` as the slot's own started, which is what
`PTA_GEMM_CT` was then. -/
theorem record_names_gemm (b : Build) (dev : Dev) (heap : ℕ → Bool) (s₀ : σ) (as : List Action)
    (hs : Along (Module.act h k) Action.Drained (Module.new b dev heap s₀) as) :
    let m := (Module.new b dev heap s₀).acts h k as
    let new : History Dev Ptr := History.new b dev heap
    let ms := opsMoves k new.twin ((Module.new b dev heap s₀).actsOps h k as)
    (after (History.step k) new ms).twin = m.tile ∧
      ∀ n addr line, .record n addr line true ∈ m.trace →
        get32 line dStatus = RecordStatus.done.word →
          (∃ c, .start c ∈ ms ∧ ownNumber c = some n) ∧
          ∀ pre c post, ms = pre ++ .start c :: post → ownNumber c = some n →
            get32 line dIndex = BitVec.ofNat 32 (startsSince pre) ∧
            get32 line dIndex = (after (History.step k) new pre).twin.regs.gemmCt := by
  intro m new ms
  have hi : Indexed m.taken m (after (History.step k) new ms) :=
    Indexed.acts as (.new b dev heap s₀) hs
  have hmoves : (after (History.step k) new ms).moves = ms := after_moves ms new
  refine ⟨hi.twin, fun n addr line hmem hd => ?_⟩
  obtain ⟨-, -, hstarted, hnamed⟩ := hi.records n addr line hmem hd
  rw [hmoves] at hstarted hnamed
  refine ⟨hstarted, fun pre c post heq hc => ?_⟩
  have hidx := hnamed pre c post heq hc
  refine ⟨hidx.symm, ?_⟩
  have hcount := counted_within ((opsMoves_spec _ new.twin).ready new rfl) (.new b dev heap) heq
  rw [← hidx, hcount.gemmCt, after_moves]
  rfl

/-- Two GEMMs, and a calibration that holds the second back. -/
theorem record_names_gemm_held :
    let new : Module Unit Unit := Module.new ⟨4, 4, 8, 32, 1, 0⟩ () (fun _ => true) ()
    let as : List Action := [.write32 ptqCtrl 1, .write32 ptqTail 1, .run 100, .write32 0x040 3,
      .write32 ptqTail 2, .run 100]
    Along (Module.act unitHost exactKernel) Action.Drained new as ∧
      .record 1 0 (recordLine unitDesc .done 1 0) true ∈ (new.acts unitHost exactKernel as).trace ∧
      ∀ pre c post,
        opsMoves exactKernel new.tile (new.actsOps unitHost exactKernel as) =
            pre ++ .start c :: post →
          ownNumber c = some 1 → (1 : U32) = BitVec.ofNat 32 (startsSince pre) := by
  have hs : Along (Module.act unitHost exactKernel) Action.Drained
      (Module.new ⟨4, 4, 8, 32, 1, 0⟩ () (fun _ => true) ())
      [.write32 ptqCtrl 1, .write32 ptqTail 1, .run 100, .write32 0x040 3, .write32 ptqTail 2,
        .run 100] :=
    ⟨fun h => (by cases h), fun h => (by cases h), trivial, fun h => (by cases h),
      fun h => (by cases h), trivial, trivial⟩
  have hmem : .record 1 0 (recordLine unitDesc .done 1 0) true ∈
      ((Module.new ⟨4, 4, 8, 32, 1, 0⟩ () (fun _ => true) ()).acts unitHost exactKernel
        [.write32 ptqCtrl 1, .write32 ptqTail 1, .run 100, .write32 0x040 3, .write32 ptqTail 2,
          .run 100]).trace := by decide +kernel
  refine ⟨hs, hmem, fun pre c post heq hc => ?_⟩
  obtain ⟨-, hnames⟩ :=
    record_names_gemm unitHost exactKernel ⟨4, 4, 8, 32, 1, 0⟩ () (fun _ => true) () _ hs
  obtain ⟨-, hindex⟩ := hnames 1 0 (recordLine unitDesc .done 1 0) hmem (by decide +kernel)
  have hidx := (hindex pre c post heq hc).1
  rwa [get32_recordLine_index] at hidx

/-- With `PTA_SEED` written while the calibration holds the second GEMM back, its record says 1, and
it was the first to start since. -/
theorem record_names_gemm_reseeded :
    let new : Module Unit Unit := Module.new ⟨4, 4, 8, 32, 1, 0⟩ () (fun _ => true) ()
    let as : List Action := [.write32 ptqCtrl 1, .write32 ptqTail 1, .run 100, .write32 0x040 3,
      .write32 ptqTail 2, .write32 0x050 9, .run 100]
    let ms := opsMoves exactKernel new.tile (new.actsOps unitHost exactKernel as)
    .record 1 0 (recordLine unitDesc .done 1 0) true ∈ (new.acts unitHost exactKernel as).trace ∧
      ∃ i c, ms[i]? = some (.start c) ∧ ownNumber c = some 1 ∧ startsSince (ms.take i) = 0 := by
  refine ⟨by decide +kernel, 16, tileCmd unitDesc 1 [64] [64], ?_, rfl, ?_⟩
  · decide +kernel
  · decide +kernel

end Grxcp.PtaModule
