import Grxcp.Lib.Runs
import Grxcp.Pta.TwinQueue

/-!
# The twin, one move at a time

An operation of the twin is a sequence of moves: a command is copied and queued, the oldest one takes
the tile or is refused, what holds the tile ends, time passes, a register is written. `Op.moves` is
that sequence, computed along the operation's own control flow, and `Op.moves_spec` says that making
the moves is performing the operation. What holds before each move of every run is then an induction
over moves, and the loops of the source are not looked at again.
-/

namespace Grxcp.PtaTwin

open Runs

variable {Dev P : Type}

/-- An operation on the twin. -/
inductive Op (P : Type)
  | submit (c : Cmd P)
  | run (cycles : U64)
  | write32 (off v : U32)
  | read32 (off : U32)
  | age (steps : U64)
  | reset

/-- The twin after an operation, and what it ended. -/
def Op.apply (k : TileKernel Dev) (t : Twin Dev P) : Op P → Twin Dev P × List (Ending P)
  | .submit c => (PtaTwin.submit k t c).2
  | .run cycles => PtaTwin.run k t cycles
  | .write32 off v => PtaTwin.write32 k t off v
  | .read32 off => ((PtaTwin.read32 t off).1, [])
  | .age steps => ((PtaTwin.age k t steps).2, [])
  | .reset => PtaTwin.reset k t

/-- One move of the twin. -/
inductive Move (P : Type)
  /-- The `malloc`s of a submission. -/
  | copy (c : Cmd P)
  /-- The copied command goes to the back of the queue. -/
  | accept (c : Cmd P)
  /-- `gemm_begin` on the oldest command, and the tile takes it. -/
  | start (c : Cmd P)
  /-- `gemm_begin` on the oldest command, and the tile or the stage refuses it. -/
  | refuse (c : Cmd P)
  /-- `gemm_end`. -/
  | finish
  | calBegin
  /-- `cal_end`, of a calibration that was refused or not. -/
  | calEnd (refused : Bool)
  /-- The clock moves while nothing ends. -/
  | pass (cycles : U64)
  /-- A register is written, all of it but `CAL_NOW`. -/
  | store (off v : U32)
  | calNow
  /-- A register is read, which latches the upper half of a counter. -/
  | latch (off : U32)
  | age (steps : U64)
  | reset
deriving DecidableEq

/-- `write_ctrl` up to `CAL_NOW`. -/
def storeCtrl (k : TileKernel Dev) (t : Twin Dev P) (v : U32) : Twin Dev P :=
  let t := { t with regs := { t.regs with en := v &&& 1 } }
  let idle := t.state = .idle ∧ t.q = []
  if v &&& 0x08 ≠ 0 then
    if idle then
      { t with
        dev := k.calReset (k.modelReset t.dev t.regs.seed)
        regs := { t.regs with
          gain := Vector.replicate 8 256
          offs := Vector.replicate 8 0
          calValid := false
          driftAlarm := false } }
    else { t with regs := t.regs.raiseIrq irqErr }
  else t

/-- `pta_twin_write32` without the start of a calibration. -/
def storeWord (k : TileKernel Dev) (t : Twin Dev P) (off v : U32) : Twin Dev P :=
  if off = 0x040 then storeCtrl k t v else (write32 k t off v).1

/-- The twin after a move, and what the move ended. -/
def Move.apply (k : TileKernel Dev) (t : Twin Dev P) : Move P → Twin Dev P × List (Ending P)
  | .copy c => ((copyMallocs t c).2, [])
  | .accept c => ({ t with q := t.q ++ [c] }, [])
  | .start c => gemmBegin k { t with q := t.q.tail } c
  | .refuse c => gemmBegin k { t with q := t.q.tail } c
  | .finish => gemmEnd t
  | .calBegin => (PtaTwin.calBegin k { t with calPending := false }, [])
  | .calEnd _ => (PtaTwin.calEnd t, [])
  | .pass cycles =>
      ({ t with
          now := t.now + cycles
          left := if t.state = .idle then t.left else t.left - cycles }, [])
  | .store off v => (storeWord k t off v, [])
  | .calNow => ({ t with calPending := true }, [])
  | .latch off => ((PtaTwin.read32 t off).1, [])
  | .age steps => ((PtaTwin.age k t steps).2, [])
  | .reset => PtaTwin.reset k t

/-! ## The moves of an operation -/

/-- The moves of `startQueued`. -/
def queuedMoves (k : TileKernel Dev) : List (Cmd P) → Twin Dev P → List (Move P)
  | [], _ => []
  | c :: q, t =>
      match gemmBegin k { t with q := q } c with
      | (t, _) => if t.state = .idle then .refuse c :: queuedMoves k q t else [.start c]

/-- The moves of `startNext`. -/
def nextMoves (k : TileKernel Dev) (t : Twin Dev P) : List (Move P) :=
  if t.state ≠ .idle then []
  else if t.calPending then [.calBegin]
  else queuedMoves k t.q t

/-- The moves of `runLoop`. -/
def loopMoves (k : TileKernel Dev) : ℕ → Twin Dev P → U64 → List (Move P)
  | 0, _, _ => []
  | fuel + 1, t, cycles =>
      if cycles = 0 then []
      else if t.state = .idle then [.pass cycles]
      else
        let step := if t.left < cycles then t.left else cycles
        let t := { t with now := t.now + step, left := t.left - step }
        let cycles := cycles - step
        .pass step ::
          if t.left = 0 then
            let t' := if t.state = .gemm then (gemmEnd t).1 else calEnd t
            (if t.state = .gemm then .finish else .calEnd t.cal.refused) ::
              (nextMoves k t' ++ loopMoves k fuel (startNext k t').1 cycles)
          else loopMoves k fuel t cycles

/-- The moves of `submit`. A command that finds the tile free takes its turn at once. -/
def submitMoves (k : TileKernel Dev) (t : Twin Dev P) (c : Cmd P) : List (Move P) :=
  if !submittable c then []
  else if (t.state ≠ .idle ∨ t.calPending) ∧ t.build.queueDepth ≤ t.q.length then []
  else
    .copy c ::
      match copyMallocs t c with
      | (false, _) => []
      | (true, t) =>
          if t.state = .idle ∧ !t.calPending ∧ t.q = [] then
            .accept (copyCmd c) :: queuedMoves k [copyCmd c] { t with q := [copyCmd c] }
          else [.accept (copyCmd c)]

/-- The moves of `write32`. -/
def writeMoves (k : TileKernel Dev) (t : Twin Dev P) (off v : U32) : List (Move P) :=
  .store off v ::
    if off = 0x040 ∧ v &&& 0x02 ≠ 0 ∧ (storeCtrl k t v).regs.en ≠ 0 then
      .calNow :: nextMoves k { storeCtrl k t v with calPending := true }
    else []

/-- The moves of an operation. -/
def Op.moves (k : TileKernel Dev) (t : Twin Dev P) : Op P → List (Move P)
  | .submit c => submitMoves k t c
  | .run cycles => loopMoves k (runFuel t) t cycles
  | .write32 off v => writeMoves k t off v
  | .read32 off => [.latch off]
  | .age steps => [.age steps]
  | .reset => [.reset]

/-! ## The history -/

/-- The twin, the moves that led to it and what they ended. -/
structure History (Dev P : Type) where
  twin : Twin Dev P
  moves : List (Move P) := []
  ended : List (Ending P) := []

/-- One more move. -/
def History.step (k : TileKernel Dev) (s : History Dev P) (m : Move P) : History Dev P :=
  { twin := (m.apply k s.twin).1
    moves := s.moves ++ [m]
    ended := s.ended ++ (m.apply k s.twin).2 }

/-- The moves of a sequence of operations. -/
def opsMoves (k : TileKernel Dev) : Twin Dev P → List (Op P) → List (Move P)
  | _, [] => []
  | t, o :: os => o.moves k t ++ opsMoves k (o.apply k t).1 os

/-- A new twin (`pta_twin_new`) and its history so far. -/
def History.new (b : Build) (dev : Dev) (heap : ℕ → Bool) : History Dev P :=
  { twin := { build := b, dev := dev, heap := heap } }

/-- When a move is made. -/
def Move.Ready (k : TileKernel Dev) (t : Twin Dev P) : Move P → Prop
  | .start c =>
      t.state = .idle ∧ t.calPending = false ∧ t.q = c :: t.q.tail ∧
        (gemmBegin k { t with q := t.q.tail } c).1.state = .gemm
  | .refuse c =>
      t.state = .idle ∧ t.calPending = false ∧ t.q = c :: t.q.tail ∧
        (gemmBegin k { t with q := t.q.tail } c).1.state = .idle
  | .finish => t.state = .gemm ∧ t.left = 0
  | .calBegin => t.state = .idle ∧ t.calPending = true
  | .calEnd refused => t.state = .cal ∧ t.left = 0 ∧ t.cal.refused = refused
  | .pass cycles => t.state ≠ .idle → cycles ≤ t.left
  | _ => True

/-- The moves `ms` are made from `t`, each when it is ready, and they lead to `r`. -/
structure Makes (k : TileKernel Dev) (t : Twin Dev P) (ms : List (Move P))
    (r : Twin Dev P × List (Ending P)) : Prop where
  after : ∀ s : History Dev P, s.twin = t →
    after (History.step k) s ms = ⟨r.1, s.moves ++ ms, s.ended ++ r.2⟩
  ready : ∀ s : History Dev P, s.twin = t →
    Along (History.step k) (fun s m => m.Ready k s.twin) s ms

variable {k : TileKernel Dev} {t : Twin Dev P}

theorem Makes.nil : Makes k t [] (t, []) where
  after := by
    rintro s rfl
    simp
  ready := fun _ _ => trivial

theorem Makes.cons {m : Move P} {ms : List (Move P)} {u : Twin Dev P}
    {es es' : List (Ending P)} {r : Twin Dev P} (hm : m.Ready k t) (hu : m.apply k t = (u, es))
    (h : Makes k u ms (r, es')) : Makes k t (m :: ms) (r, es ++ es') where
  after := by
    rintro s rfl
    rw [after_cons, h.after _ (by simp [History.step, hu])]
    simp [History.step, hu]
  ready := by
    rintro s rfl
    exact ⟨hm, h.ready _ (by simp [History.step, hu])⟩

theorem Makes.append {ms ms' : List (Move P)} {u r : Twin Dev P} {es es' : List (Ending P)}
    (h : Makes k t ms (u, es)) (h' : Makes k u ms' (r, es')) :
    Makes k t (ms ++ ms') (r, es ++ es') where
  after := by
    rintro s rfl
    rw [after_append, h.after s rfl, h'.after _ rfl]
    simp
  ready := by
    rintro s rfl
    rw [along_append, h.after s rfl]
    exact ⟨h.ready s rfl, h'.ready _ rfl⟩

/-- A move that ends nothing, before the others. -/
theorem Makes.silent {m : Move P} {ms : List (Move P)} {u : Twin Dev P}
    {r : Twin Dev P × List (Ending P)} (hm : m.Ready k t) (hu : m.apply k t = (u, []))
    (h : Makes k u ms r) : Makes k t (m :: ms) r :=
  Makes.cons hm hu h

/-- A move by itself. -/
theorem Makes.one {m : Move P} (hm : m.Ready k t) : Makes k t [m] (m.apply k t) := by
  have h := Makes.cons hm rfl (Makes.nil (k := k) (t := (m.apply k t).1))
  rwa [List.append_nil] at h

theorem queued_makes (q : List (Cmd P)) :
    ∀ t : Twin Dev P, t.state = .idle → t.calPending = false → t.q = q →
      Makes k t (queuedMoves k q t) (startQueued k q t) := by
  induction q with
  | nil =>
    intro t _ _ hq
    simpa [queuedMoves, startQueued, ← hq] using Makes.nil (k := k) (t := t)
  | cons c q ih =>
    intro t hi hp hq
    have htail : ({ t with q := t.q.tail } : Twin Dev P) = { t with q := q } := by simp [hq]
    simp only [queuedMoves, startQueued]
    obtain ⟨he, hs, hq', hp'⟩ | ⟨he, hs, -⟩ := gemmBegin_cases k (t := { t with q := q }) c hi
    · rw [if_pos hs, if_pos hs]
      refine Makes.cons ⟨hi, hp, ?_, ?_⟩ ?_ (ih _ hs (hp'.trans hp) hq')
      · simp [hq]
      · rw [htail]
        exact hs
      · show gemmBegin k { t with q := t.q.tail } c = _
        rw [htail]
    · have hne : (gemmBegin k { t with q := q } c).1.state ≠ .idle := by simp [hs]
      rw [if_neg hne, if_neg hne, ← htail]
      exact Makes.one ⟨hi, hp, by simp [hq], by rw [htail]; exact hs⟩

theorem next_makes (t : Twin Dev P) : Makes k t (nextMoves k t) (startNext k t) := by
  unfold nextMoves startNext
  by_cases hi : t.state = .idle
  · have hn : ¬t.state ≠ .idle := fun h => h hi
    rw [if_neg hn, if_neg hn]
    by_cases hp : t.calPending = true
    · rw [if_pos hp, if_pos hp]
      exact Makes.one ⟨hi, hp⟩
    · rw [if_neg hp, if_neg hp]
      exact queued_makes t.q t hi (by simpa using hp) rfl
  · rw [if_pos hi, if_pos hi]
    exact Makes.nil

/-- The step of the loop is never more than what is left. -/
theorem step_le (left cycles : U64) : (if left < cycles then left else cycles) ≤ left := by
  split
  · exact BitVec.le_refl _
  · next h => exact BitVec.not_lt.mp h

theorem loop_makes (fuel : ℕ) :
    ∀ (t : Twin Dev P) (cycles : U64),
      Makes k t (loopMoves k fuel t cycles)
        ((runLoop k fuel t cycles).1, (runLoop k fuel t cycles).2.1) := by
  induction fuel with
  | zero => exact fun t _ => Makes.nil
  | succ fuel ih =>
    intro t cycles
    unfold loopMoves runLoop
    by_cases hc : cycles = 0
    · rw [if_pos hc, if_pos hc]
      exact Makes.nil
    rw [if_neg hc, if_neg hc]
    by_cases hi : t.state = .idle
    · rw [if_pos hi, if_pos hi]
      have hone := Makes.one (k := k) (t := t) (m := .pass cycles) (fun h => absurd hi h)
      simpa only [Move.apply, if_pos hi] using hone
    rw [if_neg hi, if_neg hi]
    dsimp only
    have hle := step_le t.left cycles
    generalize (if t.left < cycles then t.left else cycles) = step at hle ⊢
    have hpass : (Move.pass step : Move P).apply k t =
        ({ t with now := t.now + step, left := t.left - step }, []) := by
      simp only [Move.apply, if_neg hi]
    by_cases hl : t.left - step = 0
    · rw [if_pos hl, if_pos hl]
      by_cases hg : t.state = .gemm
      · simp only [if_pos hg]
        refine Makes.silent (fun _ => hle) hpass ?_
        rw [List.append_assoc]
        refine Makes.cons ⟨hg, hl⟩ rfl ?_
        exact (next_makes _).append (ih _ _)
      · simp only [if_neg hg]
        have hcal : t.state = .cal := by
          cases hs : t.state <;> simp_all
        refine Makes.silent (fun _ => hle) hpass ?_
        rw [List.append_assoc]
        refine Makes.cons ⟨hcal, hl, rfl⟩ rfl ?_
        exact (next_makes _).append (ih _ _)
    · rw [if_neg hl, if_neg hl]
      exact Makes.silent (fun _ => hle) hpass (ih _ _)

theorem submit_makes (t : Twin Dev P) (c : Cmd P) :
    Makes k t (submitMoves k t c) (submit k t c).2 := by
  unfold submitMoves submit
  by_cases hs : (!submittable c) = true
  · rw [if_pos hs, if_pos hs]
    exact Makes.nil
  rw [if_neg hs, if_neg hs]
  by_cases hf : (t.state ≠ .idle ∨ t.calPending) ∧ t.build.queueDepth ≤ t.q.length
  · rw [if_pos hf, if_pos hf]
    exact Makes.nil
  rw [if_neg hf, if_neg hf]
  have hcopy : (Move.copy c : Move P).apply k t = ((copyMallocs t c).2, []) := rfl
  rcases hm : copyMallocs t c with ⟨ok, u⟩
  rw [hm] at hcopy
  cases ok with
  | false => exact Makes.silent trivial hcopy Makes.nil
  | true =>
    dsimp only
    by_cases hd : u.state = .idle ∧ !u.calPending ∧ u.q = []
    · rw [if_pos hd, if_pos hd]
      have haccept : (Move.accept (copyCmd c) : Move P).apply k u =
          ({ u with q := [copyCmd c] }, []) := by
        simp [Move.apply, hd.2.2]
      have hq := queued_makes (k := k) [copyCmd c] { u with q := [copyCmd c] } hd.1
        (by simpa using hd.2.1) rfl
      have hu : ({ u with q := [] } : Twin Dev P) = u := by
        rw [← hd.2.2]
      have hstart : startQueued k [copyCmd c] { u with q := [copyCmd c] } =
          gemmBegin k u (copyCmd c) := by
        simp only [startQueued, hu]
        obtain ⟨he, hst, hq', -⟩ | ⟨he, hst, -⟩ := gemmBegin_cases k (copyCmd c) hd.1
        · rw [if_pos hst]
          refine Prod.ext ?_ (by simp [he])
          show ({ (gemmBegin k u (copyCmd c)).1 with q := [] } : Twin Dev P) = _
          rw [← hd.2.2, ← hq']
        · rw [if_neg (by simp [hst])]
      rw [hstart] at hq
      exact Makes.silent trivial hcopy (Makes.silent trivial haccept hq)
    · rw [if_neg hd, if_neg hd]
      exact Makes.silent trivial hcopy (Makes.one trivial)

/-- `write32` is the store, and then the start of the calibration it asks for. -/
theorem write32_eq (k : TileKernel Dev) (t : Twin Dev P) (off v : U32) :
    write32 k t off v =
      if off = 0x040 ∧ v &&& 0x02 ≠ 0 ∧ (storeCtrl k t v).regs.en ≠ 0 then
        startNext k { storeCtrl k t v with calPending := true }
      else (storeWord k t off v, []) := by
  unfold storeWord
  by_cases ho : off = 0x040
  · subst ho
    have hw : write32 k t 0x040 v = writeCtrl k t v := by
      unfold write32
      rw [if_neg (by decide), if_neg (by decide), if_neg (by decide), if_pos rfl]
    simp only [hw, true_and, if_true]
    rfl
  · rw [if_neg (fun h => ho h.1), if_neg ho]
    refine Prod.ext rfl ?_
    unfold write32
    dsimp only
    repeat' split
    all_goals rfl

theorem write_makes (t : Twin Dev P) (off v : U32) :
    Makes k t (writeMoves k t off v) (write32 k t off v) := by
  have hstore : (Move.store off v : Move P).apply k t = (storeWord k t off v, []) := rfl
  unfold writeMoves
  rw [write32_eq]
  by_cases h : off = 0x040 ∧ v &&& 0x02 ≠ 0 ∧ (storeCtrl k t v).regs.en ≠ 0
  · rw [if_pos h, if_pos h]
    have hc : storeWord k t off v = storeCtrl k t v := by simp [storeWord, h.1]
    rw [hc] at hstore
    exact Makes.silent trivial hstore (Makes.silent trivial rfl (next_makes _))
  · rw [if_neg h, if_neg h]
    exact Makes.silent trivial hstore Makes.nil

/-- An operation makes its moves, and nothing else. -/
theorem Op.moves_spec (t : Twin Dev P) (o : Op P) : Makes k t (o.moves k t) (o.apply k t) := by
  cases o with
  | submit c => exact submit_makes t c
  | run cycles => exact loop_makes _ t cycles
  | write32 off v => exact write_makes t off v
  | read32 off => exact Makes.one trivial
  | age steps => exact Makes.one trivial
  | reset => exact Makes.one trivial

/-- The twin after a sequence of operations, and what they ended. -/
def opsApply (k : TileKernel Dev) : Twin Dev P → List (Op P) → Twin Dev P × List (Ending P)
  | t, [] => (t, [])
  | t, o :: os =>
      ((opsApply k (o.apply k t).1 os).1, (o.apply k t).2 ++ (opsApply k (o.apply k t).1 os).2)

theorem opsMoves_spec (os : List (Op P)) :
    ∀ t : Twin Dev P, Makes k t (opsMoves k t os) (opsApply k t os) := by
  induction os with
  | nil => exact fun t => Makes.nil
  | cons o os ih => exact fun t => (o.moves_spec t).append (ih _)

/-! ## The tile's own moves -/

/-- A move the tile makes by itself: a turn, an end, or time that passes. -/
def Move.own : Move P → Bool
  | .start _ | .refuse _ | .finish | .calBegin | .calEnd _ | .pass _ => true
  | _ => false

theorem queuedMoves_own (q : List (Cmd P)) :
    ∀ t : Twin Dev P, ∀ m ∈ queuedMoves k q t, m.own = true := by
  induction q with
  | nil => simp [queuedMoves]
  | cons c q ih =>
    intro t m hm
    simp only [queuedMoves] at hm
    split at hm
    · rcases List.mem_cons.mp hm with rfl | hm
      · rfl
      · exact ih _ m hm
    · rw [List.mem_singleton.mp hm]
      rfl

theorem nextMoves_own (t : Twin Dev P) : ∀ m ∈ nextMoves k t, m.own = true := by
  intro m hm
  unfold nextMoves at hm
  split at hm
  · cases hm
  split at hm
  · rw [List.mem_singleton.mp hm]
    rfl
  · exact queuedMoves_own t.q t m hm

theorem loopMoves_own (fuel : ℕ) :
    ∀ (t : Twin Dev P) (cycles : U64), ∀ m ∈ loopMoves k fuel t cycles, m.own = true := by
  induction fuel with
  | zero => exact fun _ _ _ hm => by cases hm
  | succ fuel ih =>
    intro t cycles m hm
    unfold loopMoves at hm
    split at hm
    · cases hm
    split at hm
    · rw [List.mem_singleton.mp hm]
      rfl
    dsimp only at hm
    generalize (if t.left < cycles then t.left else cycles) = step at hm
    rcases List.mem_cons.mp hm with rfl | hm
    · rfl
    split at hm
    · rcases List.mem_cons.mp hm with rfl | hm
      · split <;> rfl
      · rcases List.mem_append.mp hm with hm | hm
        · exact nextMoves_own _ m hm
        · exact ih _ _ m hm
    · exact ih _ _ m hm

/-! ## The history of operations -/

/-- The history after one operation. -/
def opStep (k : TileKernel Dev) (s : History Dev P) (o : Op P) : History Dev P :=
  after (History.step k) s (o.moves k s.twin)

theorem opStep_twin (s : History Dev P) (o : Op P) :
    (opStep k s o).twin = (o.apply k s.twin).1 ∧
      (opStep k s o).ended = s.ended ++ (o.apply k s.twin).2 := by
  unfold opStep
  rw [(o.moves_spec s.twin).after s rfl]
  exact ⟨rfl, rfl⟩

/-- The history after a sequence of operations. -/
def opsStep (k : TileKernel Dev) (s : History Dev P) (os : List (Op P)) : History Dev P :=
  after (History.step k) s (opsMoves k s.twin os)

@[simp] theorem opsStep_nil (s : History Dev P) : opsStep k s [] = s := rfl

theorem opsStep_cons (s : History Dev P) (o : Op P) (os : List (Op P)) :
    opsStep k s (o :: os) = opsStep k (opStep k s o) os := by
  show after _ s (o.moves k s.twin ++ opsMoves k (o.apply k s.twin).1 os) = _
  rw [after_append, ← (opStep_twin s o).1]
  rfl

theorem opsStep_append (os os' : List (Op P)) :
    ∀ s : History Dev P, opsStep k s (os ++ os') = opsStep k (opsStep k s os) os' := by
  induction os with
  | nil => exact fun _ => rfl
  | cons o os ih =>
    intro s
    rw [List.cons_append, opsStep_cons, opsStep_cons, ih]

theorem after_moves (ms : List (Move P)) :
    ∀ s : History Dev P, (after (History.step k) s ms).moves = s.moves ++ ms := by
  induction ms with
  | nil => simp
  | cons m ms ih =>
    intro s
    show (after (History.step k) (s.step k m) ms).moves = _
    rw [ih]
    exact List.append_assoc ..

end Grxcp.PtaTwin
