import Grxcp.Pta.Kernel

/-!
# The chiplet's digital twin

`pta_chiplet_twin.c`: a register file, a queue of commands, a clock and the calibration contract, in
front of the vendored tile model. A command is accepted by `submit`, waits in the queue or holds the
tile, and ends once, with one of `done`, `refused` and `lost`.

The twin writes into its submitter's memory only as a command ends. Every function that can end a
command therefore returns the list of endings in the order they happen, and `Ending.stores` says
what each one writes. The outcomes of the twin's `malloc` calls are the stream `heap`.
-/

namespace Grxcp.PtaTwin

/-! ## The map -/

/-- `PTA_TWIN_BUILT`: every impairment but `MZM_NL`. -/
def built : U32 := 0x5F

/-- `PTA_TWIN_BANKS`. -/
def banks : ℕ := 2

/-- `PTA_TWIN_AFFINE_WORDS`. -/
def affineWordsMax : ℕ := 8

/-- `PTA_TWIN_WINDOW`: one page. -/
def window : U32 := 0x1000

/-- `DIM_MAX`. -/
def dimMax : ℤ := 65536

/-- `ELEM_MAX`. -/
def elemMax : ℤ := 2 ^ 28

/-- `PTA_TWIN_CMD_ACT`. -/
def cmdAct : U32 := 0x1
/-- `PTA_TWIN_CMD_HOLD`. -/
def cmdHold : U32 := 0x2
/-- `PTA_TWIN_CMD_FROM_HELD`. -/
def cmdFromHeld : U32 := 0x4

/-- `PTA_IRQ_STATUS`: `CAL_DONE`, `ERR` and `DRIFT_ALARM`. -/
def irqCalDone : U32 := 0x1
/-- `PTA_TWIN_IRQ_ERR`. -/
def irqErr : U32 := 0x2
/-- `PTA_TWIN_IRQ_DRIFT_ALARM`. -/
def irqDriftAlarm : U32 := 0x4

/-! ## The data -/

/-- `pta_twin_build`: what a chiplet is. -/
structure Build where
  rows : ℕ
  cols : ℕ
  dinW : ℕ
  accW : ℕ
  queueDepth : ℕ
  actHold : ℕ
deriving DecidableEq, Repr

/-- A command, as submitted (`pta_twin_cmd`) and as the twin keeps it (`cmd_t`). `P` is the type of
the submitter's addresses; `none` is a null pointer. -/
structure Cmd (P : Type) where
  bank : ℤ := 0
  M : ℤ := 0
  N : ℤ := 0
  K : ℤ := 0
  A : Option (List ℤ) := none
  B : Option (List ℤ) := none
  C : Option P := none
  status : Option P := none
  sats : Option P := none
  flags : U32 := 0
  actShift : ℤ := 0
  actBits : ℤ := 0
  bias : Option (List ℤ) := none
  clips : Option P := none
deriving DecidableEq, Repr

/-- The value of a command's status word. -/
inductive CmdStatus
  | pending
  | done
  | refused
  | lost
deriving DecidableEq, Repr

/-- How a command ended. A command that ended done carries what the twin writes out. -/
inductive End
  | done (out : List ℤ) (sats clips : ℤ)
  | refused
  | lost
deriving DecidableEq, Repr

/-- One command's end. -/
structure Ending (P : Type) where
  cmd : Cmd P
  how : End
deriving DecidableEq, Repr

/-- A write of the twin's into its submitter's memory. -/
inductive Store (P : Type)
  | result (p : P) (out : List ℤ)
  | sats (p : P) (n : ℤ)
  | clips (p : P) (n : ℤ)
  | status (p : P) (s : CmdStatus)
deriving DecidableEq, Repr

/-- The status word an end leaves. -/
def End.status : End → CmdStatus
  | .done .. => .done
  | .refused => .refused
  | .lost => .lost

/-- The writes of one end, in the order of `gemm_end` and `cmd_end`. A command that holds its output
for the next one does not write `C`. -/
def Ending.stores {P : Type} (e : Ending P) : List (Store P) :=
  (match e.how with
    | .done out sats clips =>
        (if e.cmd.flags &&& cmdHold = 0 then (e.cmd.C.map (Store.result · out)).toList else []) ++
          (e.cmd.sats.map (Store.sats · sats)).toList ++
          (e.cmd.clips.map (Store.clips · clips)).toList
    | _ => []) ++
  (e.cmd.status.map (Store.status · e.how.status)).toList

/-- What holds the tile: `T_IDLE`, `T_GEMM` or `T_CAL`. -/
inductive Hold
  | idle
  | gemm
  | cal
deriving DecidableEq, Repr

/-- The registers of the map. -/
structure Regs where
  en : U32 := 0
  impair : U32 := 0
  bits : U32 := 0
  seed : U32 := 0
  sigTh : U32 := 0
  sigSh : U32 := 0
  sigPr : U32 := 0
  drift : U32 := 0
  xtalk : U32 := 0
  tw : U32 := 0
  ts : U32 := 0
  calPer : U32 := 0
  calThr : U32 := 0
  dmax : U32 := 0
  calCfg : U32 := 0
  trim : U32 := 0
  calSeed : U32 := 0
  irqStatus : U32 := 0
  irqMask : U32 := 0
  gemmCt : U32 := 0
  calCt : U32 := 0
  actClipCt : U32 := 0
  calCyc : U64 := 0
  shotCt : U64 := 0
  wloadCt : U64 := 0
  satCt : U64 := 0
  calCycHi : U32 := 0
  shotHi : U32 := 0
  wloadHi : U32 := 0
  satHi : U32 := 0
  errMax : U32 := 0
  errFound : U32 := 0
  calValid : Bool := false
  driftAlarm : Bool := false
  gain : Vector ℤ 8 := Vector.replicate 8 256
  offs : Vector ℤ 8 := Vector.replicate 8 0

/-- The running calibration's outcome, published at its end. -/
structure CalOutcome where
  refused : Bool := false
  clamped : Bool := false
  errMax : U32 := 0
  errFound : U32 := 0
  cycles : U64 := 0
  shots : U64 := 0
  sats : ℤ := 0
deriving DecidableEq, Repr

/-- `struct pta_twin`. The queue's ring is the list of the commands in it, oldest first, and the
held operands are a value with their shape, `none` when nothing valid is held. -/
structure Twin (Dev P : Type) where
  build : Build
  dev : Dev
  regs : Regs := {}
  state : Hold := .idle
  left : U64 := 0
  now : U64 := 0
  calPending : Bool := false
  cur : Cmd P := {}
  curC : List ℤ := []
  curSats : ℤ := 0
  curClips : ℤ := 0
  held : List ℤ := []
  heldM : ℤ := 0
  heldN : ℤ := 0
  heldValid : Bool := false
  cal : CalOutcome := {}
  q : List (Cmd P) := []
  heap : ℕ → Bool := fun _ => true

/-! ## The two seed functions -/

/-- The finaliser of `splitmix64`, on the advanced state. -/
def splitmix64 (s : U64) : U64 :=
  let z := s + 0x9E3779B97F4A7C15
  let z := (z ^^^ (z >>> 30)) * 0xBF58476D1CE4E5B9
  let z := (z ^^^ (z >>> 27)) * 0x94D049BB133111EB
  z ^^^ (z >>> 31)

/-- `pta_twin_gemm_seed`: the seed of GEMM `index` under `PTA_SEED`. -/
def gemmSeed (seed index : U32) : U32 :=
  ((splitmix64 ((seed.zeroExtend 64 <<< 32) ||| index.zeroExtend 64)) >>> 32).truncate 32

/-- `pta_twin_cal_seed`: the seed of calibration `index` under `PTA_CAL_SEED`. -/
def calSeedOf (calSeed index : U32) : U32 :=
  calSeed ^^^ (index * 0x9E3779B1)

variable {Dev P : Type}

/-! ## Small things -/

/-- `raise_irq`. -/
def Regs.raiseIrq (r : Regs) (bits : U32) : Regs :=
  { r with irqStatus := r.irqStatus ||| bits }

/-- `affine_words`: the columns that have a gain and an offset register. -/
def affineWords (b : Build) : ℕ :=
  if b.cols < affineWordsMax then b.cols else affineWordsMax

/-- The tile's geometry, as `pta_twin_new` copies it from the build. -/
def Build.tile (b : Build) : Tile :=
  { rows := b.rows, cols := b.cols, dinW := b.dinW, accW := b.accW }

/-- `cfg_from_regs`: what a start samples. -/
def cfgFromRegs (r : Regs) : Cfg :=
  { impair := r.impair
    actBits := r.bits &&& 0xF
    wBits := (r.bits >>> 4) &&& 0xF
    adcBits := (r.bits >>> 8) &&& 0xF
    adcShift := (r.bits >>> 12) &&& 0x3F
    seed := r.seed
    sigmaTh := r.sigTh
    kShot := r.sigSh
    sigmaPr := r.sigPr
    driftSigma := r.drift &&& 0xFFFF
    driftLog2 := (r.drift >>> 16) &&& 0x1F
    driftMax := r.dmax
    xtalk := r.xtalk
    trimStep := (1 : U32) <<< (r.trim &&& 0xF)
    trimMax := r.trim >>> 16 }

/-- `at_least_one`. -/
def atLeastOne (cycles : U64) : U64 :=
  if cycles = 0 then 1 else cycles

/-- One `malloc`: its outcome, and the outcomes that are left. -/
def Twin.malloc (t : Twin Dev P) : Bool × Twin Dev P :=
  (t.heap 0, { t with heap := fun n => t.heap (n + 1) })

/-! ## The activation stage -/

/-- The largest `int64_t`. -/
def int64Max : ℤ := 2 ^ 63 - 1

/-- The smallest `int64_t`. -/
def int64Min : ℤ := -2 ^ 63

/-- `pta_twin_activate`: the value, and whether the clamp changed it. -/
def activate (sum bias : ℤ) (shift bits : ℤ) : ℤ × Bool :=
  if shift < 0 ∨ 62 < shift ∨ bits < 2 ∨ 32 < bits then (0, false)
  else
    let amax : ℤ := 2 ^ (bits - 1).toNat - 1
    let v :=
      if 0 < bias ∧ int64Max - bias < sum then int64Max
      else if bias < 0 ∧ sum < int64Min - bias then int64Min
      else sum + bias
    let v := if v < 0 then 0 else v
    let v :=
      if 0 < shift then v / 2 ^ shift.toNat + (v / 2 ^ (shift - 1).toNat) % 2 else v
    if amax < v then (amax, true) else (v, false)

/-- `act_refused`: what the stage refuses, judged when the command's turn comes. -/
def actRefused (t : Twin Dev P) (c : Cmd P) : Bool :=
  if c.flags = 0 then false
  else if c.flags &&& ~~~(cmdAct ||| cmdHold ||| cmdFromHeld) ≠ 0 then true
  else if t.build.actHold = 0 then true
  else if c.flags &&& cmdHold ≠ 0 ∧ c.flags &&& cmdAct = 0 then true
  else if c.flags &&& cmdAct ≠ 0 ∧
      (c.actShift < 0 ∨ 62 < c.actShift ∨ c.actBits < 2 ∨ t.build.dinW < c.actBits) then true
  else if c.flags &&& cmdHold ≠ 0 ∧ (t.build.actHold : ℤ) < c.M * c.N then true
  else if c.flags &&& cmdFromHeld ≠ 0 ∧
      (!t.heldValid ∨ t.heldM ≠ c.M ∨ t.heldN ≠ c.K) then true
  else false

/-- The activation stage over the `M × N` sums, row by row: the outputs and the number clamped. -/
def actStage (c : Cmd P) (out : List ℤ) : List ℤ × ℤ :=
  let pairs := out.mapIdx fun i v =>
    activate v ((c.bias.getD []).getD (i % c.N.toNat) 0) c.actShift c.actBits
  (pairs.map (·.1), (pairs.countP (·.2) : ℕ))

/-! ## A GEMM -/

/-- What `gemm_arith` gives when the tile does not refuse. -/
structure Arith where
  out : List ℤ
  sats : ℤ
  clips : ℤ

/-- `gemm_arith`: the model's arithmetic for one command, and the activation stage's after it. `none`
if the tile or the stage refuses. -/
def gemmArith (k : TileKernel Dev) (t : Twin Dev P) (c : Cmd P) : Twin Dev P × Option Arith :=
  let a := if c.flags &&& cmdFromHeld ≠ 0 then t.held else c.A.getD []
  if actRefused t c then (t, none)
  else
    let cfg := cfgFromRegs t.regs
    -- the c930 core's own refusal: a bit the tile does not build, or a shift it cannot hold
    if cfg.impair ≠ 0 ∧ (cfg.impair &&& ~~~built ≠ 0 ∨ 40 < cfg.adcShift) then (t, none)
    else if c.bank < 0 ∨ (banks : ℤ) ≤ c.bank then (t, none)
    else
      let cfg := { cfg with seed := gemmSeed t.regs.seed t.regs.gemmCt }
      let (ok, t) := t.malloc
      if !ok then (t, none)
      else
        match k.gemm cfg t.build.tile t.dev c.bank c.M c.N c.K a (c.B.getD []) with
        | (dev, none) => ({ t with dev := dev }, none)
        | (dev, some (sats, out)) =>
            let t := { t with dev := dev }
            if c.flags &&& cmdAct ≠ 0 then
              let (out, clips) := actStage c out
              (t, some { out, sats, clips })
            else (t, some { out, sats, clips := 0 })

/-- The (N tile, K tile) pairs a command's walk programs. -/
def tilesOf (b : Build) (c : Cmd P) : U64 :=
  BitVec.ofNat 64 ((c.N.toNat + b.cols - 1) / b.cols) *
    BitVec.ofNat 64 ((c.K.toNat + b.rows - 1) / b.rows)

/-- The shots a command's walk takes. -/
def shotsOf (b : Build) (c : Cmd P) : U64 :=
  tilesOf b c * BitVec.ofNat 64 c.M.toNat

/-- `gemm_begin`: take the tile for a command, or refuse it. -/
def gemmBegin (k : TileKernel Dev) (t : Twin Dev P) (c : Cmd P) :
    Twin Dev P × List (Ending P) :=
  let tiles := tilesOf t.build c
  let shots := shotsOf t.build c
  match gemmArith k t c with
  | (t, none) =>
      ({ t with heldValid := false, regs := t.regs.raiseIrq irqErr }, [⟨c, .refused⟩])
  | (t, some r) =>
      ({ t with
          heldValid := false
          regs := { t.regs with
            gemmCt := t.regs.gemmCt + 1
            satCt := BitVec.ofInt 64 r.sats
            actClipCt := BitVec.ofInt 32 r.clips
            shotCt := t.regs.shotCt + shots
            wloadCt := t.regs.wloadCt + tiles }
          curClips := r.clips
          cur := c
          curC := r.out
          curSats := r.sats
          state := .gemm
          left := atLeastOne (tiles * t.regs.tw.zeroExtend 64 + shots * t.regs.ts.zeroExtend 64) },
        [])

/-- `gemm_end`: the running command ends done. With `HOLD` its output stays for the next command. -/
def gemmEnd (t : Twin Dev P) : Twin Dev P × List (Ending P) :=
  let e : Ending P := ⟨t.cur, .done t.curC t.curSats t.curClips⟩
  let t' : Twin Dev P :=
    if t.cur.flags &&& cmdHold ≠ 0 then
      { t with held := t.curC, heldM := t.cur.M, heldN := t.cur.N, heldValid := true }
    else t
  ({ t' with curC := [], cur := {}, state := .idle }, [e])

/-! ## A calibration -/

/-- `cal_begin`. -/
def calBegin (k : TileKernel Dev) (t : Twin Dev P) : Twin Dev P :=
  let bank := ((t.regs.calCfg >>> 10) &&& 1).toNat
  let cfg := cfgFromRegs t.regs
  let passes := (t.regs.calCfg >>> 8) &&& 0x3
  let cal : CalCfg :=
    { ampLog2 := t.regs.calCfg &&& 0xF
      repsLog2 := (t.regs.calCfg >>> 4) &&& 0xF
      passes := if passes = 0 then 1 else passes }
  let (dev, report) :=
    k.calBank cfg t.build.tile t.dev bank (calSeedOf t.regs.calSeed t.regs.calCt) cal
  let outcome : CalOutcome :=
    match report with
    | none => { refused := true, cycles := 1 }
    | some r =>
        -- with the ADC unquantised one pass is exact and the model takes one
        let quantised := cfg.impair &&& ptaQuant ≠ 0 ∧ cfg.adcBits ≠ 0
        let passes : U64 := if quantised then cal.passes.zeroExtend 64 else 1
        let reps := passes <<< cal.repsLog2
        let rows : U64 := BitVec.ofNat 64 t.build.rows
        { errMax := BitVec.ofNat 32 r.left
          errFound := BitVec.ofNat 32 r.found
          clamped := r.clamped
          sats := r.sats
          shots := reps * rows
          cycles := atLeastOne
            (reps * (t.regs.tw.zeroExtend 64 + rows * t.regs.ts.zeroExtend 64)) }
  { t with
    dev := dev
    regs := { t.regs with calValid := false }
    cal := outcome
    state := .cal
    left := outcome.cycles }

/-- `cal_end`. -/
def calEnd (t : Twin Dev P) : Twin Dev P :=
  let r := { t.regs with calCyc := t.regs.calCyc + t.cal.cycles }
  let r :=
    if t.cal.refused then { r.raiseIrq irqErr with driftAlarm := false }
    else
      let r := { r with
        errMax := t.cal.errMax
        errFound := t.cal.errFound
        driftAlarm := t.cal.clamped
        calValid := true
        calCt := r.calCt + 1
        shotCt := r.shotCt + t.cal.shots
        satCt := r.satCt + BitVec.ofInt 64 t.cal.sats }
      if t.cal.clamped then r.raiseIrq irqDriftAlarm else r
  { t with regs := r.raiseIrq irqCalDone, state := .idle }

/-! ## Who gets the tile next -/

/-- The queue's half of `start_next`: a refused command never holds the tile, so the loop goes on to
the one behind it. -/
def startQueued (k : TileKernel Dev) :
    List (Cmd P) → Twin Dev P → Twin Dev P × List (Ending P)
  | [], t => ({ t with q := [] }, [])
  | c :: q, t =>
      match gemmBegin k { t with q := q } c with
      | (t, es) =>
          if t.state = .idle then
            match startQueued k q t with
            | (t, es') => (t, es ++ es')
          else (t, es)

/-- `start_next`: a calibration first, then the queue's head. -/
def startNext (k : TileKernel Dev) (t : Twin Dev P) : Twin Dev P × List (Ending P) :=
  if t.state ≠ .idle then (t, [])
  else if t.calPending then (calBegin k { t with calPending := false }, [])
  else startQueued k t.q t

/-! ## Reset -/

/-- `drop_all`: everything that was accepted and has not ended, discarded. -/
def dropAll (t : Twin Dev P) : Twin Dev P × List (Ending P) :=
  let running := if t.state = .gemm then [(⟨t.cur, .lost⟩ : Ending P)] else []
  ({ t with
      curC := if t.state = .gemm then [] else t.curC
      cur := if t.state = .gemm then {} else t.cur
      q := []
      state := .idle
      left := 0
      calPending := false
      heldValid := false },
    running ++ t.q.map (⟨·, .lost⟩))

/-- `pta_twin_reset`. -/
def reset (k : TileKernel Dev) (t : Twin Dev P) : Twin Dev P × List (Ending P) :=
  match dropAll t with
  | (t, es) =>
      ({ t with regs := {}, dev := k.calReset (k.modelReset t.dev 0), now := 0 }, es)

/-! ## The data path -/

/-- The bounds `pta_twin_submit` puts on a command before it looks at the queue. -/
def submittable (c : Cmd P) : Bool :=
  c.B.isSome && (c.A.isSome || c.flags &&& cmdFromHeld ≠ 0) &&
    (c.C.isSome || c.flags &&& cmdHold ≠ 0) &&
    (1 ≤ c.M && 1 ≤ c.N && 1 ≤ c.K) && (c.M ≤ dimMax && c.N ≤ dimMax && c.K ≤ dimMax) &&
    (c.M * c.N ≤ elemMax && c.M * c.K ≤ elemMax && c.K * c.N ≤ elemMax)

/-- The twin's copy of a submitted command: `M × K` and `K × N` operands, and `N` biases only for the
activation stage. -/
def copyCmd (c : Cmd P) : Cmd P :=
  { c with
    A := if c.flags &&& cmdFromHeld ≠ 0 then none
      else c.A.map (·.take (c.M.toNat * c.K.toNat))
    B := c.B.map (·.take (c.K.toNat * c.N.toNat))
    bias := if c.flags &&& cmdAct ≠ 0 then c.bias.map (·.take c.N.toNat) else none }

/-- One `malloc` for each operand the twin copies: whether all were given. -/
def copyMallocs (t : Twin Dev P) (c : Cmd P) : Bool × Twin Dev P :=
  let (okA, t) := if c.flags &&& cmdFromHeld ≠ 0 then (true, t) else t.malloc
  let (okB, t) := t.malloc
  let (okBias, t) := if c.flags &&& cmdAct ≠ 0 ∧ c.bias.isSome then t.malloc else (true, t)
  (okA && okB && okBias, t)

/-- `pta_twin_submit`: whether the command was accepted. -/
def submit (k : TileKernel Dev) (t : Twin Dev P) (c : Cmd P) :
    Bool × Twin Dev P × List (Ending P) :=
  if !submittable c then (false, t, [])
  else if (t.state ≠ .idle ∨ t.calPending) ∧ t.build.queueDepth ≤ t.q.length then (false, t, [])
  else
    match copyMallocs t c with
    | (false, t) => (false, t, [])
    | (true, t) =>
        if t.state = .idle ∧ !t.calPending ∧ t.q = [] then (true, gemmBegin k t (copyCmd c))
        else (true, { t with q := t.q ++ [copyCmd c] }, [])

/-- `pta_twin_pending`: commands accepted and not yet ended. -/
def pending (t : Twin Dev P) : ℕ :=
  t.q.length + (if t.state = .gemm then 1 else 0)

/-! ## Time -/

/-- The loop of `pta_twin_run`. Each turn but the last ends what holds the tile, so a fuel of the
commands waiting, a calibration and two more is never used up (`runLoop_drains`). The third component
is the cycles that are left. -/
def runLoop (k : TileKernel Dev) :
    ℕ → Twin Dev P → U64 → Twin Dev P × List (Ending P) × U64
  | 0, t, cycles => (t, [], cycles)
  | fuel + 1, t, cycles =>
      if cycles = 0 then (t, [], 0)
      else if t.state = .idle then ({ t with now := t.now + cycles }, [], 0)
      else
        let step := if t.left < cycles then t.left else cycles
        let t := { t with now := t.now + step, left := t.left - step }
        let cycles := cycles - step
        if t.left = 0 then
          match (if t.state = .gemm then gemmEnd t else (calEnd t, [])) with
          | (t, es) =>
              match startNext k t with
              | (t, es') =>
                  match runLoop k fuel t cycles with
                  | (t, es'', rest) => (t, es ++ es' ++ es'', rest)
        else runLoop k fuel t cycles

/-- The turns `pta_twin_run` can take from a state. -/
def runFuel (t : Twin Dev P) : ℕ :=
  t.q.length + 3

/-- `pta_twin_run`. -/
def run (k : TileKernel Dev) (t : Twin Dev P) (cycles : U64) : Twin Dev P × List (Ending P) :=
  match runLoop k (runFuel t) t cycles with
  | (t, es, _) => (t, es)

/-- `pta_twin_age`: whether the tile was aged. -/
def age (k : TileKernel Dev) (t : Twin Dev P) (steps : U64) : Bool × Twin Dev P :=
  if t.state ≠ .idle ∨ t.q ≠ [] then (false, t)
  else if (cfgFromRegs t.regs).impair &&& 0x08 ≠ 0 then
    (true, { t with dev := k.driftAge (cfgFromRegs t.regs) t.dev steps })
  else (true, t)

/-- `pta_twin_irq`: the interrupt line. -/
def irq (t : Twin Dev P) : Bool :=
  t.regs.irqStatus &&& t.regs.irqMask ≠ 0

/-! ## The window -/

/-- `status`: the word `PTA_STATUS` reads. -/
def statusWord (t : Twin Dev P) : U32 :=
  (if t.state = .cal then 0x01 else 0) |||
    (if t.regs.calValid then 0x02 else 0) |||
    (if t.regs.satCt ≠ 0 then 0x04 else 0) |||
    (if t.regs.driftAlarm then 0x08 else 0) |||
    (if t.state = .gemm ∨ t.q ≠ [] then 0x10 else 0) |||
    ((t.regs.errMax &&& 0xFFFF) <<< 8)

/-- `caps0`. -/
def caps0 (b : Build) : U32 :=
  BitVec.ofNat 32 b.rows ||| (BitVec.ofNat 32 b.cols <<< 10) |||
    (BitVec.ofNat 32 b.dinW <<< 20) ||| (BitVec.ofNat 32 b.accW <<< 26)

/-- `caps1`. -/
def caps1 (b : Build) : U32 :=
  let qmax : U32 := if 15 < b.dinW - 1 then 15 else BitVec.ofNat 32 (b.dinW - 1)
  built ||| (BitVec.ofNat 32 banks <<< 8) ||| (qmax <<< 16) ||| (qmax <<< 20) ||| (15 <<< 24)

/-- `caps2_act`: the activation stage, if this build has one, and the log2 of what it holds. -/
def caps2Act (b : Build) : U32 :=
  if b.actHold = 0 then 0 else 0x00020000 ||| (BitVec.ofNat 32 (Nat.clog 2 b.actHold) <<< 20)

/-- The upper half of a 64-bit counter. -/
def hi32 (v : U64) : U32 :=
  (v >>> 32).truncate 32

/-- `pta_twin_read32`. A counter's low half latches its high half for the read that follows. -/
def read32 (t : Twin Dev P) (off : U32) : Twin Dev P × U32 :=
  if window ≤ off ∨ off &&& 3 ≠ 0 then (t, 0)
  else if 0x090 ≤ off ∧ off < 0x0B0 then
    let j := ((off - 0x090) >>> 2).toNat
    (t, if j < affineWords t.build then BitVec.ofInt 32 (t.regs.gain.getD j 0) &&& 0x3FFFF else 0)
  else if 0x0B0 ≤ off ∧ off < 0x0D0 then
    let j := ((off - 0x0B0) >>> 2).toNat
    (t, if j < affineWords t.build then BitVec.ofInt 32 (t.regs.offs.getD j 0) else 0)
  else
    let r := t.regs
    match off.toNat with
    | 0x000 => (t, 0x50544101)
    | 0x004 => (t, caps0 t.build)
    | 0x008 => (t, caps1 t.build)
    | 0x00C => (t, 0x80000000 ||| (3 <<< 18) ||| 0x00010000 ||| caps2Act t.build)
    | 0x01C => (t, r.actClipCt)
    | 0x010 => (t, r.irqStatus)
    | 0x014 => (t, r.irqMask)
    | 0x018 => (t, r.gemmCt)
    | 0x040 => (t, r.en)
    | 0x044 => (t, statusWord t)
    | 0x048 => (t, r.impair)
    | 0x04C => (t, r.bits)
    | 0x050 => (t, r.seed)
    | 0x054 => (t, r.sigTh)
    | 0x058 => (t, r.sigSh)
    | 0x05C => (t, r.sigPr)
    | 0x060 => (t, r.drift)
    | 0x064 => (t, r.xtalk)
    | 0x068 => (t, r.tw)
    | 0x06C => (t, r.ts)
    | 0x070 => (t, r.calPer)
    | 0x074 => (t, r.calThr)
    | 0x078 => (t, r.calCt)
    | 0x07C => ({ t with regs := { r with calCycHi := hi32 r.calCyc } }, r.calCyc.truncate 32)
    | 0x080 => ({ t with regs := { r with shotHi := hi32 r.shotCt } }, r.shotCt.truncate 32)
    | 0x084 => ({ t with regs := { r with wloadHi := hi32 r.wloadCt } }, r.wloadCt.truncate 32)
    | 0x088 => ({ t with regs := { r with satHi := hi32 r.satCt } }, r.satCt.truncate 32)
    | 0x0EC => (t, r.calCycHi)
    | 0x0E0 => (t, r.shotHi)
    | 0x0E4 => (t, r.wloadHi)
    | 0x0E8 => (t, r.satHi)
    | 0x08C => (t, r.errMax &&& 0xFFFFFF)
    | 0x0F0 => (t, r.errFound &&& 0xFFFFFF)
    | 0x0D0 => (t, r.dmax)
    | 0x0D4 => (t, r.calCfg)
    | 0x0D8 => (t, r.trim)
    | 0x0DC => (t, r.calSeed)
    | _ => (t, 0)

/-- `send_affine`: a column's pair, to the tile. -/
def sendAffine (k : TileKernel Dev) (t : Twin Dev P) (j : ℕ) : Twin Dev P :=
  { t with dev := k.columnCal t.dev j (t.regs.gain.getD j 0) (t.regs.offs.getD j 0) }

/-- `write_ctrl`. -/
def writeCtrl (k : TileKernel Dev) (t : Twin Dev P) (v : U32) : Twin Dev P × List (Ending P) :=
  let t := { t with regs := { t.regs with en := v &&& 1 } }
  let idle := t.state = .idle ∧ t.q = []
  let t :=
    if v &&& 0x08 ≠ 0 then
      if idle then
        { t with
          dev := k.calReset (k.modelReset t.dev t.regs.seed)
          regs := { t.regs with
            gain := Vector.replicate 8 256
            offs := Vector.replicate 8 0
            calValid := false
            driftAlarm := false } }
      else { t with regs := t.regs.raiseIrq irqErr }
    else t
  -- `CAL_NOW` is the engine's, and the engine listens only when enabled
  if v &&& 0x02 ≠ 0 ∧ t.regs.en ≠ 0 then startNext k { t with calPending := true } else (t, [])

/-- The eighteen signed bits of a gain register. -/
def gainOf (v : U32) : ℤ :=
  let g := v &&& 0x3FFFF
  if g &&& 0x20000 ≠ 0 then (g.toNat : ℤ) - 0x40000 else g.toNat

/-- The registers `pta_twin_write32` stores a masked word into. -/
def storeReg (r : Regs) (off : ℕ) (v : U32) : Regs :=
  match off with
  | 0x010 => { r with irqStatus := r.irqStatus &&& ~~~(v &&& 0xF) }
  | 0x014 => { r with irqMask := v &&& 0xF }
  | 0x048 => { r with impair := v &&& 0x7F }
  | 0x04C => { r with bits := v &&& 0x3FFFF }
  -- one seed for a run, and the count of GEMMs under it starts again
  | 0x050 => { r with seed := v, gemmCt := 0 }
  | 0x054 => { r with sigTh := v &&& 0xFFFF }
  | 0x058 => { r with sigSh := v &&& 0xFFFF }
  | 0x05C => { r with sigPr := v &&& 0xFFFF }
  | 0x060 => { r with drift := v &&& 0x1FFFFF }
  | 0x064 => { r with xtalk := v &&& 0xFF }
  | 0x068 => { r with tw := v }
  | 0x06C => { r with ts := v }
  | 0x070 => { r with calPer := v }
  | 0x074 => { r with calThr := v &&& 0xFFFFFF }
  | 0x0D0 => { r with dmax := v &&& 0xFFFF }
  | 0x0D4 => { r with calCfg := v &&& 0x7FF }
  | 0x0D8 => { r with trim := v &&& 0xFFFF000F }
  | 0x0DC => { r with calSeed := v }
  | _ => r

/-- `pta_twin_write32`. -/
def write32 (k : TileKernel Dev) (t : Twin Dev P) (off v : U32) : Twin Dev P × List (Ending P) :=
  if window ≤ off ∨ off &&& 3 ≠ 0 then (t, [])
  else if 0x090 ≤ off ∧ off < 0x0B0 then
    let j := ((off - 0x090) >>> 2).toNat
    if j < affineWords t.build then
      (sendAffine k { t with regs := { t.regs with
        gain := t.regs.gain.setIfInBounds j (gainOf v) } } j, [])
    else (t, [])
  else if 0x0B0 ≤ off ∧ off < 0x0D0 then
    let j := ((off - 0x0B0) >>> 2).toNat
    if j < affineWords t.build then
      (sendAffine k { t with regs := { t.regs with
        offs := t.regs.offs.setIfInBounds j v.toInt } } j, [])
    else (t, [])
  else if off = 0x040 then writeCtrl k t v
  else ({ t with regs := storeReg t.regs off.toNat v }, [])

end Grxcp.PtaTwin
