import Grxcp.Pta.Board

/-!
# What the module does while the driver does nothing

A module that has nothing to take and nothing to end leaves memory as it is (`Calm`). One that waits for a slot
leaves its line as it was published until it ends it, and then moves past it (`Waits`).
-/

namespace Grxcp.PtaModule

open PtaTwin

/-! ## What taking a slot comes to -/

section Take

variable {Dev σ : Type} (h : Host σ) (k : TileKernel Dev)

/-- Calls of the host that write nothing. -/
inductive Looks (m : Module Dev σ) : Module Dev σ → Prop
  | refl : Looks m m
  | read {m' : Module Dev σ} (hl : Looks m m') (a : U64) : Looks m (m'.readLine h a).1
  | malloc {m' : Module Dev σ} (hl : Looks m m') : Looks m (m'.malloc h).1

variable {h}

theorem Looks.trans {m m' m'' : Module Dev σ} (hl : Looks h m m') (hl' : Looks h m' m'') : Looks h m m'' := by
  induction hl' with
  | refl => exact hl
  | read _ a ih => exact ih.read a
  | malloc _ ih => exact ih.malloc

variable (h)

theorem readLines_looks (a : U64) (left : ℕ) :
    ∀ (i : ℕ) (m : Module Dev σ), Looks h m (readLines h a left i m).1 := by
  induction left with
  | zero => exact fun i m => .refl
  | succ left ih =>
    intro i m
    have hread : Looks h m (m.readLine h (lineAddr a i)).1 := Looks.refl.read _
    unfold readLines
    rcases hr : m.readLine h (lineAddr a i) with ⟨m', line⟩
    rw [hr] at hread
    cases line with
    | none => exact hread
    | some line =>
      have hrest := ih (i + 1) m'
      dsimp only
      rcases hrs : readLines h a left (i + 1) m' with ⟨m'', rest⟩
      rw [hrs] at hrest
      cases rest with
      | none => exact hread.trans hrest
      | some rest => exact hread.trans hrest

theorem readOperands_looks (a : U64) (count : ℕ) (m : Module Dev σ) : Looks h m (readOperands h a count m).1 :=
  readLines_looks h a (linesOf count) 0 m

/-- A slot that is taken halts the queue, ends at once, or goes to the tile with a usable descriptor. -/
theorem take_cases (m : Module Dev σ) :
    ∃ m', Looks h { m with taken := m.taken + 1 } m' ∧
      (m.take h k = m'.halt haltMemory ∨
        ∃ d, (Module.readLine h { m with taken := m.taken + 1 } (m.slotAddr m.head)).2 = some d ∧
          ((∃ st, m.take h k = m'.record h m.taken m.head d st noIndex 0) ∨
            unusable d = false ∧ ∃ A B, m.take h k = m'.submit h k m.taken m.head d A B)) := by
  have hslot : Module.slotAddr { m with taken := m.taken + 1 } m.head = m.slotAddr m.head := rfl
  unfold Module.take
  dsimp only
  rw [hslot]
  generalize ({ m with taken := m.taken + 1 } : Module Dev σ) = m₀
  have hread : Looks h m₀ (m₀.readLine h (m.slotAddr m.head)).1 := Looks.refl.read _
  rcases hr : m₀.readLine h (m.slotAddr m.head) with ⟨m₁, line⟩
  rw [hr] at hread
  cases line with
  | none => exact ⟨m₁, hread, .inl rfl⟩
  | some d =>
    dsimp only
    by_cases hu : unusable d = true
    · rw [if_pos hu]
      exact ⟨m₁, hread, .inr ⟨d, rfl, .inl ⟨_, rfl⟩⟩⟩
    rw [if_neg hu]
    by_cases hn : notRun d m₁.prev = true
    · rw [if_pos hn]
      exact ⟨m₁, hread, .inr ⟨d, rfl, .inl ⟨_, rfl⟩⟩⟩
    rw [if_neg hn]
    have hmalloc : Looks h m₀ (((m₁.malloc h).1.malloc h).1.malloc h).1 := hread.malloc.malloc.malloc
    generalize (((m₁.malloc h).1.malloc h).1.malloc h).1 = m₂ at *
    split
    · exact ⟨m₂, hmalloc, .inr ⟨d, rfl, .inl ⟨_, rfl⟩⟩⟩
    have hB := readOperands_looks h (get64 d dWgt) ((get32 d dK).toNat * (get32 d dN).toNat) m₂
    rcases hrB : readOperands h (get64 d dWgt) ((get32 d dK).toNat * (get32 d dN).toNat) m₂ with ⟨m₃, B⟩
    rw [hrB] at hB
    cases B with
    | none => exact ⟨m₃, hmalloc.trans hB, .inl rfl⟩
    | some B =>
      dsimp only
      have hA := readOperands_looks h (get64 d dAct) ((get32 d dM).toNat * (get32 d dK).toNat) m₃
      rcases hrA : readOperands h (get64 d dAct) ((get32 d dM).toNat * (get32 d dK).toNat) m₃ with ⟨m₄, A⟩
      rw [hrA] at hA
      have hl : Looks h m₀ m₄ := (hmalloc.trans hB).trans hA
      cases A with
      | none => exact ⟨m₄, hl, .inl rfl⟩
      | some A => exact ⟨m₄, hl, .inr ⟨d, rfl, .inr ⟨Bool.eq_false_iff.mpr hu, A, B, rfl⟩⟩⟩

end Take

/-! ## What no move of the module's own changes -/

/-- The registers that only their own writes change, and something that is told of the host. -/
structure Config (β : Type) where
  enable : Bool
  enabled : Bool
  baseLo : U32
  baseHi : U32
  sizeLog2 : U32
  tail : U32
  host : β

section Config

variable {Dev σ β : Type} {h : Host σ} (k : TileKernel Dev) (g : σ → β)

/-- What is told of the host is no affair of the module's. -/
structure Host.Keeps (h : Host σ) (g : σ → β) : Prop where
  read : ∀ s a, g (h.readLine s a).1 = g s
  write : ∀ s a line, g (h.writeLine s a line).1 = g s
  msi : ∀ f ∈ h.msi, ∀ s v, g (f s v) = g s
  malloc : ∀ s, g (h.malloc s).1 = g s

/-- The configuration of a module. -/
def Module.config (m : Module Dev σ) : Config β :=
  { enable := m.enable
    enabled := m.enabled
    baseLo := m.baseLo
    baseHi := m.baseHi
    sizeLog2 := m.sizeLog2
    tail := m.tail
    host := g m.host }

theorem config_host (m : Module Dev σ) {s : σ} (hs : g s = g m.host) :
    Module.config g { m with host := s } = m.config g := by
  rw [Module.config, Module.config, hs]

variable {g} (hk : h.Keeps g)
include hk

theorem readLine_config (m : Module Dev σ) (a : U64) : (m.readLine h a).1.config g = m.config g :=
  config_host g m (hk.read m.host a)

theorem malloc_config (m : Module Dev σ) : (m.malloc h).1.config g = m.config g :=
  config_host g m (hk.malloc m.host)

theorem raise_config (m : Module Dev σ) (v : ℕ) : (m.raise h v).config g = m.config g := by
  unfold Module.raise
  cases hmsi : h.msi with
  | none => rfl
  | some msi => exact config_host g m (hk.msi msi hmsi m.host v)

theorem irqEdge_config (m : Module Dev σ) : (m.irqEdge h).config g = m.config g := by
  unfold Module.irqEdge
  dsimp only
  split
  · exact raise_config hk m 1
  · rfl

theorem record_config (m : Module Dev σ) (n : ℕ) (idx : U32) (d : Line) (st : RecordStatus) (i : U32) (sats : U64) :
    (m.record h n idx d st i sats).config g = m.config g := by
  have hwrite := hk.write m.host (m.slotAddr idx) (recordLine d st i sats)
  rcases hw : h.writeLine m.host (m.slotAddr idx) (recordLine d st i sats) with ⟨s, ok⟩
  rw [hw] at hwrite
  have hhost : Module.config g { m with host := s } = m.config g := config_host g m hwrite
  simp only [Module.record, hw]
  cases ok with
  | false => exact hhost
  | true =>
    rw [if_neg (by decide)]
    split
    · rw [raise_config hk]
      exact hhost
    · exact hhost

theorem writeLines_config (f : Inflight) (left : ℕ) :
    ∀ (i : ℕ) (m : Module Dev σ), (writeLines h f left i m).1.config g = m.config g := by
  induction left with
  | zero => exact fun i m => rfl
  | succ left ih =>
    intro i m
    have hwrite := hk.write m.host (lineAddr f.out i) (resultLine f.C f.count i)
    rcases hw : h.writeLine m.host (lineAddr f.out i) (resultLine f.C f.count i) with ⟨s, ok⟩
    rw [hw] at hwrite
    simp only [writeLines, hw]
    have hhost : Module.config g { m with host := s } = m.config g := config_host g m hwrite
    cases ok with
    | false => exact hhost
    | true =>
      rw [if_pos rfl, ih]
      exact hhost

theorem finish_config (m : Module Dev σ) : (m.finish h).config g = m.config g := by
  unfold Module.finish
  dsimp only
  split
  · rfl
  split
  · rfl
  cases m.cur.status with
  | done =>
    dsimp only
    have hwrite : (writeResults h m.cur m).1.config g = m.config g := writeLines_config hk m.cur _ 0 m
    rcases hw : writeResults h m.cur m with ⟨m', ok⟩
    rw [hw] at hwrite
    cases ok with
    | false => exact hwrite
    | true => exact (record_config hk m' _ _ _ _ _ _).trans hwrite
  | pending => exact record_config hk m _ _ _ _ _ _
  | refused => exact record_config hk m _ _ _ _ _ _
  | lost => exact record_config hk m _ _ _ _ _ _

theorem submit_config (m : Module Dev σ) (n : ℕ) (idx : U32) (d : Line) (A B : List ℤ) :
    (m.submit h k n idx d A B).config g = m.config g := by
  unfold Module.submit
  dsimp only
  split
  · rfl
  · exact record_config hk _ _ _ _ _ _ _

theorem looks_config {m m' : Module Dev σ} (hl : Looks h m m') : m'.config g = m.config g := by
  induction hl with
  | refl => rfl
  | read _ a ih => exact (readLine_config hk _ a).trans ih
  | malloc _ ih => exact (malloc_config hk _).trans ih

theorem take_config (m : Module Dev σ) : (m.take h k).config g = m.config g := by
  obtain ⟨m', hl, hcases⟩ := take_cases h k m
  have hlook := looks_config hk hl
  have hm : m'.config g = m.config g := hlook
  rcases hcases with htake | ⟨d, -, ⟨st, htake⟩ | ⟨-, A, B, htake⟩⟩
  · rw [htake]
    exact hm
  · rw [htake, record_config hk, hm]
  · rw [htake, submit_config k hk, hm]

theorem serviceLoop_config (fuel : ℕ) :
    ∀ m : Module Dev σ, (serviceLoop h k fuel m).config g = m.config g := by
  induction fuel with
  | zero => exact fun m => rfl
  | succ fuel ih =>
    intro m
    unfold serviceLoop
    split
    · dsimp only
      split
      · exact finish_config hk m
      · rw [ih, finish_config hk]
    · split
      · rfl
      · rw [ih, take_config k hk]

theorem service_config (m : Module Dev σ) : (m.service h k).config g = m.config g := by
  rw [Module.service, irqEdge_config hk, serviceLoop_config k hk]

theorem run_config (m : Module Dev σ) (cycles : U64) : (m.run h k cycles).config g = m.config g := by
  have hmoved : ∀ (m : Module Dev σ) r, (m.tileMoved r).config g = m.config g := fun m r => rfl
  rw [Module.run, service_config k hk, hmoved, service_config k hk]

end Config

end Grxcp.PtaModule

namespace Grxcp.PtaChiplet

open PtaTwin (TileKernel Twin Ending)
open PtaModule

variable {Dev : Type} (k : TileKernel Dev)

theorem board_keeps : PtaModule.Host.Keeps board Board.held := by
  refine ⟨fun s a => rfl, fun s a line => rfl, fun f hf s v => ?_, fun s => rfl⟩
  rw [← Option.some.inj hf]

/-- The configuration of a module on the board, with the memory that the driver holds. -/
abbrev cfg (m : Module Dev Board) : Config (List Dma) :=
  m.config Board.held

/-- What happens meanwhile leaves the configuration. -/
theorem aside_config (m : Module Dev Board) (a : Aside) : cfg (m.act board k a.action) = cfg m := by
  cases a with
  | read32 off =>
    unfold Aside.action Module.act Module.read32
    dsimp only
    split
    · rfl
    · rfl
  | write32 off v hoff =>
    have hpage : ∀ r, cfg ((m.tileMoved r).irqEdge board) = cfg m := fun r => irqEdge_config board_keeps _
    rcases hoff with hlow | rfl
    · unfold Aside.action Module.act Module.write32
      dsimp only
      rw [if_pos hlow]
      exact hpage _
    · rfl
  | run cycles => exact run_config k board_keeps m cycles
  | tile op => rfl

/-! ## A module with nothing to do -/

/-- Nothing to end, and nothing to take. -/
structure Calm (m : Module Dev Board) : Prop where
  orphan : m.cur.live = true → m.cur.orphan = true
  idle : m.enable = false ∨ m.head = m.tail

/-- The queue's indices are as they were and the module has written nothing of a slot; memory is as told. -/
structure Lands (m : Module Dev Board) (mem : Bytes) (m' : Module Dev Board) : Prop where
  config : cfg m' = cfg m
  mem : m'.host.mem = mem
  head : m'.head = m.head
  halted : m'.halted = m.halted
  orphan : (m.cur.live = true → m.cur.orphan = true) → m'.cur.live = true → m'.cur.orphan = true
  trace : ∃ es, m'.trace = m.trace ++ es ∧ ∀ e ∈ es, ¬e.ofSlot

/-- Memory, too, is as it was. -/
abbrev Stays (m m' : Module Dev Board) : Prop :=
  Lands m m.host.mem m'

theorem Stays.refl (m : Module Dev Board) : Stays m m :=
  ⟨rfl, rfl, rfl, rfl, id, [], (List.append_nil _).symm, fun e he => absurd he List.not_mem_nil⟩

theorem Lands.trans {m m' m'' : Module Dev Board} {mem mem' : Bytes} (hs : Lands m mem m') (hs' : Lands m' mem' m'') :
    Lands m mem' m'' := by
  obtain ⟨es, htrace, hes⟩ := hs.trace
  obtain ⟨es', htrace', hes'⟩ := hs'.trace
  refine ⟨hs'.config.trans hs.config, hs'.mem, hs'.head.trans hs.head, hs'.halted.trans hs.halted,
    fun h => hs'.orphan (hs.orphan h), es ++ es', ?_, fun e he => ?_⟩
  · rw [htrace', htrace, List.append_assoc]
  · rcases List.mem_append.mp he with he | he
    · exact hes e he
    · exact hes' e he

theorem Stays.trans {m m' m'' : Module Dev Board} (hs : Stays m m') (hs' : Stays m' m'') : Stays m m'' := by
  have hboth := Lands.trans hs hs'
  rw [hs.mem] at hboth
  exact hboth

theorem Lands.calm {m m' : Module Dev Board} {mem : Bytes} (hs : Lands m mem m') (hc : Calm m) : Calm m' := by
  have henable : m'.enable = m.enable := congrArg Config.enable hs.config
  have htail : m'.tail = m.tail := congrArg Config.tail hs.config
  refine ⟨hs.orphan hc.orphan, ?_⟩
  rw [henable, hs.head, htail]
  exact hc.idle

theorem tileMoved_stays (m : Module Dev Board) (r : Twin Dev Ptr × List (Ending Ptr)) : Stays m (m.tileMoved r) := by
  obtain ⟨hlive, -, -, -, -, -, -, horphan⟩ := tileMoved_cur_frame m r
  refine ⟨rfl, rfl, rfl, rfl, fun h => ?_, [], (List.append_nil _).symm, fun e he => absurd he List.not_mem_nil⟩
  rw [hlive, horphan]
  exact h

theorem irqEdge_stays (m : Module Dev Board) : Stays m (m.irqEdge board) := by
  have hraise : m.raise board 1 = m.emit (.msi 1) := rfl
  unfold Module.irqEdge
  rw [hraise]
  dsimp only
  split
  · refine ⟨rfl, rfl, rfl, rfl, id, [.msi 1], rfl, fun e he => ?_⟩
    rw [List.mem_singleton.mp he]
    decide
  · exact ⟨rfl, rfl, rfl, rfl, id, [], (List.append_nil _).symm, fun e he => absurd he List.not_mem_nil⟩

theorem finish_orphan {m : Module Dev Board} (h : m.cur.live = true → m.cur.orphan = true) :
    m.finish board = m ∨ m.finish board = m.drop := by
  unfold Module.finish
  dsimp only
  split
  · exact .inl rfl
  · next hlive =>
    rw [if_pos]
    · exact .inr rfl
    · apply h
      rw [not_or] at hlive
      simpa only [Bool.not_eq_true', Bool.not_eq_false] using hlive.1

theorem finish_stays {m : Module Dev Board} (h : m.cur.live = true → m.cur.orphan = true) :
    Stays m (m.finish board) := by
  rcases finish_orphan h with hsame | hdrop
  · rw [hsame]
    exact .refl m
  · rw [hdrop]
    exact ⟨rfl, rfl, rfl, rfl, fun _ hlive => absurd hlive Bool.false_ne_true, [], (List.append_nil _).symm,
      fun e he => absurd he List.not_mem_nil⟩

theorem serviceLoop_stays (fuel : ℕ) : ∀ m : Module Dev Board, Calm m → Stays m (serviceLoop board k fuel m) := by
  induction fuel with
  | zero => exact fun m _ => .refl m
  | succ fuel ih =>
    intro m hc
    have hfinish : Stays m (m.finish board) := finish_stays hc.orphan
    unfold serviceLoop
    split
    · dsimp only
      split
      · exact hfinish
      · exact hfinish.trans (ih _ (hfinish.calm hc))
    · rw [if_pos]
      · exact .refl m
      · rcases hc.idle with hidle | hidle
        · left
          rw [hidle]
          rfl
        · exact .inr (.inr hidle)

theorem service_stays {m : Module Dev Board} (hc : Calm m) : Stays m (m.service board k) :=
  (serviceLoop_stays k _ m hc).trans (irqEdge_stays _)

/-- Whatever happens meanwhile, a module with nothing to do does nothing to the queue. -/
theorem aside_stays {m : Module Dev Board} (hc : Calm m) (a : Aside) : Stays m (m.act board k a.action) := by
  cases a with
  | read32 off =>
    unfold Aside.action Module.act Module.read32
    dsimp only
    split
    · exact ⟨rfl, rfl, rfl, rfl, id, [], (List.append_nil _).symm, fun e he => absurd he List.not_mem_nil⟩
    · exact .refl m
  | write32 off v hoff =>
    rcases hoff with hlow | rfl
    · unfold Aside.action Module.act Module.write32
      dsimp only
      rw [if_pos hlow]
      exact (tileMoved_stays m _).trans (irqEdge_stays _)
    · exact ⟨rfl, rfl, rfl, rfl, id, [], (List.append_nil _).symm, fun e he => absurd he List.not_mem_nil⟩
  | run cycles =>
    have hservice : Stays m (m.service board k) := service_stays k hc
    have hmoved := hservice.trans (tileMoved_stays (m.service board k) (PtaTwin.run k (m.service board k).tile cycles))
    exact hmoved.trans (service_stays k (hmoved.calm hc))
  | tile op => exact tileMoved_stays m _

theorem asides_stays (as : List Aside) :
    ∀ m : Module Dev Board, Calm m → Stays m (m.acts board k (as.map Aside.action)) := by
  induction as with
  | nil => exact fun m _ => .refl m
  | cons a as ih =>
    intro m hc
    have hfirst : Stays m (m.act board k a.action) := aside_stays k hc a
    exact hfirst.trans (ih _ (hfirst.calm hc))

theorem pass_stays {m : Module Dev Board} (hc : Calm m) : Stays m (pass k m) := by
  have hscript : Stays m { m with host := { m.host with
      meanwhile := fun n => m.host.meanwhile (n + 1), ends := fun n => m.host.ends (n + 1) } } :=
    ⟨rfl, rfl, rfl, rfl, id, [], (List.append_nil _).symm, fun e he => absurd he List.not_mem_nil⟩
  exact hscript.trans (asides_stays k _ _ (hscript.calm hc))

theorem pass_config (m : Module Dev Board) : cfg (pass k m) = cfg m := by
  have hasides : ∀ (as : List Aside) (m : Module Dev Board),
      cfg (m.acts board k (as.map Aside.action)) = cfg m := by
    intro as
    induction as with
    | nil => exact fun m => rfl
    | cons a as ih => exact fun m => (ih _).trans (aside_config k m a)
  exact hasides _ _

/-! ## A module that waits for a slot -/

/-- Where an event moves the head to. -/
def movesHead : Event → Option U32
  | .head h => some h
  | _ => none

/-- Where the head has been moved to, record by record. -/
def heads (tr : List Event) : List U32 :=
  tr.filterMap movesHead

theorem heads_append (tr es : List Event) : heads (tr ++ es) = heads tr ++ heads es :=
  List.filterMap_append

theorem heads_emit (m : Module Dev Board) {e : Event} (h : movesHead e = none) : heads (m.emit e).trace = heads m.trace := by
  have hnone : heads [e] = [] := List.filterMap_cons_none h
  show heads (m.trace ++ [e]) = _
  rw [heads_append, hnone, List.append_nil]

theorem heads_eq_nil {es : List Event} (h : ∀ e ∈ es, ¬e.ofSlot) : heads es = [] := by
  apply List.filterMap_eq_nil_iff.mpr
  intro e he
  have hslot := h e he
  cases e with
  | head h => exact absurd rfl hslot
  | _ => rfl

theorem Lands.heads {m m' : Module Dev Board} {mem : Bytes} (hs : Lands m mem m') :
    heads m'.trace = heads m.trace := by
  obtain ⟨es, htrace, hes⟩ := hs.trace
  have hnone : PtaChiplet.heads es = [] := heads_eq_nil hes
  rw [htrace, heads_append, hnone, List.append_nil]

/-- The line of a slot, where the module looks for it. -/
def slotLine (m : Module Dev Board) (idx : U32) : Line :=
  lineAt m.host.mem (m.slotAddr idx)

/-- Two lines that share no byte. -/
def LineApart (a b : U64) : Prop :=
  ∀ p : U64, (p - a).toNat < 64 → 64 ≤ (p - b).toNat

/-- The results that a descriptor asks for are apart from a line. -/
def Harmless (desc : Line) (a : U64) : Prop :=
  unusable desc = false → ∀ i < linesOf ((get32 desc dM).toNat * (get32 desc dN).toNat * 4),
    LineApart a (lineAddr (get64 desc dOut) i)

/-- The command in flight is a slot's. -/
structure Mine (desc : Line) (idx : U32) (f : Inflight) : Prop where
  idx : f.idx = idx
  M : f.M = get32 desc dM
  N : f.N = get32 desc dN
  out : f.out = get64 desc dOut
  usable : unusable desc = false

/-- The module has not ended the slot: its line is as it was published. -/
structure Open (desc : Line) (idx : U32) (tr : List U32) (m : Module Dev Board) : Prop where
  head : m.head = idx
  line : slotLine m idx = desc
  heads : heads m.trace = tr

/-- The module has ended the slot: its record is in it. -/
structure Ended (idx : U32) (tr : List U32) (m : Module Dev Board) : Prop where
  head : m.head = idx + 1
  status : get32 (slotLine m idx) dStatus ≠ 0
  heads : heads m.trace = tr ++ [idx + 1]

/-- A module that has one slot to end, or has ended it, once. -/
structure Waits (desc : Line) (idx : U32) (tr : List U32) (m : Module Dev Board) : Prop where
  tail : m.tail = idx + 1
  harmless : Harmless desc (m.slotAddr idx)
  slot : Open desc idx tr m ∧ (m.cur.live = true → m.cur.orphan = false → Mine desc idx m.cur) ∨
    Ended idx tr m ∧ (m.cur.live = true → m.cur.orphan = true)

variable {desc : Line} {idx : U32} {tr : List U32} {m m' : Module Dev Board}

theorem slotAddr_of_config (h : cfg m' = cfg m) (idx : U32) : m'.slotAddr idx = m.slotAddr idx := by
  have hlo : m'.baseLo = m.baseLo := congrArg Config.baseLo h
  have hhi : m'.baseHi = m.baseHi := congrArg Config.baseHi h
  have hsize : m'.sizeLog2 = m.sizeLog2 := congrArg Config.sizeLog2 h
  rw [Module.slotAddr, Module.slotAddr, Module.ringSize, Module.ringSize, hlo, hhi, hsize]

theorem slotLine_eq (h : cfg m' = cfg m) (hmem : m'.host.mem = m.host.mem) (idx : U32) :
    slotLine m' idx = slotLine m idx := by
  rw [slotLine, slotLine, slotAddr_of_config h, hmem]

theorem sub_add_ofNat (a : U64) {i : ℕ} (hi : i < 64) : (a + BitVec.ofNat 64 i - a).toNat = i := by
  have hcancel : a + BitVec.ofNat 64 i - a = BitVec.ofNat 64 i := by bv_omega
  rw [hcancel, BitVec.toNat_ofNat]
  omega

/-- A line that is written is read. -/
theorem lineAt_setLine (mem : Bytes) (a : U64) (line : Line) : lineAt (setLine mem a line) a = line := by
  apply Vector.ext
  intro i hi
  have hsub : (a + BitVec.ofNat 64 i - a).toNat = i := sub_add_ofNat a hi
  rw [lineAt, Vector.getElem_ofFn, setLine, dif_pos (by rw [hsub]; exact hi)]
  simp only [hsub]
  rfl

/-- Another line is as it was. -/
theorem lineAt_setLine_of_apart {a b : U64} (h : LineApart b a) (mem : Bytes) (line : Line) :
    lineAt (setLine mem a line) b = lineAt mem b := by
  apply Vector.ext
  intro i hi
  have hout : ¬(b + BitVec.ofNat 64 i - a).toNat < 64 := by
    apply not_lt.mpr (h _ _)
    rw [sub_add_ofNat b hi]
    exact hi
  rw [lineAt, lineAt, Vector.getElem_ofFn, Vector.getElem_ofFn, setLine, dif_neg hout]

theorem Open.congr (h : Open desc idx tr m) (hc : cfg m' = cfg m) (hmem : m'.host.mem = m.host.mem)
    (hhead : m'.head = m.head) (htr : PtaChiplet.heads m'.trace = PtaChiplet.heads m.trace) : Open desc idx tr m' :=
  ⟨hhead.trans h.head, (slotLine_eq hc hmem idx).trans h.line, htr.trans h.heads⟩

theorem Ended.congr (h : Ended idx tr m) (hc : cfg m' = cfg m) (hmem : m'.host.mem = m.host.mem)
    (hhead : m'.head = m.head) (htr : PtaChiplet.heads m'.trace = PtaChiplet.heads m.trace) : Ended idx tr m' := by
  refine ⟨hhead.trans h.head, ?_, htr.trans h.heads⟩
  rw [slotLine_eq hc hmem]
  exact h.status

theorem raise_board (m : Module Dev Board) (v : ℕ) :
    (m.raise board v).host = m.host ∧ (m.raise board v).head = m.head ∧ heads (m.raise board v).trace = heads m.trace :=
  ⟨rfl, rfl, heads_emit (e := .msi v) _ rfl⟩

/-- What a record does on the board. -/
theorem record_board (m : Module Dev Board) (n : ℕ) (idx : U32) (d : Line) (st : RecordStatus) (i : U32)
    (sats : U64) :
    (m.record board n idx d st i sats).head = m.head ∧
        (m.record board n idx d st i sats).host.mem = m.host.mem ∧
        heads (m.record board n idx d st i sats).trace = heads m.trace ∨
      (m.record board n idx d st i sats).head = idx + 1 ∧
        (m.record board n idx d st i sats).host.mem =
          setLine m.host.mem (m.slotAddr idx) (recordLine d st i sats) ∧
        heads (m.record board n idx d st i sats).trace = heads m.trace ++ [idx + 1] := by
  rcases hw : board.writeLine m.host (m.slotAddr idx) (recordLine d st i sats) with ⟨s, ok⟩
  have hok : m.host.writes 0 = ok := congrArg Prod.snd hw
  have hmem : s.mem = if m.host.writes 0 then setLine m.host.mem (m.slotAddr idx) (recordLine d st i sats)
      else m.host.mem := congrArg (fun r => Board.mem r.1) hw.symm
  rw [hok] at hmem
  simp only [Module.record, hw]
  cases ok with
  | false =>
    rw [if_neg Bool.false_ne_true] at hmem
    exact .inl ⟨rfl, hmem, heads_emit (e := .record n _ _ false) _ rfl⟩
  | true =>
    rw [if_pos rfl] at hmem
    rw [if_neg (by decide)]
    have hmoved : ∀ m' : Module Dev Board, m'.trace = m.trace ++ [.record n (m.slotAddr idx) (recordLine d st i sats) true] →
        heads (m'.emit (.head (idx + 1))).trace = heads m.trace ++ [idx + 1] := by
      intro m' htrace
      show heads (m'.trace ++ [.head (idx + 1)]) = _
      rw [htrace, heads_append, heads_append]
      exact congrArg (· ++ [idx + 1]) (List.append_nil _)
    split
    · obtain ⟨hhost, hhead, htrace⟩ := raise_board (Module.emit
        { Module.emit { m with host := s } (.record n (m.slotAddr idx) (recordLine d st i sats) true) with
          head := idx + 1, prev := some st } (.head (idx + 1))) 0
      exact .inr ⟨hhead, (congrArg Board.mem hhost).trans hmem, htrace.trans (hmoved _ rfl)⟩
    · exact .inr ⟨rfl, hmem, hmoved _ rfl⟩

theorem record_word_ne (st : RecordStatus) : st.word ≠ 0 := by
  cases st with
  | done => decide
  | refused => decide
  | lost => decide
  | notIssued => decide
  | notRun => decide

/-- A record ends its slot, or the queue halts where it is. -/
theorem Open.record (h : Open desc idx tr m) (n : ℕ) (d : Line) (st : RecordStatus) (i : U32) (sats : U64) :
    Open desc idx tr (m.record board n idx d st i sats) ∨ PtaChiplet.Ended idx tr (m.record board n idx d st i sats) := by
  have hconfig : cfg (m.record board n idx d st i sats) = cfg m := record_config board_keeps m n idx d st i sats
  obtain ⟨hhead, hmem, hheads⟩ | ⟨hhead, hmem, hheads⟩ := record_board m n idx d st i sats
  · exact .inl (h.congr hconfig hmem hhead hheads)
  · refine .inr ⟨hhead, ?_, hheads.trans (congrArg (· ++ [idx + 1]) h.heads)⟩
    rw [slotLine, slotAddr_of_config hconfig, hmem, lineAt_setLine, get32_recordLine_status]
    exact record_word_ne st

/-- Results that are written leave the slot's line. -/
theorem Open.writeLines {f : Inflight} {count : ℕ} (hsafe : ∀ i < count, LineApart (m.slotAddr idx) (lineAddr f.out i))
    (left : ℕ) : ∀ (i : ℕ) (m' : Module Dev Board), i + left ≤ count → cfg m' = cfg m → Open desc idx tr m' →
      Open desc idx tr (PtaModule.writeLines board f left i m').1 ∧ (PtaModule.writeLines board f left i m').1.cur = m'.cur := by
  induction left with
  | zero => exact fun i m' _ _ ho => ⟨ho, rfl⟩
  | succ left ih =>
    intro i m' hi hc ho
    have hapart : LineApart (m'.slotAddr idx) (lineAddr f.out i) := by
      rw [slotAddr_of_config hc]
      exact hsafe i (by omega)
    rcases hw : board.writeLine m'.host (lineAddr f.out i) (resultLine f.C f.count i) with ⟨s, ok⟩
    have hheld : s.held = m'.host.held := congrArg (fun r => Board.held r.1) hw.symm
    have hmem : s.mem = if m'.host.writes 0 then setLine m'.host.mem (lineAddr f.out i) (resultLine f.C f.count i)
        else m'.host.mem := congrArg (fun r => Board.mem r.1) hw.symm
    have hline : lineAt s.mem (m'.slotAddr idx) = slotLine m' idx := by
      rw [hmem]
      split
      · exact lineAt_setLine_of_apart hapart _ _
      · rfl
    have hconfig : ∀ e, cfg ({ m' with host := s }.emit e) = cfg m' := fun e => config_host Board.held m' hheld
    have hopen : ∀ e, movesHead e = none → Open desc idx tr ({ m' with host := s }.emit e) := fun e he =>
      ⟨ho.head, hline.trans ho.line, (heads_emit _ he).trans ho.heads⟩
    simp only [PtaModule.writeLines, hw]
    cases ok with
    | false => exact ⟨hopen _ rfl, rfl⟩
    | true => exact ih (i + 1) _ (by omega) ((hconfig _).trans hc) (hopen _ rfl)

/-- The end of a command leaves the slot open or ends it. -/
theorem Waits.finish (h : Waits desc idx tr m) : Waits desc idx tr (m.finish board) := by
  have hconfig : cfg (m.finish board) = cfg m := finish_config board_keeps m
  have htail : (m.finish board).tail = idx + 1 := (congrArg Config.tail hconfig).trans h.tail
  have hharmless : Harmless desc ((m.finish board).slotAddr idx) := by
    rw [slotAddr_of_config hconfig]
    exact h.harmless
  refine ⟨htail, hharmless, ?_⟩
  rcases h.slot with ⟨hopen, hmine⟩ | ⟨hended, horphan⟩
  · unfold Module.finish
    dsimp only
    split
    · exact .inl ⟨hopen, hmine⟩
    · next hlive =>
      have hdrop : ∀ m' : Module Dev Board, Open desc idx tr m' ∨ PtaChiplet.Ended idx tr m' →
          Open desc idx tr m'.drop ∧ (m'.drop.cur.live = true → m'.drop.cur.orphan = false → Mine desc idx m'.drop.cur) ∨
            PtaChiplet.Ended idx tr m'.drop ∧ (m'.drop.cur.live = true → m'.drop.cur.orphan = true) := by
        rintro m' (ho | he)
        · exact .inl ⟨⟨ho.head, ho.line, ho.heads⟩, fun hl => absurd hl Bool.false_ne_true⟩
        · exact .inr ⟨⟨he.head, he.status, he.heads⟩, fun hl => absurd hl Bool.false_ne_true⟩
      split
      · exact hdrop m (.inl hopen)
      · next horphan =>
        apply hdrop
        rw [not_or] at hlive
        have hown : Mine desc idx m.cur := by
          apply hmine
          · simpa only [Bool.not_eq_true', Bool.not_eq_false] using hlive.1
          · exact Bool.eq_false_iff.mpr horphan
        cases hst : m.cur.status with
        | done =>
          dsimp only
          have hsafe : ∀ i < linesOf (m.cur.count * 4), LineApart (m.slotAddr idx) (lineAddr m.cur.out i) := by
            rw [Inflight.count, hown.M, hown.N, hown.out]
            exact h.harmless hown.usable
          obtain ⟨hresults, -⟩ := Open.writeLines hsafe (linesOf (m.cur.count * 4)) 0 m (by omega) rfl hopen
          have hwr : writeResults board m.cur m = PtaModule.writeLines board m.cur (linesOf (m.cur.count * 4)) 0 m := rfl
          rw [← hwr] at hresults
          rcases hboth : writeResults board m.cur m with ⟨m', ok⟩
          rw [hboth] at hresults
          cases ok with
          | false => exact .inl ⟨hresults.head, hresults.line, hresults.heads⟩
          | true => exact hown.idx ▸ hresults.record _ _ _ _ _
        | pending => exact absurd hst hlive.2
        | refused => exact hown.idx ▸ hopen.record _ _ _ _ _
        | lost => exact hown.idx ▸ hopen.record _ _ _ _ _
  · rcases finish_orphan horphan with hsame | hdrop
    · rw [hsame]
      exact .inr ⟨hended, horphan⟩
    · rw [hdrop]
      exact .inr ⟨⟨hended.head, hended.status, hended.heads⟩, fun hl => absurd hl Bool.false_ne_true⟩

theorem looks_board {m m' : Module Dev Board} (hl : Looks board m m') :
    m'.host.mem = m.host.mem ∧ m'.head = m.head ∧ m'.cur = m.cur ∧ heads m'.trace = heads m.trace := by
  induction hl with
  | refl => exact ⟨rfl, rfl, rfl, rfl⟩
  | @read m' _ a ih =>
    obtain ⟨hmem, hhead, hcur, hheads⟩ := ih
    exact ⟨hmem, hhead, hcur, (heads_emit (e := .read a _) m' rfl).trans hheads⟩
  | malloc _ ih => exact ih

/-- A slot that is taken is left open, or ended. -/
theorem Waits.take (h : Waits desc idx tr m) (hopen : Open desc idx tr m) (hl : m.cur.live = false) :
    Waits desc idx tr (m.take board k) := by
  have hconfig : cfg (m.take board k) = cfg m := take_config k board_keeps m
  have htail : (m.take board k).tail = idx + 1 := (congrArg Config.tail hconfig).trans h.tail
  have hharmless : Harmless desc ((m.take board k).slotAddr idx) := by
    rw [slotAddr_of_config hconfig]
    exact h.harmless
  refine ⟨htail, hharmless, ?_⟩
  -- a record, with nothing in flight
  have hrecord : ∀ {m' : Module Dev Board} {n : ℕ} {d : Line} {st : RecordStatus}, Open desc idx tr m' → m'.cur.live = false →
      Open desc idx tr (m'.record board n idx d st noIndex 0) ∧ ((m'.record board n idx d st noIndex 0).cur.live = true →
          (m'.record board n idx d st noIndex 0).cur.orphan = false →
          Mine desc idx (m'.record board n idx d st noIndex 0).cur) ∨
        PtaChiplet.Ended idx tr (m'.record board n idx d st noIndex 0) ∧
          ((m'.record board n idx d st noIndex 0).cur.live = true →
            (m'.record board n idx d st noIndex 0).cur.orphan = true) := by
    intro m' n d st ho hl
    have hfree : ¬(m'.record board n idx d st noIndex 0).cur.live = true := by
      rw [(record_frame board m' n idx d st noIndex 0).2, hl]
      exact Bool.false_ne_true
    rcases ho.record n d st noIndex 0 with ho | he
    · exact .inl ⟨ho, fun h => absurd h hfree⟩
    · exact .inr ⟨he, fun h => absurd h hfree⟩
  obtain ⟨m', hlooks, hcases⟩ := take_cases board k m
  obtain ⟨hmem, hhead, hcur, hheads⟩ := looks_board hlooks
  have hlook := looks_config board_keeps hlooks
  have hconfig' : cfg m' = cfg m := hlook
  have hopen' : Open desc idx tr m' := hopen.congr hconfig' hmem hhead hheads
  have hl' : m'.cur.live = false := by
    rw [hcur]
    exact hl
  rcases hcases with htake | ⟨d, hd, ⟨st, htake⟩ | ⟨husable, A, B, htake⟩⟩
  · rw [htake]
    exact .inl ⟨⟨hopen'.head, hopen'.line, hopen'.heads⟩, fun h => absurd (hl'.symm.trans h) Bool.false_ne_true⟩
  · rw [htake, hopen.head]
    exact hrecord hopen' hl'
  · -- the descriptor is the one that was published
    have hdesc : d = desc := by
      have hread : (if m.host.reads 0 then some (slotLine m m.head) else none) = some d := hd
      rw [hopen.head, hopen.line] at hread
      split at hread
      · exact (Option.some.inj hread).symm
      · exact absurd hread (Option.some_ne_none d).symm
    rw [hdesc] at husable
    rw [htake, hopen.head, hdesc]
    unfold Module.submit
    dsimp only
    split
    · refine .inl ⟨hopen'.congr rfl rfl rfl (heads_emit (e := .handed m.taken _) m' rfl), fun _ _ => ?_⟩
      obtain ⟨-, -, hM, hN, hout, -, hidx, -⟩ := tileMoved_cur_frame
        (Module.emit
          { m' with
            cur :=
              { idx
                desc
                M := get32 desc dM
                N := get32 desc dN
                out := get64 desc dOut
                index := (PtaTwin.read32 m'.tile 0x018).2
                n := m.taken }
            tile := (PtaTwin.read32 m'.tile 0x018).1 }
          (.handed m.taken (inTile (PtaTwin.read32 m'.tile 0x018).1)))
        (PtaTwin.submit k (PtaTwin.read32 m'.tile 0x018).1 (tileCmd desc m.taken A B)).2
      exact ⟨hidx, hM, hN, hout, husable⟩
    · exact hrecord (hopen'.congr rfl rfl rfl (heads_emit (e := .handed m.taken _) m' rfl)) rfl

theorem Waits.congr (h : Waits desc idx tr m) (hc : cfg m' = cfg m) (hmem : m'.host.mem = m.host.mem)
    (hhead : m'.head = m.head) (htr : heads m'.trace = heads m.trace) (hlive : m'.cur.live = m.cur.live)
    (horphan : m'.cur.orphan = m.cur.orphan) (hmine : Mine desc idx m.cur → Mine desc idx m'.cur) : Waits desc idx tr m' := by
  refine ⟨(congrArg Config.tail hc).trans h.tail, ?_, ?_⟩
  · rw [slotAddr_of_config hc]
    exact h.harmless
  · rw [hlive, horphan]
    rcases h.slot with ⟨hopen, hown⟩ | ⟨hended, ho⟩
    · exact .inl ⟨hopen.congr hc hmem hhead htr, fun hl ho => hmine (hown hl ho)⟩
    · exact .inr ⟨hended.congr hc hmem hhead htr, ho⟩

theorem Waits.tileMoved (h : Waits desc idx tr m) (r : Twin Dev Ptr × List (Ending Ptr)) :
    Waits desc idx tr (m.tileMoved r) := by
  obtain ⟨hlive, -, hM, hN, hout, -, hidx, horphan⟩ := tileMoved_cur_frame m r
  refine h.congr rfl rfl rfl rfl hlive horphan fun hown => ?_
  exact ⟨hidx.trans hown.idx, hM.trans hown.M, hN.trans hown.N, hout.trans hown.out, hown.usable⟩

theorem Waits.irqEdge (h : Waits desc idx tr m) : Waits desc idx tr (m.irqEdge board) := by
  have hs := irqEdge_stays m
  have hcur : (m.irqEdge board).cur = m.cur := by
    unfold Module.irqEdge
    dsimp only
    split
    · rfl
    · rfl
  exact h.congr hs.config hs.mem hs.head hs.heads (congrArg Inflight.live hcur) (congrArg Inflight.orphan hcur)
    fun hown => hcur ▸ hown

theorem Waits.serviceLoop (fuel : ℕ) :
    ∀ m : Module Dev Board, Waits desc idx tr m → Waits desc idx tr (PtaModule.serviceLoop board k fuel m) := by
  induction fuel with
  | zero => exact fun m h => h
  | succ fuel ih =>
    intro m h
    unfold PtaModule.serviceLoop
    split
    · dsimp only
      split
      · exact h.finish
      · exact ih _ h.finish
    · next hl =>
      split
      · exact h
      · next hmore =>
        -- a slot that has been ended is the last one
        have hopen : Open desc idx tr m := by
          rcases h.slot with ⟨hopen, -⟩ | ⟨hended, -⟩
          · exact hopen
          · exact absurd (.inr (.inr (hended.head.trans h.tail.symm))) hmore
        exact ih _ (h.take k hopen (Bool.eq_false_iff.mpr hl))

theorem Waits.service (h : Waits desc idx tr m) : Waits desc idx tr (m.service board k) :=
  Waits.irqEdge (Waits.serviceLoop k _ m h)

/-- Whatever happens meanwhile, the slot is left open until it is ended. -/
theorem Waits.aside (h : Waits desc idx tr m) (a : Aside) : Waits desc idx tr (m.act board k a.action) := by
  cases a with
  | read32 off =>
    unfold Aside.action Module.act Module.read32
    dsimp only
    split
    · exact h.congr rfl rfl rfl rfl rfl rfl id
    · exact h
  | write32 off v hoff =>
    rcases hoff with hlow | rfl
    · unfold Aside.action Module.act Module.write32
      dsimp only
      rw [if_pos hlow]
      exact (h.tileMoved _).irqEdge
    · exact h.congr rfl rfl rfl rfl rfl rfl id
  | run cycles => exact ((h.service k).tileMoved _).service k
  | tile op => exact h.tileMoved _

theorem Waits.asides (as : List Aside) :
    ∀ m : Module Dev Board, Waits desc idx tr m → Waits desc idx tr (m.acts board k (as.map Aside.action)) := by
  induction as with
  | nil => exact fun m h => h
  | cons a as ih => exact fun m h => ih _ (h.aside k a)

theorem Waits.pass (h : Waits desc idx tr m) : Waits desc idx tr (PtaChiplet.pass k m) :=
  Waits.asides k _ _ (h.congr rfl rfl rfl rfl rfl rfl id)

theorem ringSize_toNat {n : ℕ} (hn : n ≤ 10) : ((1 : U32) <<< n).toNat = 2 ^ n := by
  have hlt : 2 ^ n < 2 ^ 32 := Nat.pow_lt_pow_right (by decide) (by omega)
  rw [BitVec.toNat_shiftLeft, Nat.shiftLeft_eq]
  show 1 * 2 ^ n % 2 ^ 32 = 2 ^ n
  rw [one_mul, Nat.mod_eq_of_lt hlt]

/-- The doorbell, rung for a slot that has been published to a module with nothing to do. -/
theorem Waits.of_doorbell (horphan : m.cur.live = true → m.cur.orphan = true) (henable : m.enable = true)
    (hhead : m.head = idx) (htail : m.tail = idx) (hsize : m.sizeLog2.toNat ≤ 10) (hline : slotLine m idx = desc)
    (hharmless : Harmless desc (m.slotAddr idx)) :
    Waits desc idx (heads m.trace) (m.doorbell board k (idx + 1)) := by
  have hring : m.ringSize.toNat = 2 ^ m.sizeLog2.toNat := ringSize_toNat hsize
  have hpos : 0 < 2 ^ m.sizeLog2.toNat := Nat.two_pow_pos _
  have hone : idx + 1 - idx = 1 := by bv_omega
  have hbell : ¬(m.ringSize < idx + 1 - m.head ∨ 0x80000000 < idx + 1 - m.tail) := by
    rw [hhead, htail, hone]
    rintro (hbig | hbig)
    · rw [BitVec.lt_def, hring] at hbig
      have hval : (1 : U32).toNat = 1 := rfl
      omega
    · revert hbig
      decide
  have hon : ¬(!m.enable) = true := by
    rw [henable]
    decide
  unfold Module.doorbell
  rw [if_neg hon, if_neg hbell]
  refine Waits.service k ⟨rfl, hharmless, .inl ⟨⟨hhead, hline, rfl⟩, fun hl ho => ?_⟩⟩
  exact absurd ((horphan hl).symm.trans ho) (by decide)

end Grxcp.PtaChiplet
