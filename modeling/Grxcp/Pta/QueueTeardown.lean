import Grxcp.Pta.Between
import Grxcp.Pta.ModuleRuns

/-!
# Every teardown of the queue

A GEMM publishes one slot, waits for it (`Waiting`), and leaves the driver as it was between its calls. So in
every state in which the driver tears its queue down the law of a teardown applies (`queue_teardown`).
-/

namespace Grxcp.PtaChiplet

open PtaTwin (TileKernel Build)
open PtaModule hiding slotBytes lineBytes

variable {Dev P : Type} {k : TileKernel Dev} {m m' : Module Dev Board} {d : Driver (Module Dev Board) P}

/-! ## The layout of a call -/

theorem roundLine_toNat {n : U64} (h : n.toNat + 63 < 2 ^ 64) : (roundLine n).toNat = (n.toNat + 63) / 64 * 64 := by
  have hline : lineBytes.toNat = 64 := rfl
  have hone : (1 : U64).toNat = 1 := rfl
  have hsum : (n + lineBytes - 1).toNat = n.toNat + 63 := by
    rw [BitVec.toNat_sub, BitVec.toNat_add, hline, hone]
    omega
  rw [roundLine, BitVec.toNat_mul, BitVec.toNat_udiv, hsum, hline]
  exact Nat.mod_eq_of_lt (by omega)

/-- Where the parts of a staging buffer are. -/
structure Laid (c : Call P) : Prop where
  acts : (c.M * c.K).toNat ≤ c.layout.w.toNat
  weights : c.layout.w.toNat + (c.K * c.N).toNat ≤ c.layout.c.toNat
  results : c.layout.c.toNat + linesOf (c.M.toNat * c.N.toNat * 4) * 64 ≤ c.layout.bytes.toNat
  pos : 0 < c.layout.bytes.toNat

theorem Call.Real.laid {c : Call P} (hc : c.Real) (hpos : 0 < c.M ∧ 0 < c.N ∧ 0 < c.K) : Laid c := by
  obtain ⟨hM, hN, hK⟩ := hpos
  have harrays := hc.arrays hM hN hK
  have hna : (BitVec.ofInt 64 c.M * BitVec.ofInt 64 c.K).toNat = c.M.toNat * c.K.toNat :=
    size_toNat hM.le hK.le hc.M hc.K
  have hnb : (BitVec.ofInt 64 c.K * BitVec.ofInt 64 c.N).toNat = c.K.toNat * c.N.toNat :=
    size_toNat hK.le hN.le hc.K hc.N
  have hnc : (BitVec.ofInt 64 c.M * BitVec.ofInt 64 c.N).toNat = c.M.toNat * c.N.toNat :=
    size_toNat hM.le hN.le hc.M hc.N
  have hMK : (c.M * c.K).toNat = c.M.toNat * c.K.toNat := Int.toNat_mul hM.le hK.le
  have hKN : (c.K * c.N).toNat = c.K.toNat * c.N.toNat := Int.toNat_mul hK.le hN.le
  have hMN : (c.M * c.N).toNat = c.M.toNat * c.N.toNat := Int.toNat_mul hM.le hN.le
  have hpos : 0 < c.M.toNat * c.N.toNat := Nat.mul_pos (by omega) (by omega)
  have hcast : ∀ {x y : ℤ}, 0 < x → 0 < y → x * y = ((x.toNat * y.toNat : ℕ) : ℤ) := by
    intro x y hx hy
    rw [Nat.cast_mul, Int.toNat_of_nonneg hx.le, Int.toNat_of_nonneg hy.le]
  rw [hcast hM hK, hcast hK hN, hcast hM hN] at harrays
  have hacts : c.layout.w = roundLine (BitVec.ofInt 64 c.M * BitVec.ofInt 64 c.K) := rfl
  have hweights : c.layout.c = c.layout.w + roundLine (BitVec.ofInt 64 c.K * BitVec.ofInt 64 c.N) := rfl
  have hresults : c.layout.bytes = c.layout.c + roundLine (BitVec.ofInt 64 c.M * BitVec.ofInt 64 c.N * 4) := rfl
  have hfour : (BitVec.ofInt 64 c.M * BitVec.ofInt 64 c.N * 4).toNat = c.M.toNat * c.N.toNat * 4 := by
    have hval : (4 : U64).toNat = 4 := rfl
    rw [BitVec.toNat_mul, hnc, hval]
    exact Nat.mod_eq_of_lt (by omega)
  have hw : c.layout.w.toNat = (c.M.toNat * c.K.toNat + 63) / 64 * 64 := by
    rw [hacts, roundLine_toNat (by omega), hna]
  have hc' : c.layout.c.toNat = c.layout.w.toNat + (c.K.toNat * c.N.toNat + 63) / 64 * 64 := by
    rw [hweights, BitVec.toNat_add, roundLine_toNat (by omega), hnb]
    exact Nat.mod_eq_of_lt (by omega)
  have hbytes : c.layout.bytes.toNat = c.layout.c.toNat + (c.M.toNat * c.N.toNat * 4 + 63) / 64 * 64 := by
    rw [hresults, BitVec.toNat_add, roundLine_toNat (by omega), hfour]
    exact Nat.mod_eq_of_lt (by omega)
  have hlines : linesOf (c.M.toNat * c.N.toNat * 4) = (c.M.toNat * c.N.toNat * 4 + 63) / 64 := rfl
  constructor
  · omega
  · omega
  · rw [hlines]
    omega
  · omega

/-! ## The descriptor -/

theorem get64_put64_self (line : Line) {p : ℕ} (hp : p + 7 < 64) (v : U64) : get64 (put64 line p v) p = v := by
  unfold get64 put64
  rw [get32_put32_of_disjoint _ (by omega) (by omega), get32_put32_self _ (by omega), get32_put32_self _ (by omega),
    BitVec.or_comm]
  exact halves v

theorem descriptor_status (c : Call P) (stage : U64) (l : Layout) : get32 (descriptor c stage l) dStatus = 0 := by
  have hzero : get32 zeroLine dStatus = 0 := by decide
  unfold descriptor put64 dSizeVersion dTarget dFormat dM dK dN dAct dWgt dOut
  unfold dStatus at hzero ⊢
  simp (disch := omega) only [get32_put32_of_disjoint]
  exact hzero

theorem descriptor_sizes (c : Call P) (stage : U64) (l : Layout) :
    get32 (descriptor c stage l) dM = BitVec.ofInt 32 c.M ∧ get32 (descriptor c stage l) dN = BitVec.ofInt 32 c.N := by
  unfold descriptor put64 dSizeVersion dTarget dFormat dM dK dN dAct dWgt dOut
  simp (disch := omega) only [get32_put32_of_disjoint, get32_put32_self, and_self]

theorem descriptor_out (c : Call P) (stage : U64) (l : Layout) : get64 (descriptor c stage l) dOut = stage + l.c :=
  get64_put64_self _ (by decide) _

/-- The results are staged apart from the ring. -/
theorem descriptor_harmless {c : Call P} (hc : c.Real) (hpos : 0 < c.M ∧ 0 < c.N ∧ 0 < c.K) {stage ring : Dma} {a : U64}
    (hfits : stage.Fits) (hringFits : ring.Fits) (hroom : c.layout.bytes ≤ stage.bytes) (hapart : stage.Apart ring)
    {offset : U64} (ha : a = ring.addr + offset) (hoffset : offset.toNat + 64 ≤ ring.bytes.toNat) :
    Harmless (descriptor c stage.addr c.layout) a := by
  intro _ i hi p hp
  have hlaid := hc.laid hpos
  obtain ⟨hM, hN⟩ := descriptor_sizes c stage.addr c.layout
  have hrows : (BitVec.ofInt 32 c.M).toNat = c.M.toNat := ofInt_toNat hpos.1.le hc.M
  have hcols : (BitVec.ofInt 32 c.N).toNat = c.N.toNat := ofInt_toNat hpos.2.1.le hc.N
  rw [hM, hN, hrows, hcols] at hi
  rw [descriptor_out]
  have hresults := hlaid.results
  have hbytes := BitVec.le_def.mp hroom
  obtain ⟨-, hstage⟩ := hfits
  obtain ⟨-, hring⟩ := hringFits
  obtain ⟨-, hapart⟩ := hapart
  have hend : i * 64 + 64 ≤ linesOf (c.M.toNat * c.N.toNat * 4) * 64 := by omega
  have hstart : (lineAddr (stage.addr + c.layout.c) i).toNat = stage.addr.toNat + c.layout.c.toNat + i * 64 := by
    have hline : (BitVec.ofNat 64 PtaModule.lineBytes).toNat = 64 := rfl
    have hi' : (BitVec.ofNat 64 i).toNat = i := by
      rw [BitVec.toNat_ofNat]
      omega
    rw [lineAddr, BitVec.toNat_add, BitVec.toNat_add, BitVec.toNat_mul, hline, hi']
    omega
  have hslot : a.toNat = ring.addr.toNat + offset.toNat := by
    rw [ha, BitVec.toNat_add]
    omega
  have hp' := p.isLt
  rw [BitVec.toNat_sub] at hp ⊢
  rw [hstart]
  omega

/-! ## A slot is out -/

variable (k) in
/-- The driver has one slot out, and the module has it or has ended it. -/
structure Waiting (d : Driver (Module Dev Board) P) : Prop where
  hooked : Hooked k d.dev
  queue : d.dev.queue = true
  alive : d.dev.queueDead = false
  ring : Ring d.dev (cfg d.env)
  enable : d.env.enable = true
  next : d.dev.next = d.dev.ended + 1
  waits : ∃ desc tr, get32 desc dStatus = 0 ∧ Waits desc d.dev.ended tr d.env

theorem Waiting.tearable (h : Waiting k d) : Tearable k d :=
  ⟨h.hooked, h.queue, h.alive, h.ring, h.enable, .inr ⟨h.next, h.waits⟩⟩

theorem World.tearable (h : World k d) (hq : d.dev.queue = true) : Tearable k d :=
  ⟨h.hooked, hq, h.alive, h.ring hq, (h.empty hq).2.enable, .inl (h.empty hq)⟩

theorem doorbell_config {v : U32} (henable : m.enable = true) :
    ∃ tail, cfg (m.doorbell board k v) = { cfg m with tail := tail } := by
  unfold Module.doorbell
  rw [if_neg (by rw [henable]; decide)]
  split
  · exact ⟨m.tail, rfl⟩
  · exact ⟨v, service_config k board_keeps _⟩

/-- A GEMM that is published is a slot that is out. -/
theorem World.publish (h : World k d) (hq : d.dev.queue = true) {c : Call P} (hc : c.Real)
    (hpos : 0 < c.M ∧ 0 < c.N ∧ 0 < c.K) {A B : List ℤ} (hA : (A.length : ℤ) ≤ c.M * c.K)
    (hB : (B.length : ℤ) ≤ c.K * c.N) (hroom : c.layout.bytes ≤ d.dev.stage.bytes) :
    Waiting k (d.publish (boardHost k) c A B c.layout) := by
  have hring := h.ring hq
  obtain ⟨hnone, hempty⟩ := h.empty hq
  have hlaid := hc.laid hpos
  have hbytes := BitVec.le_def.mp hroom
  have hmem : d.dev.ring ∈ d.env.host.held := hring.mem
  obtain ⟨hstage, hapart⟩ : d.dev.stage ∈ d.env.host.held ∧ d.dev.stage.Apart d.dev.ring := by
    rcases hring.stage with hzero | hstage
    · have hsome := hlaid.pos
      rw [hzero] at hbytes
      have hval : (0 : U64).toNat = 0 := rfl
      omega
    · exact hstage
  -- the operands and the descriptor are stored
  have hfirst := storeBytes_lands (P := P) k (A.map (BitVec.ofInt 8)) 0 d.env hempty.calm hring.held hstage (by
    have hval : (0 : U64).toNat = 0 := rfl
    have hacts := hlaid.acts
    have hweights := hlaid.weights
    have hresults := hlaid.results
    rw [List.length_map]
    omega)
  have hzero : ∀ a : U64, a + 0 = a := fun a => BitVec.add_zero a
  rw [hzero, hzero] at hfirst
  generalize he₁ : storeBytes (P := P) (boardHost k) (A.map (BitVec.ofInt 8)) d.dev.stage.cpu d.env = e₁ at hfirst
  have hheld₁ : e₁.host.held = d.env.host.held := congrArg Config.host hfirst.config
  have hsecond := storeBytes_lands (P := P) k (B.map (BitVec.ofInt 8)) c.layout.w e₁ (hfirst.calm hempty.calm)
    (hheld₁ ▸ hring.held) (hheld₁ ▸ hstage) (by
      have hweights := hlaid.weights
      have hresults := hlaid.results
      rw [List.length_map]
      omega)
  generalize he₂ : storeBytes (P := P) (boardHost k) (B.map (BitVec.ofInt 8)) (d.dev.stage.cpu + c.layout.w) e₁ = e₂
    at hsecond
  have hboth := Lands.trans hfirst hsecond
  have hheld₂ : e₂.host.held = d.env.host.held := congrArg Config.host hboth.config
  have hslot := slotOffset_lt hring.log2 d.dev.next
  have hspace := hring.room
  have hthird := storeBytes_lands (P := P) k (descriptor c d.dev.stage.addr c.layout).toList
    (slotOffset d.dev.ringLog2 d.dev.next) e₂ (hboth.calm hempty.calm) (hheld₂ ▸ hring.held) (hheld₂ ▸ hmem) (by
      rw [Vector.length_toList]
      omega)
  generalize he₃ : storeBytes (P := P) (boardHost k) (descriptor c d.dev.stage.addr c.layout).toList
    (d.dev.ring.cpu + slotOffset d.dev.ringLog2 d.dev.next) e₂ = e₃ at hthird
  have hall := Lands.trans hboth hthird
  have hcalm : Calm e₃ := hall.calm hempty.calm
  have hpass : Stays e₃ (PtaChiplet.pass k e₃) := pass_stays k hcalm
  have hready : Empty d.dev.next (PtaChiplet.pass k e₃) := (hempty.lands hall).lands hpass
  have hring' : Ring d.dev (cfg (PtaChiplet.pass k e₃)) := (hring.lands hall).lands hpass
  -- the doorbell
  have hend : d.publish (boardHost k) c A B c.layout =
      { d with
        dev := { d.dev with next := d.dev.next + 1 }
        env := (PtaChiplet.pass k e₃).doorbell board k (d.dev.next + 1) } := by
    unfold Driver.publish
    dsimp only
    rw [slotOf_eq, he₁, he₂, he₃, wr_hooked (k := k) (d := { d with
      dev := { d.dev with next := d.dev.next + 1 }, env := e₃ }) (h.hooked.report _ _ _ _ _ _)]
    rfl
  rw [hend]
  have hstored : (PtaChiplet.pass k e₃).host.mem = putBytes (descriptor c d.dev.stage.addr c.layout).toList
      (d.dev.ring.addr + slotOffset d.dev.ringLog2 d.dev.next) e₂.host.mem := hpass.mem.trans hall.mem
  have hline : slotLine (PtaChiplet.pass k e₃) d.dev.next = descriptor c d.dev.stage.addr c.layout := by
    rw [slotLine, hring'.slotAddr_eq, hstored, lineAt_putBytes]
  have hsize : (PtaChiplet.pass k e₃).sizeLog2.toNat ≤ 10 := by
    have hsame : (PtaChiplet.pass k e₃).sizeLog2 = d.dev.ringLog2 := hring'.size
    rw [hsame]
    exact hring.log2
  have hharmless : Harmless (descriptor c d.dev.stage.addr c.layout) ((PtaChiplet.pass k e₃).slotAddr d.dev.next) :=
    descriptor_harmless hc hpos (hring.held.fits _ hstage) (hring.held.fits _ hring.mem) hroom hapart
      (hring'.slotAddr_eq d.dev.next) (by omega)
  have hwaits := Waits.of_doorbell k hready.orphan hready.enable hready.head hready.tail hsize hline hharmless
  have hout : Waits (descriptor c d.dev.stage.addr c.layout) d.dev.ended (heads (PtaChiplet.pass k e₃).trace)
      ((PtaChiplet.pass k e₃).doorbell board k (d.dev.next + 1)) := by
    rw [← hnone]
    exact hwaits
  obtain ⟨tail, hconfig⟩ := doorbell_config (k := k) (v := d.dev.next + 1) hready.enable
  refine ⟨h.hooked.report _ _ _ _ _ _, hq, h.alive, ?_, ?_, congrArg (· + 1) hnone, _, _, descriptor_status _ _ _,
    hout⟩
  · rw [hconfig]
    have hbell : Ring d.dev { cfg (PtaChiplet.pass k e₃) with tail := tail } := hring'.congr rfl rfl rfl rfl
    exact hbell.report _ _ _ _ _ _
  · exact (congrArg Config.enable hconfig).trans hready.enable

/-- The slot that is out is where the driver looks for its record. -/
theorem publish_slot (host : Host (Module Dev Board) P) (d : Driver (Module Dev Board) P) (c : Call P) (A B : List ℤ)
    (l : Layout) : (d.publish host c A B l).dev.slotOf (d.publish host c A B l).dev.ended =
      d.dev.slotOf d.dev.ended := by
  rw [publish_dev]
  rfl

theorem Waiting.moved (h : Waiting k d) (hconfig : cfg m = cfg d.env)
    (hw : ∀ desc tr, Waits desc d.dev.ended tr d.env → Waits desc d.dev.ended tr m) : Waiting k { d with env := m } := by
  obtain ⟨desc, tr, hpending, hwaits⟩ := h.waits
  refine ⟨h.hooked, h.queue, h.alive, ?_, (congrArg Config.enable hconfig).trans h.enable, h.next, desc, tr, hpending,
    hw desc tr hwaits⟩
  rw [hconfig]
  exact h.ring

theorem Waiting.pass (h : Waiting k d) : Waiting k { d with env := PtaChiplet.pass k d.env } :=
  h.moved (pass_config k d.env) fun _ _ hw => hw.pass k

theorem rd_dev (h : Hooked k d.dev) (off : U32) : (d.rd off).1.dev = d.dev := by rw [rd_hooked h]

theorem Waiting.rd (h : Waiting k d) (off : U32) : Waiting k (d.rd off).1 := by
  rw [rd_hooked h.hooked]
  exact h.pass.moved (aside_config k _ (.read32 off)) fun _ _ hw => hw.aside k (.read32 off)

/-- A record that is read is the module's. -/
theorem Waiting.recorded (h : Waiting k d) (hst : (d.slotStatus (boardHost k) d.dev.ended).2 ≠ 0) :
    Empty d.dev.next (PtaChiplet.pass k d.env) := by
  have hpass := h.pass
  have hline := word_line { d with env := PtaChiplet.pass k d.env } d.dev.ended
  rw [Ring.line_eq hpass.ring] at hline
  have hword : get32 (slotLine (PtaChiplet.pass k d.env) d.dev.ended) dStatus ≠ 0 := fun hzero => hst (hline.trans hzero)
  obtain ⟨desc, tr, hpending, hwaits⟩ := hpass.waits
  have hnext : d.dev.next = d.dev.ended + 1 := h.next
  rcases hwaits.slot with ⟨hopen, -⟩ | ⟨hended, horphan⟩
  · rw [hopen.line] at hword
    exact absurd hpending hword
  · exact ⟨hpass.enable, hended.head.trans hnext.symm, hwaits.tail.trans hnext.symm, horphan⟩

/-- Looking for a record leaves the slot out, or finds it ended. -/
theorem Waiting.pollSlot (polls : ℕ) : ∀ d : Driver (Module Dev Board) P, Waiting k d →
    ∀ d' st, d.pollSlot (boardHost k) (d.dev.slotOf d.dev.ended) polls = (d', st) →
      Waiting k d' ∧ d'.dev = d.dev ∧ (st ≠ 0 → Empty d.dev.next d'.env) := by
  induction polls with
  | zero =>
    intro d h d' st hpoll
    cases hpoll
    exact ⟨h, rfl, fun hne => absurd rfl hne⟩
  | succ polls ih =>
    intro d h d' st hpoll
    have hrecorded := h.recorded
    unfold Driver.pollSlot at hpoll
    dsimp only at hpoll
    split at hpoll
    · next hst =>
      cases hpoll
      exact ⟨h.pass, rfl, fun _ => hrecorded hst⟩
    have hread : Waiting k ((d.ld32 (boardHost k) (d.dev.slotOf d.dev.ended + BitVec.ofNat 64 dStatus)).1.rd ptqStatus).1 :=
      h.pass.rd ptqStatus
    have hdev : ((d.ld32 (boardHost k) (d.dev.slotOf d.dev.ended + BitVec.ofNat 64 dStatus)).1.rd ptqStatus).1.dev =
        d.dev := rd_dev h.pass.hooked ptqStatus
    split at hpoll
    · cases hpoll
      exact ⟨hread, hdev, fun hne => absurd rfl hne⟩
    · have hrest := ih _ hread d' st
      rw [hdev] at hrest
      exact hrest hpoll

/-! ## A GEMM leaves the driver between its calls -/

/-- A slot that has ended is no longer out. -/
theorem World.of_empty (hhooked : Hooked k d.dev) (halive : d.dev.queueDead = false) (hring : Ring d.dev (cfg d.env))
    (hempty : Empty d.dev.next d.env) : World k { d with dev := { d.dev with ended := d.dev.next } } :=
  ⟨hhooked.report _ _ _ _ _ _, halive, ⟨hring.held, fun _ => hempty.orphan⟩, fun _ => hring.report _ _ _ _ _ _,
    fun _ => ⟨rfl, hempty⟩⟩

theorem World.conclude (h : World k d) (C : P) (nc : U64) (l : Layout) (slot : U64) (st : U32) :
    World k (d.conclude (boardHost k) C nc l slot st).1 := by
  unfold Driver.conclude
  split
  · have hwords : World k (d.ldWords (boardHost k) nc.toNat (d.dev.stage.cpu + l.c)).1 := World.ldWords _ _ _ h
    exact (hwords.ld32 _).report _ _ _ _
  split
  · exact (((h.rd ptaImpair).rd ptaCaps1).report _ _ _ _).fail _
  split
  · exact h.fail _
  · exact h.fail _

theorem Waiting.await (h : Waiting k d) (C : P) (nc : U64) (l : Layout) :
    World k (d.await (boardHost k) C nc l (d.dev.slotOf d.dev.ended)).1 := by
  unfold Driver.await
  rcases hpoll : d.pollSlot (boardHost k) (d.dev.slotOf d.dev.ended) kQueuePolls with ⟨d₁, st⟩
  obtain ⟨hout, hdev, hended⟩ := Waiting.pollSlot kQueuePolls d h d₁ st hpoll
  rw [← hdev] at hended
  dsimp only
  split
  · next hst =>
    exact (World.of_empty hout.hooked hout.alive hout.ring (hended hst)).conclude C nc l _ st
  · obtain ⟨d₂, hdown, htorn, hring, hempty⟩ := hout.tearable.teardown
    rw [hdown]
    have hworld : World k { d₂ with dev := { d₂.dev with ended := d₂.dev.next } } := by
      apply World.of_empty
      · exact htorn.dev ▸ hout.hooked
      · rw [htorn.dev]
        exact hout.alive
      · exact htorn.dev ▸ hring
      · exact htorn.dev ▸ hempty
    exact (hworld.ld32 (d.dev.slotOf d.dev.ended + BitVec.ofNat 64 dStatus)).conclude C nc l _ _

theorem World.queueGemm (h : World k d) (hq : d.dev.queue = true) {c : Call P} (hc : c.Real) :
    World k (d.queueGemm (boardHost k) c).1 := by
  unfold Driver.queueGemm
  split
  · exact h.fail _
  split
  · exact h.fail _
  next hsizes =>
  split
  · next A B C _ _ _ =>
    dsimp only
    split
    · exact h.fail _
    split
    · exact h.fail _
    have hpos : 0 < c.M ∧ 0 < c.N ∧ 0 < c.K := by omega
    rcases hstage : d.stageFor (layout (BitVec.ofInt 64 c.M * BitVec.ofInt 64 c.K)
      (BitVec.ofInt 64 c.K * BitVec.ofInt 64 c.N) (BitVec.ofInt 64 c.M * BitVec.ofInt 64 c.N)).bytes with ⟨d₁, ok⟩
    obtain ⟨hworld, ⟨stage, hdev⟩, hroom⟩ := h.stageFor hq hstage
    cases ok with
    | false => exact hworld.fail _
    | true =>
      dsimp only
      have hq₁ : d₁.dev.queue = true := by
        rw [hdev]
        exact hq
      have htake : ∀ {x y : ℤ} (l : List ℤ), 0 < x → 0 < y → x < 2 ^ 31 → y < 2 ^ 31 →
          ((l.take (BitVec.ofInt 64 x * BitVec.ofInt 64 y).toNat).length : ℤ) ≤ x * y := by
        intro x y l hx hy hx' hy'
        have hle := List.length_take_le (BitVec.ofInt 64 x * BitVec.ofInt 64 y).toNat l
        rw [size_toNat hx.le hy.le hx' hy'] at hle ⊢
        have hsize : ((x.toNat * y.toNat : ℕ) : ℤ) = x * y := by
          rw [Nat.cast_mul, Int.toNat_of_nonneg hx.le, Int.toNat_of_nonneg hy.le]
        rw [← hsize]
        exact_mod_cast hle
      have hout := hworld.publish hq₁ hc hpos (htake A hpos.1 hpos.2.2 hc.M hc.K) (htake B hpos.2.2 hpos.2.1 hc.K hc.N)
        (hroom rfl)
      have hawait := hout.await C (BitVec.ofInt 64 c.M * BitVec.ofInt 64 c.N) c.layout
      rw [publish_slot, ← (hworld.empty hq₁).1] at hawait
      exact hawait
  · exact h.fail _

/-- Waiting for the chiplet to be idle. -/
theorem World.waitIdle (polls : ℕ) : ∀ d : Driver (Module Dev Board) P, World k d → World k (d.waitIdle polls).1 := by
  induction polls with
  | zero => exact fun d h => h
  | succ polls ih =>
    intro d h
    have hidle : World k d.idle.1 := h.rd ptaStatus
    unfold Driver.waitIdle
    rcases hi : d.idle with ⟨d', ok⟩
    rw [hi] at hidle
    cases ok with
    | true => exact hidle
    | false => exact ih d' hidle

theorem World.linkEnded (h : World k d) (status : PtaTwin.CmdStatus) : World k (d.linkEnded status).1 := by
  unfold Driver.linkEnded
  cases status with
  | done => exact h.report _ _ _ _
  | refused => exact (((h.rd ptaImpair).rd ptaCaps1).report _ _ _ _).fail _
  | pending => exact h.fail _
  | lost => exact h.fail _

theorem World.linkWait (h : World k d) (status : P) : World k (d.linkWait (boardHost k) status).1 := by
  have hidle := World.waitIdle kMaxPolls d h
  unfold Driver.linkWait
  rcases hi : d.waitIdle kMaxPolls with ⟨d', ok⟩
  rw [hi] at hidle
  cases ok with
  | false => exact hidle.fail _
  | true => exact hidle.linkEnded _

theorem World.linkGemm (h : World k d) (addresses : PtaTwin.Cmd P → PtaTwin.Cmd ℕ) (status : P) (c : Call P) :
    World k (d.linkGemm (boardHost k) (boardSubmit k addresses) status c).1 := by
  have hidle := World.waitIdle kMaxPolls d h
  unfold Driver.linkGemm
  rcases hi : d.waitIdle kMaxPolls with ⟨d', ok⟩
  rw [hi] at hidle
  cases ok with
  | false => exact hidle.fail _
  | true =>
    dsimp only at hidle ⊢
    have hset : (boardHost k).setStatus d'.env status .pending = d'.env := rfl
    have hsent : World k { d' with env := (boardSubmit k addresses d'.env (c.cmd status)).1 } :=
      hidle.pass.aside (.tile (.submit (addresses (c.cmd status))))
    rw [hset]
    rcases hsub : boardSubmit k addresses d'.env (c.cmd status) with ⟨env, taken⟩
    rw [hsub] at hsent
    cases taken with
    | false => exact hsent.fail _
    | true => exact hsent.linkWait status

theorem World.gemm (h : World k d) (status : P) {c : Call P} (hc : c.Real) : World k (d.gemm (boardHost k) status c).1 := by
  unfold Driver.gemm
  extract_lets _ fresh
  have hfresh : World k fresh := h.report _ _ _ _
  clear_value fresh
  split
  · exact hfresh.fail _
  split
  · exact hfresh.fail _
  split
  · next hq => exact hfresh.queueGemm hq hc
  split
  · exact hfresh.fail _
  · next submit hsubmit =>
    obtain ⟨addresses, hlink⟩ := hfresh.hooked.submit
    cases addresses with
    | none => exact absurd (hlink.symm.trans hsubmit) (Option.some_ne_none _).symm
    | some addresses =>
      obtain rfl : boardSubmit k addresses = submit := Option.some.inj (hlink.symm.trans hsubmit)
      exact hfresh.linkGemm addresses status c

theorem World.teardown (h : World k d) : World k (d.teardown (boardHost k)).1 := by
  by_cases hq : d.dev.queue = true
  · obtain ⟨d', hdown, htorn, hring, hempty⟩ := (h.tearable hq).teardown
    rw [hdown]
    have hnone := (h.empty hq).1
    refine ⟨?_, ?_, ⟨hring.held, fun _ => hempty.orphan⟩, fun _ => ?_, fun _ => ⟨?_, ?_⟩⟩
    · exact htorn.dev ▸ h.hooked
    · rw [htorn.dev]
      exact h.alive
    · exact htorn.dev ▸ hring
    · rw [htorn.dev]
      exact hnone
    · exact htorn.dev ▸ hempty
  · have hno : (!d.dev.queue || d.dev.queueDead) = true := by
      rw [Bool.eq_false_iff.mpr hq]
      rfl
    unfold Driver.teardown
    rw [if_pos hno]
    exact h

/-- What holds between the driver's calls holds there in every run. -/
theorem Reached.world (h : Reached k d) : World k d := by
  induction h with
  | start b dev heap s hs =>
    refine ⟨⟨rfl, rfl, ⟨none, rfl⟩, .inl rfl, .inl rfl⟩, rfl, ⟨?_, fun _ hl => absurd hl Bool.false_ne_true⟩,
      fun hq => absurd hq Bool.false_ne_true, fun hq => absurd hq Bool.false_ne_true⟩
    show Holding s.held
    rw [hs]
    exact ⟨fun buf hbuf => absurd hbuf List.not_mem_nil, List.Pairwise.nil⟩
  | module _ hq a ih => exact ih.off hq (ih.sound.act a)
  | aside _ a ih => exact ih.aside a
  | window _ ih =>
    exact ⟨⟨rfl, rfl, ⟨none, rfl⟩, .inl rfl, .inl rfl⟩, rfl, ih.sound, fun hq => absurd hq Bool.false_ne_true,
      fun hq => absurd hq Bool.false_ne_true⟩
  | link _ addresses ih =>
    have hhooked := ih.hooked
    exact ⟨⟨hhooked.read32, hhooked.write32, ⟨addresses, rfl⟩, hhooked.alloc, hhooked.free⟩, ih.alive, ih.sound,
      fun hq => (ih.ring hq).relink _, ih.empty⟩
  | detect _ ih => exact ih.detect
  | attach _ alloc free ringLog2 hlog ih => exact ih.attachQueue alloc free hlog
  | detach _ ih => exact ih.detachQueue.1
  | teardown _ ih => exact ih.teardown
  | gemm _ status c hc ih => exact ih.gemm status hc

/-- Every state in which the queue is torn down is one in which it may be. -/
theorem Entered.tearable (h : Entered k d) (hq : d.dev.queue = true) : Tearable k d := by
  cases h with
  | call hd => exact hd.world.tearable hq
  | gemm hd hq₀ hdead c hc hpos A B hA hB hstage polls hpoll =>
    have hfresh : World k (Driver.fresh _) := hd.world.report _ _ _ _
    obtain ⟨hworld, ⟨stage, hdev⟩, hroom⟩ := hfresh.stageFor hq₀ hstage
    have hq₁ : Device.queue _ = true := (congrArg Device.queue hdev).trans hq₀
    have hout := hworld.publish hq₁ hc hpos hA hB (hroom rfl)
    rw [(hworld.empty hq₁).1] at hpoll
    rw [← publish_slot (boardHost k) _ c A B c.layout] at hpoll
    exact (Waiting.pollSlot polls _ hout d 0 hpoll).1.tearable

/-! ## The claim of the queue -/

/-- Whatever the module has done of the driver's slots, and wherever its indices are, a teardown that succeeds
leaves none of them pending, ends each once, keeps the records that are there, and starts the ring empty. -/
theorem queue_teardown (d d' : Driver (Module Dev Board) P) (hd : Entered k d)
    (hdown : d.teardown (boardHost k) = (d', true)) : TornDown d d' := by
  have hlive : ¬(!d.dev.queue || d.dev.queueDead) = true := by
    intro hno
    unfold Driver.teardown at hdown
    rw [if_pos hno] at hdown
    cases hdown
  have hq : d.dev.queue = true := by
    cases hqueue : d.dev.queue with
    | true => rfl
    | false =>
      rw [hqueue] at hlive
      exact absurd rfl hlive
  obtain ⟨d'', hdown', htorn, -, -⟩ := (hd.tearable hq).teardown
  rw [hdown] at hdown'
  cases hdown'
  exact htorn

/-- A board that grants a ring of one slot and then a page, and does nothing by itself. -/
def quietBoard : Board where
  mem _ := 0
  held := []
  grants n := (true, ⟨0x1000 * (BitVec.ofNat 64 n + 1), 0x1000 * (BitVec.ofNat 64 n + 1), if n = 0 then 128 else 0x1000⟩)
  reads _ := true
  writes _ := true
  mallocs _ := true
  meanwhile _ := []
  ends _ := .done

/-- A driver that has attached a queue of one slot. -/
def quietDriver : Driver (Module Unit Board) Unit :=
  (Driver.attachQueue (boardHost zeroKernel)
    ⟨{ read32 := some (boardRead zeroKernel), write32 := some (boardWrite zeroKernel) },
      Module.new ⟨4, 4, 8, 32, 1, 0⟩ () (fun _ => true) quietBoard⟩ (some boardAlloc) (some boardFree) 0).1

/-- It has published a GEMM of one element, which the tile is running. -/
def quietRun : Driver (Module Unit Board) Unit :=
  (quietDriver.fresh.stageFor (dotCall 1).layout.bytes).1.publish (boardHost zeroKernel) (dotCall 1) [1] [1]
    (dotCall 1).layout

/-- Its slot is pending, and the teardown ends it. -/
theorem queue_teardown_quiet :
    quietRun.dev.next - quietRun.dev.ended = 1 ∧ get32 (quietRun.line 0) dStatus = 0 ∧
      TornDown quietRun (quietRun.teardown (boardHost zeroKernel)).1 := by
  have hreached : Reached zeroKernel quietDriver := .attach (.start _ _ _ quietBoard rfl) true true 0 (by decide)
  have hreal : (dotCall 1).Real := ⟨by decide, by decide, by decide, fun _ _ _ => by norm_num [dotCall]⟩
  have hstaged : (quietDriver.fresh.stageFor (dotCall 1).layout.bytes).2 = true := by decide +kernel
  have hdown : (quietRun.teardown (boardHost zeroKernel)).2 = true := by decide +kernel
  refine ⟨by decide +kernel, by decide +kernel, queue_teardown _ _ ?_ (Prod.mk.eta.symm.trans (congrArg _ hdown))⟩
  exact .gemm hreached (by decide +kernel) (by decide +kernel) (dotCall 1) hreal (by decide) [1] [1] (by decide)
    (by decide) (Prod.mk.eta.symm.trans (congrArg _ hstaged)) 0 rfl

end Grxcp.PtaChiplet
