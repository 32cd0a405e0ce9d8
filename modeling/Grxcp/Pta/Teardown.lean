import Grxcp.Pta.BoardMoves

/-!
# Tearing the queue down

Between its calls the driver has no slot pending, and in a GEMM it has one (`Between`, `Waiting`). From either
state a teardown ends what is pending, leaves what the module has ended, and starts the queue again empty.
-/

namespace Grxcp.PtaChiplet

open PtaTwin (TileKernel)
open PtaModule

variable {Dev P : Type} (k : TileKernel Dev)

/-! ## The ring in memory -/

/-- The memory that is held. -/
structure Holding (held : List Dma) : Prop where
  fits : ∀ buf ∈ held, buf.Fits
  apart : held.Pairwise Dma.Apart

theorem Dma.Apart.symm {a b : Dma} (h : a.Apart b) : b.Apart a :=
  ⟨h.1.symm, h.2.symm⟩

/-- Two pieces of held memory are the same or share nothing. -/
theorem Holding.eq_or_apart {held : List Dma} (h : Holding held) {a b : Dma} (ha : a ∈ held) (hb : b ∈ held) :
    a = b ∨ a.Apart b := by
  have : Std.Symm Dma.Apart := ⟨fun _ _ => Dma.Apart.symm⟩
  exact or_iff_not_imp_left.mpr (h.apart.forall ha hb)

theorem Holding.sublist {held held' : List Dma} (h : Holding held) (hs : held'.Sublist held) : Holding held' :=
  ⟨fun buf hbuf => h.fits buf (hs.subset hbuf), h.apart.sublist hs⟩

/-- Where an address is that is less than so far behind another. -/
theorem offset_lt {p c n : U64} (hfits : c.toNat + n.toNat ≤ 2 ^ 64) (h : p - c < n) :
    c.toNat ≤ p.toNat ∧ p.toNat < c.toNat + n.toNat := by
  rw [BitVec.lt_def, BitVec.toNat_sub] at h
  have hp := p.isLt
  have hc := c.isLt
  omega

theorem add_toNat {c n x : U64} (hfits : c.toNat + n.toNat ≤ 2 ^ 64) (hx : x < n) :
    (c + x).toNat = c.toNat + x.toNat := by
  rw [BitVec.lt_def] at hx
  rw [BitVec.toNat_add, Nat.mod_eq_of_lt]
  omega

/-- A byte of held memory is where the module has it. -/
theorem dma_of_held {s : Board} (h : Holding s.held) {buf : Dma} (hbuf : buf ∈ s.held) {x : U64} (hx : x < buf.bytes) :
    s.dma (buf.cpu + x) = some (buf.addr + x) := by
  have hback : ∀ c : U64, c + x - c = x := fun c => by bv_omega
  have hin : decide (buf.cpu + x - buf.cpu < buf.bytes) = true := by
    rw [decide_eq_true_eq, hback]
    exact hx
  have hfound : (s.held.find? fun other => decide (buf.cpu + x - other.cpu < other.bytes)).isSome :=
    List.find?_isSome.mpr ⟨buf, hbuf, hin⟩
  obtain ⟨other, hother⟩ := Option.isSome_iff_exists.mp hfound
  have hmem : other ∈ s.held := List.mem_of_find?_eq_some hother
  have hlt : buf.cpu + x - other.cpu < other.bytes := by
    have hsome := List.find?_some hother
    rw [decide_eq_true_eq] at hsome
    exact hsome
  rw [Board.dma, hother, Option.map_some]
  rcases h.eq_or_apart hbuf hmem with rfl | ⟨hcpu, -⟩
  · rw [hback]
  · -- no other memory has the byte
    obtain ⟨hlow, hhigh⟩ := offset_lt (h.fits other hmem).1 hlt
    rw [add_toNat (h.fits buf hbuf).1 hx] at hlow hhigh
    rw [BitVec.lt_def] at hx
    omega

theorem byte_of_held {s : Board} (h : Holding s.held) {buf : Dma} (hbuf : buf ∈ s.held) {x : U64} (hx : x < buf.bytes) :
    s.byte (buf.cpu + x) = s.mem (buf.addr + x) := by
  rw [Board.byte, dma_of_held h hbuf hx]
  rfl

theorem store_of_held {s : Board} (h : Holding s.held) {buf : Dma} (hbuf : buf ∈ s.held) {x : U64} (hx : x < buf.bytes)
    (b : BitVec 8) : s.store (buf.cpu + x) b = { s with mem := Function.update s.mem (buf.addr + x) b } := by
  rw [Board.store, dma_of_held h hbuf hx]

/-! ## The driver and its ring -/

/-- The driver's hooks are the board's. -/
structure Hooked (dev : Device (Module Dev Board) P) : Prop where
  read32 : dev.read32 = some (boardRead k)
  write32 : dev.write32 = some (boardWrite k)
  submit : ∃ addresses : Option (PtaTwin.Cmd P → PtaTwin.Cmd ℕ), dev.submit = addresses.map (boardSubmit k)
  alloc : dev.dmaAlloc = none ∨ dev.dmaAlloc = some boardAlloc
  free : dev.dmaFree = none ∨ dev.dmaFree = some boardFree

/-- The ring that was given to the module is the driver's, and the staging buffer is other memory. -/
structure Ring (dev : Device (Module Dev Board) P) (c : Config (List Dma)) : Prop where
  held : Holding c.host
  log2 : dev.ringLog2.toNat ≤ 10
  mem : dev.ring ∈ c.host
  room : 128 * 2 ^ dev.ringLog2.toNat ≤ dev.ring.bytes.toNat
  base : (c.baseHi.zeroExtend 64 <<< 32) ||| (c.baseLo &&& ~~~0xFFF).zeroExtend 64 = dev.ring.addr
  size : c.sizeLog2 = dev.ringLog2
  stage : dev.stage.bytes = 0 ∨ dev.stage ∈ c.host ∧ dev.stage.Apart dev.ring

/-- Where a slot is in the ring. -/
def slotOffset (ringLog2 idx : U32) : U64 :=
  (idx &&& (((1 : U32) <<< ringLog2.toNat) - 1)).zeroExtend 64 * PtaChiplet.slotBytes

theorem slotOffset_lt {ringLog2 : U32} (h : ringLog2.toNat ≤ 10) (idx : U32) :
    (slotOffset ringLog2 idx).toNat + 128 ≤ 128 * 2 ^ ringLog2.toNat := by
  have hring := ringSize_toNat h
  have hpos : 0 < 2 ^ ringLog2.toNat := Nat.two_pow_pos _
  have hmost : 2 ^ ringLog2.toNat ≤ 2 ^ 10 := Nat.pow_le_pow_right (by decide) h
  have hmask : (((1 : U32) <<< ringLog2.toNat) - 1).toNat = 2 ^ ringLog2.toNat - 1 := by
    rw [BitVec.toNat_sub, hring]
    have hone : (1 : U32).toNat = 1 := rfl
    omega
  have hle : (idx &&& (((1 : U32) <<< ringLog2.toNat) - 1)).toNat ≤ 2 ^ ringLog2.toNat - 1 := by
    rw [BitVec.toNat_and, ← hmask]
    exact Nat.and_le_right
  have hslot : PtaChiplet.slotBytes.toNat = 128 := rfl
  rw [slotOffset, BitVec.toNat_mul, BitVec.toNat_setWidth, hslot]
  omega

variable {dev : Device (Module Dev Board) P} {m : Module Dev Board}

theorem slotOf_eq (dev : Device (Module Dev Board) P) (idx : U32) :
    dev.slotOf idx = dev.ring.cpu + slotOffset dev.ringLog2 idx :=
  rfl

theorem Ring.slotAddr_eq (h : Ring dev (cfg m)) (idx : U32) :
    m.slotAddr idx = dev.ring.addr + slotOffset dev.ringLog2 idx := by
  have hsize : m.sizeLog2 = dev.ringLog2 := h.size
  have hbase : (m.baseHi.zeroExtend 64 <<< 32) ||| (m.baseLo &&& ~~~0xFFF).zeroExtend 64 = dev.ring.addr := h.base
  rw [Module.slotAddr, Module.ringSize, hsize, hbase]
  rfl

/-- A byte of a slot is inside the ring. -/
theorem Ring.slot_lt (h : Ring dev (cfg m)) (idx : U32) {j : ℕ} (hj : j < 64) :
    slotOffset dev.ringLog2 idx + BitVec.ofNat 64 j < dev.ring.bytes := by
  have hlt := slotOffset_lt h.log2 idx
  have hroom := h.room
  rw [BitVec.lt_def, BitVec.toNat_add, BitVec.toNat_ofNat]
  omega

/-- The line of a slot, as the driver finds it. -/
def Driver.line (d : Driver (Module Dev Board) P) (idx : U32) : Line :=
  Vector.ofFn fun j => d.env.host.byte (d.dev.slotOf idx + BitVec.ofNat 64 j)

/-- It is the line that the module has. -/
theorem Ring.line_eq {d : Driver (Module Dev Board) P} (h : Ring d.dev (cfg d.env)) (idx : U32) :
    d.line idx = slotLine d.env idx := by
  rw [Driver.line, slotLine, lineAt]
  congr 1
  funext j
  rw [slotOf_eq, h.slotAddr_eq, BitVec.add_assoc, BitVec.add_assoc]
  exact byte_of_held h.held h.mem (h.slot_lt idx j.isLt)

/-! ## What the driver writes -/

/-- Bytes written one after the other. -/
def putBytes : List (BitVec 8) → U64 → Bytes → Bytes
  | [], _, mem => mem
  | b :: bs, a, mem => putBytes bs (a + 1) (Function.update mem a b)

/-- Each is where it was written, and elsewhere memory is as it was. -/
theorem putBytes_apply (bs : List (BitVec 8)) :
    ∀ (a : U64) (mem : Bytes), bs.length ≤ 2 ^ 63 → ∀ p, putBytes bs a mem p = (bs[(p - a).toNat]?).getD (mem p) := by
  induction bs with
  | nil => exact fun a mem _ p => rfl
  | cons b bs ih =>
    intro a mem hlength p
    rw [List.length_cons] at hlength
    rw [putBytes, ih _ _ (by omega)]
    by_cases hp : p = a
    · have hlast : (p - (a + 1)).toNat = 2 ^ 64 - 1 := by
        rw [hp]
        bv_omega
      have hfirst : (p - a).toNat = 0 := by
        rw [hp, BitVec.sub_self]
        rfl
      rw [hlast, hfirst, List.getElem?_eq_none (by omega), hp, Option.getD_none, Function.update_self]
      rfl
    · have hnext : (p - a).toNat = (p - (a + 1)).toNat + 1 := by bv_omega
      rw [hnext, List.getElem?_cons_succ, Function.update_of_ne hp]

/-- Bytes stored in held memory, by a driver whose module has nothing to do. -/
theorem storeBytes_lands {buf : Dma} (bs : List (BitVec 8)) :
    ∀ (x : U64) (m : Module Dev Board), Calm m → Holding m.host.held → buf ∈ m.host.held →
      x.toNat + bs.length ≤ buf.bytes.toNat →
      Lands m (putBytes bs (buf.addr + x) m.host.mem) (storeBytes (P := P) (boardHost k) bs (buf.cpu + x) m) := by
  induction bs with
  | nil => exact fun x m _ _ _ _ => Stays.refl m
  | cons b bs ih =>
    intro x m hc hheld hbuf hx
    rw [List.length_cons] at hx
    have hlt : x < buf.bytes := by
      rw [BitVec.lt_def]
      omega
    have hpass : Stays m (pass k m) := pass_stays k hc
    have hsame : (pass k m).host.held = m.host.held := congrArg Config.host hpass.config
    have hstore := store_of_held (hsame ▸ hheld) (hsame ▸ hbuf) hlt b
    have hfirst : Lands m (Function.update m.host.mem (buf.addr + x) b)
        ((boardHost (P := P) k).store m (buf.cpu + x) b) := by
      have hmem : ((pass k m).host.store (buf.cpu + x) b).mem = Function.update m.host.mem (buf.addr + x) b := by
        rw [hstore, ← hpass.mem]
      have hconfig : cfg ((boardHost (P := P) k).store m (buf.cpu + x) b) = cfg (pass k m) := by
        show cfg { pass k m with host := (pass k m).host.store (buf.cpu + x) b } = _
        rw [hstore]
        rfl
      exact ⟨hconfig.trans hpass.config, hmem, hpass.head, hpass.halted, hpass.orphan, hpass.trace⟩
    have hsame' : ((boardHost (P := P) k).store m (buf.cpu + x) b).host.held = m.host.held :=
      congrArg Config.host hfirst.config
    have hnext : (x + 1).toNat = x.toNat + 1 := by
      have hbytes := buf.bytes.isLt
      rw [BitVec.toNat_add, Nat.mod_eq_of_lt]
      · rfl
      · have hone : (1 : U64).toNat = 1 := rfl
        omega
    have hrest := ih (x + 1) _ (hfirst.calm hc) (hsame' ▸ hheld) (hsame' ▸ hbuf) (by omega)
    rw [hfirst.mem, ← BitVec.add_assoc, ← BitVec.add_assoc] at hrest
    exact hfirst.trans hrest

/-- A line that is written byte by byte. -/
theorem lineAt_putBytes (line : Line) (a : U64) (mem : Bytes) : lineAt (putBytes line.toList a mem) a = line := by
  apply Vector.ext
  intro i hi
  have hlength : line.toList.length = 64 := Vector.length_toList
  rw [lineAt, Vector.getElem_ofFn, putBytes_apply _ _ _ (by omega), sub_add_ofNat a hi,
    List.getElem?_eq_getElem (by omega), Option.getD_some, Vector.getElem_toList]

/-- A word that is written byte by byte. -/
theorem lineAt_putWord (st : U32) (a : U64) (mem : Bytes) :
    lineAt (putBytes (wordBytes st) (a + BitVec.ofNat 64 dStatus) mem) a = put32 (lineAt mem a) dStatus st := by
  apply Vector.ext
  intro i hi
  have hlength : (wordBytes st).length = 4 := rfl
  have hmem : (lineAt mem a)[i] = mem (a + BitVec.ofNat 64 i) := by rw [lineAt, Vector.getElem_ofFn]
  rw [lineAt, Vector.getElem_ofFn, putBytes_apply _ _ _ (by omega)]
  unfold put32 dStatus
  simp only [Vector.getElem_setIfInBounds, hmem]
  have hoffset : a + BitVec.ofNat 64 i - (a + BitVec.ofNat 64 0x30) = BitVec.ofNat 64 i - 0x30 := by bv_omega
  rw [hoffset]
  by_cases hword : 0x30 ≤ i ∧ i < 0x34
  · -- one of the four bytes
    obtain ⟨hlow, hhigh⟩ := hword
    obtain rfl | rfl | rfl | rfl : i = 0x30 ∨ i = 0x31 ∨ i = 0x32 ∨ i = 0x33 := by omega
    · rfl
    · rfl
    · rfl
    · rfl
  · have hout : (wordBytes st).length ≤ (BitVec.ofNat 64 i - 0x30).toNat := by
      rw [hlength]
      bv_omega
    rw [List.getElem?_eq_none hout, Option.getD_none, if_neg (by omega), if_neg (by omega), if_neg (by omega),
      if_neg (by omega)]

/-! ## The hooks, one by one -/

variable {k} {d : Driver (Module Dev Board) P}

theorem rd_hooked (h : Hooked k d.dev) (off : U32) :
    d.rd off = ({ d with env := ((pass k d.env).read32 off).1 }, ((pass k d.env).read32 off).2) := by
  unfold Driver.rd
  rw [h.read32]
  rfl

theorem wr_hooked (h : Hooked k d.dev) (off v : U32) :
    d.wr off v = { d with env := (pass k d.env).write32 board k off v } := by
  unfold Driver.wr
  rw [h.write32]
  rfl

theorem read32_ptq (m : Module Dev Board) {off : U32} (h : ¬off < ptq) : m.read32 off = (m, m.ptqWord off) :=
  if_neg h

/-- A module that has been stopped. -/
structure Stopped (m m' : Module Dev Board) : Prop where
  enable : m'.enable = false
  enabled : m.enable = true → m'.enabled = false
  orphan : (m.enable = false → m.cur.live = true → m.cur.orphan = true) → m'.cur.live = true → m'.cur.orphan = true
  head : m'.head = m.head
  host : m'.host = m.host
  config : cfg m' = { cfg m with enable := false, enabled := m'.enabled }
  trace : ∃ es, m'.trace = m.trace ++ es ∧ ∀ e ∈ es, ¬e.ofSlot

theorem Stopped.heads {m m' : Module Dev Board} (h : Stopped m m') : heads m'.trace = heads m.trace := by
  obtain ⟨es, htrace, hes⟩ := h.trace
  have hnone : PtaChiplet.heads es = [] := heads_eq_nil hes
  rw [htrace, heads_append, hnone, List.append_nil]

theorem writeCtrl_zero (k : TileKernel Dev) (m : Module Dev Board) : Stopped m (m.write32 board k ptqCtrl 0) := by
  have hwrite : m.write32 board k ptqCtrl 0 = m.writeCtrl board k 0 := rfl
  have hoff : ((0 : U32) &&& ctrlEnable != 0) = false := by decide
  rw [hwrite]
  unfold Module.writeCtrl
  dsimp only
  rw [hoff, Bool.false_and, if_neg Bool.false_ne_true, Bool.not_false, Bool.true_and]
  cases henable : m.enable with
  | false =>
    rw [if_neg Bool.false_ne_true]
    refine ⟨rfl, fun h => absurd (henable.symm.trans h) Bool.false_ne_true, fun h => h henable, rfl, rfl, rfl, [],
      (List.append_nil _).symm, fun e he => absurd he List.not_mem_nil⟩
  | true =>
    rw [if_pos rfl]
    refine ⟨rfl, fun _ => rfl, fun _ hl => ?_, rfl, rfl, rfl, [.disable], rfl, fun e he => ?_⟩
    · revert hl
      dsimp only [Module.emit]
      split
      · exact fun _ => rfl
      · next hl => exact fun h => absurd h hl
    · rw [List.mem_singleton.mp he]
      decide

/-- A module that is not enabled says so. -/
theorem ptqStatus_clear {m : Module Dev Board} (h : m.enabled = false) : m.ptqWord ptqStatus &&& ptqEnabled = 0 := by
  have hword : m.ptqWord ptqStatus = (if m.halted ≠ 0 then statusHalted else 0) ||| (m.halted <<< 8) := by
    simp [Module.ptqWord, ptqStatus, ptqId, ptqCaps, ptqCtrl, h]
  rw [hword]
  apply BitVec.eq_of_getLsbD_eq
  intro i hi
  rw [BitVec.getLsbD_and, BitVec.getLsbD_or, BitVec.getLsbD_shiftLeft]
  by_cases hbit : i = 0
  · rw [hbit]
    split
    · rfl
    · rfl
  · have hone : (ptqEnabled : U32).getLsbD i = false := by
      show (1#32).getLsbD i = false
      rw [BitVec.getLsbD_one]
      simp [hbit]
    rw [hone, Bool.and_false]
    simp

theorem rd_calm (h : Hooked k d.dev) (hc : Calm d.env) (off : U32) (hoff : ¬off < ptq) :
    (d.rd off).1.dev = d.dev ∧ Stays d.env (d.rd off).1.env ∧ (d.rd off).2 = (d.rd off).1.env.ptqWord off := by
  rw [rd_hooked h, read32_ptq _ hoff]
  exact ⟨rfl, pass_stays k hc, rfl⟩

theorem ld32_calm (hc : Calm d.env) (p : U64) :
    (d.ld32 (boardHost k) p).1.dev = d.dev ∧ Stays d.env (d.ld32 (boardHost k) p).1.env ∧
      (d.ld32 (boardHost k) p).2 = (d.ld32 (boardHost k) p).1.env.host.word p :=
  ⟨rfl, pass_stays k hc, rfl⟩

/-- The word that the driver finds in a line. -/
theorem word_line (d : Driver (Module Dev Board) P) (idx : U32) :
    d.env.host.word (d.dev.slotOf idx + BitVec.ofNat 64 dStatus) = get32 (d.line idx) dStatus := by
  have hbyte : ∀ j : ℕ, j < 64 → (d.line idx).getD j 0 = d.env.host.byte (d.dev.slotOf idx + BitVec.ofNat 64 j) := by
    intro j hj
    simp [Driver.line, Vector.getD, hj]
  unfold get32 dStatus
  rw [hbyte 0x30 (by decide), hbyte (0x30 + 1) (by decide), hbyte (0x30 + 2) (by decide), hbyte (0x30 + 3) (by decide),
    Board.word, BitVec.add_assoc, BitVec.add_assoc, BitVec.add_assoc]
  rfl

/-! ## Between the calls, and in one -/

/-- A ring without slots, and a module that has nothing to end. -/
structure Empty (next : U32) (m : Module Dev Board) : Prop where
  enable : m.enable = true
  head : m.head = next
  tail : m.tail = next
  orphan : m.cur.live = true → m.cur.orphan = true

theorem Empty.calm {next : U32} {m : Module Dev Board} (h : Empty next m) : Calm m :=
  ⟨h.orphan, .inr (h.head.trans h.tail.symm)⟩

theorem Empty.lands {next : U32} {m m' : Module Dev Board} {mem : Bytes} (h : Empty next m) (hs : Lands m mem m') :
    Empty next m' :=
  ⟨(congrArg Config.enable hs.config).trans h.enable, hs.head.trans h.head,
    (congrArg Config.tail hs.config).trans h.tail, hs.orphan h.orphan⟩

theorem Ring.congr {dev : Device (Module Dev Board) P} {c c' : Config (List Dma)} (h : Ring dev c)
    (hhost : c'.host = c.host) (hlo : c'.baseLo = c.baseLo) (hhi : c'.baseHi = c.baseHi)
    (hsize : c'.sizeLog2 = c.sizeLog2) : Ring dev c' := by
  constructor
  · exact hhost ▸ h.held
  · exact h.log2
  · exact hhost ▸ h.mem
  · exact h.room
  · rw [hlo, hhi]
    exact h.base
  · exact hsize.trans h.size
  · rw [hhost]
    exact h.stage

theorem Ring.lands {dev : Device (Module Dev Board) P} {m m' : Module Dev Board} {mem : Bytes} (h : Ring dev (cfg m))
    (hs : Lands m mem m') : Ring dev (cfg m') := by
  rw [hs.config]
  exact h

variable (k) in
/-- A driver that may tear its queue down: none of its slots is pending, or one is that the module has, or has
ended. -/
structure Tearable (d : Driver (Module Dev Board) P) : Prop where
  hooked : Hooked k d.dev
  queue : d.dev.queue = true
  alive : d.dev.queueDead = false
  ring : Ring d.dev (cfg d.env)
  enable : d.env.enable = true
  slots : d.dev.next = d.dev.ended ∧ Empty d.dev.next d.env ∨
    d.dev.next = d.dev.ended + 1 ∧ ∃ desc tr, get32 desc dStatus = 0 ∧ Waits desc d.dev.ended tr d.env

/-- What has become of a slot when its queue stops: it was pending and still is, the module has ended it before, or
it ends it now, once. -/
inductive Found (idx : U32) (m m' : Module Dev Board) : Prop
  | pending (hhead : m'.head = idx) (hstatus : get32 (slotLine m idx) dStatus = 0)
      (hline : slotLine m' idx = slotLine m idx) (htr : heads m'.trace = heads m.trace)
  | before (hhead : m'.head = idx + 1) (hstatus : get32 (slotLine m idx) dStatus ≠ 0)
      (hline : slotLine m' idx = slotLine m idx) (htr : heads m'.trace = heads m.trace)
  | now (hhead : m'.head = idx + 1) (hstatus : get32 (slotLine m idx) dStatus = 0)
      (hended : get32 (slotLine m' idx) dStatus ≠ 0) (htr : heads m'.trace = heads m.trace ++ [idx + 1])

variable (k) in
theorem Waits.found {desc : Line} {idx : U32} {tr : List U32} {m : Module Dev Board} (h : Waits desc idx tr m)
    (hpending : get32 desc dStatus = 0) : Found idx m (PtaChiplet.pass k m) := by
  have hconfig : cfg (PtaChiplet.pass k m) = cfg m := pass_config k m
  rcases h.slot with ⟨hopen, -⟩ | ⟨hended, horphan⟩
  · have hstatus : get32 (slotLine m idx) dStatus = 0 := by
      rw [hopen.line]
      exact hpending
    rcases (h.pass k).slot with ⟨hopen', -⟩ | ⟨hended', -⟩
    · exact .pending hopen'.head hstatus (hopen'.line.trans hopen.line.symm) (hopen'.heads.trans hopen.heads.symm)
    · refine .now hended'.head hstatus hended'.status ?_
      rw [hended'.heads, hopen.heads]
  · -- the module has nothing left to do
    have hstays : Stays m (PtaChiplet.pass k m) := pass_stays k ⟨horphan, .inr (hended.head.trans h.tail.symm)⟩
    exact .before (hstays.head.trans hended.head) hended.status (slotLine_eq hconfig hstays.mem idx) hstays.heads

/-- A queue that has been stopped: what there was of the driver's slots has been found. -/
structure Halt (d s : Driver (Module Dev Board) P) : Prop where
  dev : s.dev = d.dev
  calm : Calm s.env
  enable : s.env.enable = false
  enabled : s.env.enabled = false
  ring : Ring d.dev (cfg s.env)
  slots : d.dev.next = d.dev.ended ∧ s.env.head = d.dev.next ∧ heads s.env.trace = heads d.env.trace ∨
    d.dev.next = d.dev.ended + 1 ∧ Found d.dev.ended d.env s.env

theorem Tearable.halt (h : Tearable k d) : Halt d (d.wr ptqCtrl 0) := by
  have hstop : Stopped (pass k d.env) (d.wr ptqCtrl 0).env := by
    rw [wr_hooked h.hooked]
    exact writeCtrl_zero k _
  have hconfig : cfg (pass k d.env) = cfg d.env := pass_config k d.env
  have henable : (pass k d.env).enable = true := (congrArg Config.enable hconfig).trans h.enable
  have hdev : (d.wr ptqCtrl 0).dev = d.dev := by rw [wr_hooked h.hooked]
  have horphan : (d.wr ptqCtrl 0).env.cur.live = true → (d.wr ptqCtrl 0).env.cur.orphan = true :=
    hstop.orphan fun hoff => absurd (henable.symm.trans hoff) Bool.false_ne_true.symm
  have hring : Ring d.dev (cfg (d.wr ptqCtrl 0).env) := by
    rw [hstop.config, hconfig]
    exact h.ring.congr rfl rfl rfl rfl
  have hline : ∀ i, slotLine (d.wr ptqCtrl 0).env i = slotLine (pass k d.env) i := by
    intro i
    have hpass : Ring d.dev (cfg (pass k d.env)) := by
      rw [hconfig]
      exact h.ring
    rw [slotLine, slotLine, hstop.host, hring.slotAddr_eq, hpass.slotAddr_eq]
  have htrace : heads (d.wr ptqCtrl 0).env.trace = heads (pass k d.env).trace := hstop.heads
  refine ⟨hdev, ⟨horphan, .inl hstop.enable⟩, hstop.enable, hstop.enabled henable, hring, ?_⟩
  rcases h.slots with ⟨hnone, hempty⟩ | ⟨hone, desc, tr, hpending, hwaits⟩
  · have hstays := pass_stays k hempty.calm
    exact .inl ⟨hnone, hstop.head.trans (hempty.lands hstays).head, htrace.trans hstays.heads⟩
  · refine .inr ⟨hone, ?_⟩
    rcases hwaits.found k hpending with ⟨hhead, hstatus, hsame, htr⟩ | ⟨hhead, hstatus, hsame, htr⟩ |
      ⟨hhead, hstatus, hended, htr⟩
    · exact .pending (hstop.head.trans hhead) hstatus ((hline _).trans hsame) (htrace.trans htr)
    · exact .before (hstop.head.trans hhead) hstatus ((hline _).trans hsame) (htrace.trans htr)
    · refine .now (hstop.head.trans hhead) hstatus ?_ (htrace.trans htr)
      rw [hline]
      exact hended

/-- A slot that is still pending ends lost. -/
theorem endLost_pending (hc : Calm d.env) (hr : Ring d.dev (cfg d.env)) {idx : U32}
    (hpending : get32 (slotLine d.env idx) dStatus = 0) :
    (d.endLost (boardHost k) 1 idx).dev = d.dev ∧ ∃ mem, Lands d.env mem (d.endLost (boardHost k) 1 idx).env ∧
      lineAt mem (d.env.slotAddr idx) = put32 (slotLine d.env idx) dStatus recLost := by
  have hpass : Stays d.env (pass k d.env) := pass_stays k hc
  have hring : Ring d.dev (cfg (pass k d.env)) := hr.lands hpass
  have hword : (d.slotStatus (boardHost k) idx).2 = 0 := by
    have hline := word_line { d with env := pass k d.env } idx
    rw [Ring.line_eq hring, slotLine_eq hpass.config hpass.mem, hpending] at hline
    exact hline
  have hbytes : (slotOffset d.dev.ringLog2 idx + BitVec.ofNat 64 dStatus).toNat + 4 ≤ d.dev.ring.bytes.toNat := by
    have hlt := slotOffset_lt hr.log2 idx
    have hroom := hr.room
    have hoff : (BitVec.ofNat 64 dStatus).toNat = 48 := rfl
    rw [BitVec.toNat_add, hoff]
    omega
  have hlands := storeBytes_lands (P := P) k (wordBytes recLost) (slotOffset d.dev.ringLog2 idx + BitVec.ofNat 64 dStatus)
    (pass k d.env) (hpass.calm hc) hring.held hring.mem hbytes
  have hlost : d.endLost (boardHost k) 1 idx = { d with
      env := storeBytes (P := P) (boardHost k) (wordBytes recLost)
        (d.dev.ring.cpu + (slotOffset d.dev.ringLog2 idx + BitVec.ofNat 64 dStatus)) (pass k d.env) } := by
    show (let d' := if (d.slotStatus (boardHost k) idx).2 = 0 then _ else _; Driver.endLost (boardHost k) 0 (idx + 1) d') = _
    rw [if_pos hword, ← BitVec.add_assoc]
    rfl
  rw [hlost]
  refine ⟨rfl, _, Lands.trans hpass hlands, ?_⟩
  rw [hr.slotAddr_eq, hpass.mem, ← BitVec.add_assoc, lineAt_putWord, slotLine, hr.slotAddr_eq]

/-- A module that is enabled starts its ring empty. -/
theorem writeCtrl_enable (k : TileKernel Dev) {m : Module Dev Board} (hc : Calm m) (henable : m.enable = false) :
    ∃ m', Empty m.tail m' ∧ m'.halted = 0 ∧ m'.host = m.host ∧
      cfg m' = { cfg m with enable := true, enabled := true } ∧ m'.trace = m.trace ++ [.enable m.tail] ∧
      Stays m' (m.write32 board k ptqCtrl ptqEnable) := by
  have hwrite : m.write32 board k ptqCtrl ptqEnable = m.writeCtrl board k ptqEnable := rfl
  have hon : ((ptqEnable : U32) &&& ctrlEnable != 0) = true := by decide
  have hcond : (true && !m.enable) = true := by
    rw [henable]
    rfl
  rw [hwrite]
  unfold Module.writeCtrl
  dsimp only
  rw [hon, if_pos hcond]
  refine ⟨Module.emit
    { m with
      irqEn := ptqEnable &&& ctrlIrqEn != 0
      enable := true
      enabled := true
      head := m.tail
      prev := none
      halted := 0 } (.enable m.tail), ?_, rfl, rfl, rfl, rfl, service_stays k ?_⟩
  · exact ⟨rfl, rfl, rfl, hc.orphan⟩
  · exact ⟨hc.orphan, .inr rfl⟩

/-- The queue is started again, empty. -/
theorem restart_spec (h : Hooked k d.dev) (hc : Calm d.env) (henable : d.env.enable = false) (next : U32) :
    let f := (d.wr ptqTail next).wr ptqCtrl ptqEnable
    f.dev = d.dev ∧ Empty next f.env ∧ f.env.halted = 0 ∧ f.env.host.mem = d.env.host.mem ∧
      cfg f.env = { cfg d.env with enable := true, enabled := true, tail := next } ∧
      ∃ es, f.env.trace = d.env.trace ++ es ∧ ∀ e ∈ es, ¬e.ofSlot := by
  intro f
  have hpass : Stays d.env (pass k d.env) := pass_stays k hc
  have hoff : (pass k d.env).enable = false := (congrArg Config.enable hpass.config).trans henable
  -- the doorbell of a queue that is not enabled only sets the index
  have hbell : (d.wr ptqTail next).env = { pass k d.env with tail := next } := by
    have hoff' : (!(pass k d.env).enable) = true := by
      rw [hoff]
      rfl
    rw [wr_hooked h]
    exact if_pos hoff'
  have hdev : (d.wr ptqTail next).dev = d.dev := by rw [wr_hooked h]
  have hcalm : Calm (d.wr ptqTail next).env := by
    rw [hbell]
    exact ⟨hpass.orphan hc.orphan, .inl hoff⟩
  have hagain : Stays (d.wr ptqTail next).env (pass k (d.wr ptqTail next).env) := pass_stays k hcalm
  have hoff' : (pass k (d.wr ptqTail next).env).enable = false := by
    refine (congrArg Config.enable hagain.config).trans ?_
    rw [hbell]
    exact hoff
  obtain ⟨m', hempty, hhalted, hhost, hconfig, htrace, hstays⟩ :=
    writeCtrl_enable k (hagain.calm hcalm) hoff'
  have hf : f = { d.wr ptqTail next with env := (pass k (d.wr ptqTail next).env).write32 board k ptqCtrl ptqEnable } :=
    wr_hooked (hdev ▸ h) _ _
  have henv : f.env = (pass k (d.wr ptqTail next).env).write32 board k ptqCtrl ptqEnable := by rw [hf]
  rw [← henv] at hstays
  have htail : (pass k (d.wr ptqTail next).env).tail = next :=
    (congrArg Config.tail hagain.config).trans (congrArg Module.tail hbell)
  have hsame : (d.wr ptqTail next).env.trace = (pass k d.env).trace := by rw [hbell]
  rw [htail] at hempty
  refine ⟨?_, hempty.lands hstays, hstays.halted.trans hhalted, ?_, ?_, ?_⟩
  · rw [hf]
    exact hdev
  · rw [hstays.mem, hhost, hagain.mem, hbell]
    exact hpass.mem
  · have hsame : cfg f.env = { cfg (pass k (d.wr ptqTail next).env) with enable := true, enabled := true } :=
      hstays.config.trans hconfig
    have htailed : cfg (d.wr ptqTail next).env = { cfg (pass k d.env) with tail := next } := by
      rw [hbell]
      rfl
    rw [hsame, hagain.config, htailed, hpass.config]
  · obtain ⟨es, hes, hquiet⟩ := hpass.trace
    obtain ⟨es', hes', hquiet'⟩ := hagain.trace
    obtain ⟨es'', hes'', hquiet''⟩ := hstays.trace
    refine ⟨es ++ (es' ++ (.enable (pass k (d.wr ptqTail next).env).tail :: es'')), ?_, fun e he => ?_⟩
    · rw [hes'', htrace, hes', hsame, hes]
      simp only [List.append_assoc, List.singleton_append]
    · rcases List.mem_append.mp he with he | he
      · exact hquiet e he
      rcases List.mem_append.mp he with he | he
      · exact hquiet' e he
      rcases List.mem_cons.mp he with rfl | he
      · exact Bool.false_ne_true
      · exact hquiet'' e he

/-! ## The teardown -/

/-- How often the module has ended a slot, and what has become of its line by way of the line that there was when
the queue stopped: a record that is there stays, and a slot that is pending ends once, with the module's record or
with the driver's. -/
inductive SlotEnds (times : ℕ) (line stopped line' : Line) : Prop
  | before (htimes : times = 0) (hstatus : get32 line dStatus ≠ 0) (hline : line' = line)
  | ended (htimes : times = 1) (hstatus : get32 line dStatus = 0) (hrecord : get32 stopped dStatus ≠ 0)
      (hline : line' = stopped)
  | lost (htimes : times = 0) (hstatus : get32 line dStatus = 0) (hline : line' = put32 line dStatus recLost)

/-- What a teardown leaves. -/
structure TornDown (d d' : Driver (Module Dev Board) P) : Prop where
  dev : d'.dev = d.dev
  /-- None of the driver's slots is pending. -/
  status : ∀ i, i - d.dev.ended < d.dev.next - d.dev.ended → get32 (d'.line i) dStatus ≠ 0
  /-- Each has ended once. -/
  once : ∃ es, heads d'.env.trace = heads d.env.trace ++ es ∧ ∀ i, i - d.dev.ended < d.dev.next - d.dev.ended →
    SlotEnds (es.count (i + 1)) (d.line i) ((d.wr ptqCtrl 0).line i) (d'.line i)
  /-- Once the queue is stopped the module writes nothing of a slot. -/
  quiet : ∃ es, d'.env.trace = (d.wr ptqCtrl 0).env.trace ++ es ∧ ∀ e ∈ es, ¬e.ofSlot
  /-- The ring starts empty. -/
  enabled : d'.env.enable = true ∧ d'.env.enabled = true ∧ d'.env.halted = 0
  head : d'.env.head = d.dev.next
  tail : d'.env.tail = d.dev.next

/-- Where a teardown starts to look for pending slots. -/
def Device.firstLost {E : Type} (dev : Device E P) (head : U32) : U32 :=
  if dev.next - dev.ended < head - dev.ended then dev.ended else head

theorem quiesce_clear (polls : ℕ) (h : (d.rd ptqStatus).2 &&& ptqEnabled = 0) :
    d.quiesce (polls + 1) = ((d.rd ptqStatus).1, true) := by
  unfold Driver.quiesce
  rcases hrd : d.rd ptqStatus with ⟨d', status⟩
  rw [hrd] at h
  exact if_pos h

/-- A queue that has stopped is seen to have stopped, and then its slots are looked through. -/
theorem Halt.teardown (hq : d.dev.queue = true) (ha : d.dev.queueDead = false) (h : Hooked k d.dev)
    (hh : Halt d (d.wr ptqCtrl 0)) :
    ∃ r : Driver (Module Dev Board) P, r.dev = d.dev ∧ Stays (d.wr ptqCtrl 0).env r.env ∧
      ∀ e, e = r.endLost (boardHost k) (d.dev.next - d.dev.firstLost (d.wr ptqCtrl 0).env.head).toNat
          (d.dev.firstLost (d.wr ptqCtrl 0).env.head) →
        Driver.teardown (boardHost k) d = ((e.wr ptqTail e.dev.next).wr ptqCtrl ptqEnable, true) := by
  have hstop : Hooked k (d.wr ptqCtrl 0).dev := hh.dev ▸ h
  obtain ⟨hdev, hstays, hstatus⟩ := rd_calm hstop hh.calm ptqStatus (by decide)
  have hclear : ((d.wr ptqCtrl 0).rd ptqStatus).2 &&& ptqEnabled = 0 := by
    rw [hstatus]
    exact ptqStatus_clear ((congrArg Config.enabled hstays.config).trans hh.enabled)
  have hquiesce : (d.wr ptqCtrl 0).quiesce kQuiescePolls = (((d.wr ptqCtrl 0).rd ptqStatus).1, true) :=
    quiesce_clear 4095 hclear
  obtain ⟨hdev', hstays', hhead⟩ := rd_calm (hdev ▸ hstop) (hstays.calm hh.calm) ptqHead (by decide)
  have hboth : (((d.wr ptqCtrl 0).rd ptqStatus).1.rd ptqHead).1.dev = d.dev := hdev'.trans (hdev.trans hh.dev)
  have hsame : (((d.wr ptqCtrl 0).rd ptqStatus).1.rd ptqHead).2 = (d.wr ptqCtrl 0).env.head :=
    hhead.trans (hstays'.head.trans hstays.head)
  refine ⟨_, hboth, hstays.trans hstays', fun e he => ?_⟩
  have hlive : ¬(!d.dev.queue || d.dev.queueDead) = true := by
    rw [hq, ha]
    decide
  unfold Driver.teardown
  rw [if_neg hlive]
  dsimp only
  rw [hquiesce]
  dsimp only
  rcases hrd : ((d.wr ptqCtrl 0).rd ptqStatus).1.rd ptqHead with ⟨r, head⟩
  rw [hrd] at hboth hsame he
  dsimp only at hboth hsame he ⊢
  rw [hboth, hsame]
  rw [he]
  rfl

/-- What there is after the queue has been started again, with memory as it was left. -/
structure Restarted (d s f : Driver (Module Dev Board) P) (mem : Bytes) : Prop where
  dev : f.dev = d.dev
  empty : Empty d.dev.next f.env
  enabled : f.env.enabled = true
  halted : f.env.halted = 0
  ring : Ring d.dev (cfg f.env)
  mem : f.env.host.mem = mem
  quiet : ∃ es, f.env.trace = s.env.trace ++ es ∧ ∀ e ∈ es, ¬e.ofSlot

theorem Halt.restart {s e : Driver (Module Dev Board) P} {mem : Bytes} (h : Hooked k d.dev) (hh : Halt d s)
    (he : e.dev = d.dev) (hl : Lands s.env mem e.env) :
    Restarted d s ((e.wr ptqTail e.dev.next).wr ptqCtrl ptqEnable) mem := by
  have henable : e.env.enable = false := (congrArg Config.enable hl.config).trans hh.enable
  have hring : Ring d.dev (cfg e.env) := hh.ring.lands hl
  obtain ⟨hdev, hempty, hhalted, hmem, hconfig, es, htrace, hes⟩ :=
    restart_spec (he ▸ h) (hl.calm hh.calm) henable e.dev.next
  obtain ⟨es', htrace', hes'⟩ := hl.trace
  refine ⟨hdev.trans he, ?_, congrArg Config.enabled hconfig, hhalted, ?_, hmem.trans hl.mem, es' ++ es, ?_,
    fun x hx => ?_⟩
  · rw [he] at hempty ⊢
    exact hempty
  · rw [hconfig]
    exact hring.congr rfl rfl rfl rfl
  · rw [htrace, htrace', List.append_assoc]
  · exact (List.mem_append.mp hx).elim (hes' x) (hes x)

theorem Restarted.line {s f : Driver (Module Dev Board) P} {mem : Bytes} (h : Restarted d s f mem) (i : U32) :
    f.line i = lineAt mem (d.dev.ring.addr + slotOffset d.dev.ringLog2 i) := by
  have hring : Ring f.dev (cfg f.env) := h.dev.symm ▸ h.ring
  rw [hring.line_eq, slotLine, hring.slotAddr_eq, h.mem, h.dev]

theorem Restarted.heads {s f : Driver (Module Dev Board) P} {mem : Bytes} (h : Restarted d s f mem) :
    heads f.env.trace = heads s.env.trace := by
  obtain ⟨es, htrace, hes⟩ := h.quiet
  rw [htrace, heads_append, heads_eq_nil hes, List.append_nil]

/-- Whatever the driver's slots are, a teardown ends those that are pending and starts the queue again. -/
theorem Tearable.teardown (h : Tearable k d) :
    ∃ d', d.teardown (boardHost k) = (d', true) ∧ TornDown d d' ∧ Ring d.dev (cfg d'.env) ∧ Empty d.dev.next d'.env := by
  have hh : Halt d (d.wr ptqCtrl 0) := h.halt
  obtain ⟨r, hr, hstays, hteardown⟩ := hh.teardown h.queue h.alive h.hooked
  have hstop : ∀ i, (d.wr ptqCtrl 0).line i = slotLine (d.wr ptqCtrl 0).env i :=
    fun i => Ring.line_eq (hh.dev.symm ▸ hh.ring) i
  have haddr : ∀ i, (d.wr ptqCtrl 0).env.slotAddr i = d.dev.ring.addr + slotOffset d.dev.ringLog2 i :=
    hh.ring.slotAddr_eq
  -- what remains once it is known what is lost
  have hdone : ∀ (e : Driver (Module Dev Board) P) (mem : Bytes), e.dev = d.dev → Lands (d.wr ptqCtrl 0).env mem e.env →
      e = r.endLost (boardHost k) (d.dev.next - d.dev.firstLost (d.wr ptqCtrl 0).env.head).toNat
        (d.dev.firstLost (d.wr ptqCtrl 0).env.head) →
      (∃ es, heads (d.wr ptqCtrl 0).env.trace = heads d.env.trace ++ es ∧
        ∀ i, i - d.dev.ended < d.dev.next - d.dev.ended → SlotEnds (es.count (i + 1)) (slotLine d.env i)
          (slotLine (d.wr ptqCtrl 0).env i) (lineAt mem ((d.wr ptqCtrl 0).env.slotAddr i))) →
      ∃ d', d.teardown (boardHost k) = (d', true) ∧ TornDown d d' ∧ Ring d.dev (cfg d'.env) ∧
        Empty d.dev.next d'.env := by
    intro e mem he hl hlost hends
    have hf : Restarted d (d.wr ptqCtrl 0) ((e.wr ptqTail e.dev.next).wr ptqCtrl ptqEnable) mem :=
      hh.restart h.hooked he hl
    obtain ⟨es, htrace, hslots⟩ := hends
    have honce : ∀ i, i - d.dev.ended < d.dev.next - d.dev.ended → SlotEnds (es.count (i + 1)) (d.line i)
        ((d.wr ptqCtrl 0).line i) (((e.wr ptqTail e.dev.next).wr ptqCtrl ptqEnable).line i) := by
      intro i hi
      rw [h.ring.line_eq, hstop, hf.line, ← haddr]
      exact hslots i hi
    refine ⟨_, hteardown e hlost, ⟨hf.dev, fun i hi => ?_, ⟨es, hf.heads.trans htrace, honce⟩, hf.quiet,
      ⟨hf.empty.enable, hf.enabled, hf.halted⟩, hf.empty.head, hf.empty.tail⟩, hf.ring, hf.empty⟩
    rcases honce i hi with ⟨-, hstatus, hline⟩ | ⟨-, -, hrecord, hline⟩ | ⟨-, -, hline⟩
    · rw [hline]
      exact hstatus
    · rw [hline]
      exact hrecord
    · rw [hline, get32_put32_self _ (by decide)]
      decide
  have hnone : r = r.endLost (boardHost k) 0 d.dev.next := rfl
  rcases hh.slots with ⟨hsame, hhead, htr⟩ | ⟨hone, hfound⟩
  · -- there is no slot
    have hfirst : d.dev.firstLost (d.wr ptqCtrl 0).env.head = d.dev.next := by
      rw [Device.firstLost, hhead, if_neg (BitVec.lt_irrefl _)]
    apply hdone r _ hr hstays
    · rw [hfirst, BitVec.sub_self]
      exact hnone
    · refine ⟨[], htr.trans (List.append_nil _).symm, fun i hi => ?_⟩
      rw [hsame, BitVec.sub_self] at hi
      exact absurd hi (BitVec.not_lt_zero)
  · -- there is one
    have honly : ∀ i, i - d.dev.ended < d.dev.next - d.dev.ended → i = d.dev.ended := by
      intro i hi
      rw [hone] at hi
      bv_omega
    have hpast : (d.wr ptqCtrl 0).env.head = d.dev.ended + 1 → r = r.endLost (boardHost k)
        (d.dev.next - d.dev.firstLost (d.wr ptqCtrl 0).env.head).toNat
        (d.dev.firstLost (d.wr ptqCtrl 0).env.head) := by
      intro hhead
      have hfirst : d.dev.firstLost (d.wr ptqCtrl 0).env.head = d.dev.next := by
        rw [Device.firstLost, hhead, ← hone, if_neg (BitVec.lt_irrefl _)]
      rw [hfirst, BitVec.sub_self]
      exact hnone
    rcases hfound with ⟨hhead, hstatus, hline, htr⟩ | ⟨hhead, hstatus, hline, htr⟩ | ⟨hhead, hstatus, hended, htr⟩
    · -- it is pending, and ends lost
      have hfirst : d.dev.firstLost (d.wr ptqCtrl 0).env.head = d.dev.ended := by
        rw [Device.firstLost, hhead]
        split
        · rfl
        · rfl
      have hcount : (d.dev.next - d.dev.ended).toNat = 1 := by
        rw [hone]
        bv_omega
      have hring : Ring r.dev (cfg r.env) := hr.symm ▸ hh.ring.lands hstays
      have hkept : slotLine r.env d.dev.ended = slotLine d.env d.dev.ended :=
        (slotLine_eq hstays.config hstays.mem _).trans hline
      have hpending : get32 (slotLine r.env d.dev.ended) dStatus = 0 := by
        rw [hkept]
        exact hstatus
      obtain ⟨hdev, mem, hlands, hput⟩ := endLost_pending (k := k) (hstays.calm hh.calm) hring hpending
      rw [hkept, slotAddr_of_config hstays.config] at hput
      apply hdone _ mem (hdev.trans hr) (Lands.trans hstays hlands)
      · rw [hfirst, hcount]
      · refine ⟨[], htr.trans (List.append_nil _).symm, fun i hi => ?_⟩
        rw [honly i hi, hput]
        exact .lost rfl hstatus rfl
    · apply hdone r _ hr hstays (hpast hhead)
      refine ⟨[], htr.trans (List.append_nil _).symm, fun i hi => ?_⟩
      rw [honly i hi]
      exact .before rfl hstatus hline
    · apply hdone r _ hr hstays (hpast hhead)
      refine ⟨[d.dev.ended + 1], htr, fun i hi => ?_⟩
      rw [honly i hi]
      exact .ended List.count_singleton_self hstatus hended rfl

end Grxcp.PtaChiplet
