import Grxcp.Pta.RingMemory
import Grxcp.Pta.Teardown

/-!
# The driver between its calls

What holds of driver and module between the driver's calls (`World`): the ring and the staging buffer are held
and share nothing, the module's ring is the driver's, and no slot is out.
-/

namespace Grxcp.PtaChiplet

open PtaTwin (TileKernel Build)
open PtaModule

variable {Dev P : Type} {k : TileKernel Dev} {m m' : Module Dev Board} {d : Driver (Module Dev Board) P}

/-! ## The module, whatever a host does -/

/-- The memory that is held shares nothing, and a module whose queue is off has nothing to end. -/
structure Sound (m : Module Dev Board) : Prop where
  held : Holding m.host.held
  orphan : m.enable = false → m.cur.live = true → m.cur.orphan = true

theorem Sound.lands {mem : Bytes} (h : Sound m) (hconfig : cfg m' = cfg m) (hl : Calm m → Lands m mem m') : Sound m' := by
  have hheld : m'.host.held = m.host.held := congrArg Config.host hconfig
  have henable : m'.enable = m.enable := congrArg Config.enable hconfig
  refine ⟨hheld ▸ h.held, fun hoff => ?_⟩
  have hcalm : Calm m := ⟨h.orphan (henable.symm.trans hoff), .inl (henable.symm.trans hoff)⟩
  exact (hl hcalm).orphan hcalm.orphan

theorem Sound.aside (h : Sound m) (a : Aside) : Sound (m.act board k a.action) :=
  h.lands (aside_config k m a) fun hc => aside_stays k hc a

/-- A module that goes on with its queue enabled. -/
theorem Sound.on (h : Sound m) (hconfig : cfg m' = { cfg m with enable := true, enabled := m'.enabled, tail := m'.tail }) :
    Sound m' := by
  have hheld : m'.host.held = m.host.held := congrArg Config.host hconfig
  have henable : m'.enable = true := congrArg Config.enable hconfig
  exact ⟨hheld ▸ h.held, fun hoff => absurd (henable.symm.trans hoff) Bool.false_ne_true.symm⟩

theorem Sound.writeCtrl (h : Sound m) (v : U32) : Sound (m.writeCtrl board k v) := by
  unfold Module.writeCtrl
  dsimp only
  split
  · apply h.on
    have hservice := service_config k board_keeps (Module.emit
      { m with
        irqEn := v &&& ctrlIrqEn != 0
        enable := true
        enabled := true
        head := m.tail
        prev := none
        halted := 0 } (.enable m.tail))
    have henabled := congrArg Config.enabled hservice
    have htail := congrArg Config.tail hservice
    refine hservice.trans ?_
    dsimp only [Module.config] at henabled htail
    rw [henabled, htail]
    rfl
  split
  · refine ⟨h.held, fun _ => ?_⟩
    dsimp only [Module.emit]
    split
    · exact fun _ => rfl
    · next hl => exact fun h => absurd h hl
  · exact ⟨h.held, h.orphan⟩

theorem Sound.doorbell (h : Sound m) (v : U32) : Sound (m.doorbell board k v) := by
  unfold Module.doorbell
  split
  · exact ⟨h.held, h.orphan⟩
  next hon =>
  have henable : m.enable = true := by simpa using hon
  split
  · exact ⟨h.held, h.orphan⟩
  · apply h.on
    have hservice := service_config k board_keeps { m with tail := v }
    have henabled := congrArg Config.enabled hservice
    have htail := congrArg Config.tail hservice
    refine hservice.trans ?_
    dsimp only [Module.config] at henabled htail
    rw [henabled, htail, ← henable]
    rfl

theorem Sound.write32 (h : Sound m) (off v : U32) : Sound (m.write32 board k off v) := by
  by_cases hlow : off < ptq
  · exact h.aside (.write32 off v (.inl hlow))
  unfold Module.write32
  rw [if_neg hlow]
  split
  · exact h.writeCtrl v
  split
  · split
    · exact ⟨h.held, h.orphan⟩
    · exact h
  split
  · split
    · exact ⟨h.held, h.orphan⟩
    · exact h
  split
  · split
    · exact ⟨h.held, h.orphan⟩
    · exact h
  split
  · exact h.doorbell v
  split
  · exact ⟨h.held, h.orphan⟩
  · exact h

theorem Sound.act (h : Sound m) (a : Action) : Sound (m.act board k a) := by
  cases a with
  | read32 off => exact h.aside (.read32 off)
  | write32 off v => exact h.write32 off v
  | run cycles => exact h.aside (.run cycles)
  | reset => exact ⟨h.held, fun _ hl => absurd hl Bool.false_ne_true⟩
  | tile op => exact h.aside (.tile op)

theorem Sound.pass (h : Sound m) : Sound (PtaChiplet.pass k m) :=
  h.lands (pass_config k m) (pass_stays k)

/-! ## Memory that is held -/

theorem store_held (s : Board) (p : U64) (b : BitVec 8) : (s.store p b).held = s.held := by
  unfold Board.store
  split
  · rfl
  · rfl

theorem Sound.storeBytes (bs : List (BitVec 8)) :
    ∀ (p : U64) (m : Module Dev Board), Sound m → Sound (PtaChiplet.storeBytes (P := P) (boardHost k) bs p m) := by
  induction bs with
  | nil => exact fun p m h => h
  | cons b bs ih =>
    intro p m h
    have hpass : Sound (PtaChiplet.pass k m) := h.pass
    apply ih
    refine ⟨?_, hpass.orphan⟩
    show Holding ((PtaChiplet.pass k m).host.store p b).held
    rw [store_held]
    exact hpass.held

variable (k) in
theorem storeBytes_held (bs : List (BitVec 8)) : ∀ (p : U64) (m : Module Dev Board),
    (PtaChiplet.storeBytes (P := P) (boardHost k) bs p m).host.held = m.host.held := by
  induction bs with
  | nil => exact fun p m => rfl
  | cons b bs ih =>
    intro p m
    have hpass : (pass k m).host.held = m.host.held := congrArg Config.host (pass_config k m)
    refine (ih (p + 1) _).trans ?_
    show ((pass k m).host.store p b).held = _
    rw [store_held]
    exact hpass

theorem Sound.free (h : Sound m) (buf : Dma) : Sound (boardFree m buf) :=
  ⟨h.held.sublist List.filter_sublist, h.orphan⟩

/-- What the allocator hands out is other memory than what was held. -/
theorem alloc_spec (h : Sound m) (bytes : U64) {ok : Bool} {buf : Dma}
    (halloc : boardAlloc m bytes = (m', ok, buf)) :
    Sound m' ∧ m'.host.mem = m.host.mem ∧ m'.head = m.head ∧ m'.cur = m.cur ∧ m'.trace = m.trace ∧ m'.halted = m.halted ∧
      (cfg m' = { cfg m with host := buf :: m.host.held } ∧ (∀ other ∈ m.host.held, buf.Apart other) ∨
        cfg m' = cfg m ∧ ok = false ∧ buf = {}) := by
  unfold boardAlloc at halloc
  rcases hg : m.host.grants 0 with ⟨ok', buf'⟩
  rw [hg] at halloc
  dsimp only at halloc
  split at halloc
  · next hfresh =>
    cases halloc
    refine ⟨⟨⟨fun b hb => ?_, ?_⟩, h.orphan⟩, rfl, rfl, rfl, rfl, rfl, .inl ⟨rfl, hfresh.2⟩⟩
    · rcases List.mem_cons.mp hb with rfl | hb
      · exact hfresh.1
      · exact h.held.fits b hb
    · exact List.pairwise_cons.mpr ⟨hfresh.2, h.held.apart⟩
  · cases halloc
    exact ⟨⟨h.held, h.orphan⟩, rfl, rfl, rfl, rfl, rfl, .inr ⟨rfl, rfl, rfl⟩⟩

/-! ## The driver between its calls -/

variable (k) in
/-- What holds between the calls. -/
structure World (d : Driver (Module Dev Board) P) : Prop where
  hooked : Hooked k d.dev
  alive : d.dev.queueDead = false
  sound : Sound d.env
  ring : d.dev.queue = true → Ring d.dev (cfg d.env)
  empty : d.dev.queue = true → d.dev.next = d.dev.ended ∧ Empty d.dev.next d.env

theorem Ring.report {dev : Device (Module Dev Board) P} {c : Config (List Dma)} (h : Ring dev c) (present : Bool)
    (error : Error) (refused : U32) (next ended : U32) (last : ℤ) :
    Ring { dev with present, error, refusedImpairments := refused, next, ended, lastIndex := last } c :=
  ⟨h.held, h.log2, h.mem, h.room, h.base, h.size, h.stage⟩

theorem Ring.relink {dev : Device (Module Dev Board) P} {c : Config (List Dma)} (h : Ring dev c)
    (submit : Option (Module Dev Board → PtaTwin.Cmd P → Module Dev Board × Bool)) : Ring { dev with submit } c :=
  ⟨h.held, h.log2, h.mem, h.room, h.base, h.size, h.stage⟩

theorem Hooked.report {dev : Device (Module Dev Board) P} (h : Hooked k dev) (present : Bool) (error : Error)
    (refused : U32) (next ended : U32) (last : ℤ) :
    Hooked k { dev with present, error, refusedImpairments := refused, next, ended, lastIndex := last } :=
  ⟨h.read32, h.write32, h.submit, h.alloc, h.free⟩

namespace World

/-- What a call reports to its caller is the driver's own. -/
theorem report (h : World k d) (present : Bool) (error : Error) (refused : U32) (last : ℤ) :
    World k { d with dev := { d.dev with present, error, refusedImpairments := refused, lastIndex := last } } :=
  ⟨h.hooked.report present error refused d.dev.next d.dev.ended last, h.alive, h.sound,
    fun hq => (h.ring hq).report present error refused d.dev.next d.dev.ended last, h.empty⟩

theorem fail (h : World k d) (error : Error) : World k (d.fail error).1 :=
  h.report d.dev.present error d.dev.refusedImpairments d.dev.lastIndex

theorem calm (h : World k d) (hq : d.dev.queue = true) : Calm d.env :=
  (h.empty hq).2.calm

/-- The module moves on. -/
theorem lands {mem : Bytes} (h : World k d) (hsound : Sound m) (hl : Calm d.env → Lands d.env mem m) :
    World k { d with env := m } :=
  ⟨h.hooked, h.alive, hsound, fun hq => (h.ring hq).lands (hl (h.calm hq)),
    fun hq => ⟨(h.empty hq).1, (h.empty hq).2.lands (hl (h.calm hq))⟩⟩

/-- Without a queue it may do what it likes. -/
theorem off (h : World k d) (hq : d.dev.queue = false) (hsound : Sound m) : World k { d with env := m } :=
  ⟨h.hooked, h.alive, hsound, fun hon => absurd (hq.symm.trans hon) Bool.false_ne_true,
    fun hon => absurd (hq.symm.trans hon) Bool.false_ne_true⟩

theorem pass (h : World k d) : World k { d with env := PtaChiplet.pass k d.env } :=
  h.lands h.sound.pass (pass_stays k)

theorem aside (h : World k d) (a : Aside) : World k { d with env := d.env.act board k a.action } :=
  h.lands (h.sound.aside a) fun hc => aside_stays k hc a

theorem rd (h : World k d) (off : U32) : World k (d.rd off).1 := by
  rw [rd_hooked h.hooked]
  exact h.pass.aside (.read32 off)

theorem wr (h : World k d) (hq : d.dev.queue = false) (off v : U32) : World k (d.wr off v) := by
  rw [wr_hooked h.hooked]
  exact h.pass.off hq (h.sound.pass.write32 off v)

theorem ld32 (h : World k d) (p : U64) : World k (d.ld32 (boardHost k) p).1 :=
  h.pass

theorem ldWords (words : ℕ) : ∀ (p : U64) (d : Driver (Module Dev Board) P), World k d →
    World k (d.ldWords (boardHost k) words p).1 := by
  induction words with
  | zero => exact fun p d h => h
  | succ words ih => exact fun p d h => ih (p + 4) _ (h.ld32 p)

theorem detect (h : World k d) : World k d.detect.1 := by
  have hgone : World k { d with dev := { d.dev with present := false } } :=
    h.report false d.dev.error d.dev.refusedImpairments d.dev.lastIndex
  unfold Driver.detect
  dsimp only
  split
  · exact hgone.fail _
  split
  · exact (hgone.rd _).fail _
  split
  · exact ((hgone.rd _).rd _).fail _
  · exact ((hgone.rd _).rd _).report true .ok _ _

end World

/-! ## Attaching and detaching -/

theorem wr_sound (h : Hooked k d.dev) (hs : Sound d.env) (off v : U32) :
    (d.wr off v).dev = d.dev ∧ Sound (d.wr off v).env := by
  rw [wr_hooked h]
  exact ⟨rfl, hs.pass.write32 off v⟩

theorem free_cases (h : Hooked k d.dev) (buf : Dma) :
    d.free buf = d ∨ d.free buf = { d with env := boardFree d.env buf } := by
  unfold Driver.free
  rcases h.free with hnone | hfree
  · rw [hnone]
    exact .inl rfl
  · rw [hfree]
    exact .inr rfl

theorem free_sound (h : Hooked k d.dev) (hs : Sound d.env) (buf : Dma) :
    (d.free buf).dev = d.dev ∧ Sound (d.free buf).env := by
  rcases free_cases h buf with hfree | hfree
  · rw [hfree]
    exact ⟨rfl, hs⟩
  · rw [hfree]
    exact ⟨rfl, hs.free buf⟩

theorem World.detachQueue (h : World k d) : World k d.detachQueue ∧ d.detachQueue.dev.queue = false := by
  obtain ⟨hdev, hsound⟩ := wr_sound h.hooked h.sound ptqCtrl 0
  have hstage : ∀ d' : Driver (Module Dev Board) P, d' = (if (d.wr ptqCtrl 0).dev.stage.cpu ≠ 0 then
      (d.wr ptqCtrl 0).free (d.wr ptqCtrl 0).dev.stage else d.wr ptqCtrl 0) → d'.dev = d.dev ∧ Sound d'.env := by
    rintro d' rfl
    split
    · obtain ⟨hdev', hsound'⟩ := free_sound (hdev ▸ h.hooked) hsound (d.wr ptqCtrl 0).dev.stage
      exact ⟨hdev'.trans hdev, hsound'⟩
    · exact ⟨hdev, hsound⟩
  unfold Driver.detachQueue
  split
  · next hq => exact ⟨h, by simpa using hq⟩
  dsimp only
  generalize hd' : (if (d.wr ptqCtrl 0).dev.stage.cpu ≠ 0 then _ else _) = d'
  obtain ⟨hdev', hsound'⟩ := hstage d' hd'.symm
  obtain ⟨hdev'', hsound''⟩ := free_sound (hdev' ▸ h.hooked) hsound' d'.dev.ring
  rw [hdev''.trans hdev']
  have hhooked := h.hooked
  exact ⟨⟨⟨hhooked.read32, hhooked.write32, hhooked.submit, hhooked.alloc, hhooked.free⟩, h.alive, hsound'',
    fun hq => absurd hq Bool.false_ne_true, fun hq => absurd hq Bool.false_ne_true⟩, rfl⟩

/-- Memory that may become a ring. -/
structure ForRing (ringLog2 : U32) (ring : Dma) (held : List Dma) : Prop where
  log2 : ringLog2.toNat ≤ 10
  room : 128 * 2 ^ ringLog2.toNat ≤ ring.bytes.toNat
  mem : ring ∈ held

theorem ofInt_toNat {r : ℤ} (hnonneg : 0 ≤ r) (hlt : r < 2 ^ 31) : (BitVec.ofInt 32 r).toNat = r.toNat := by
  rw [BitVec.toNat_ofInt]
  omega

theorem World.ringFor (h : World k d) (hq : d.dev.queue = false) (alloc free : Bool) {ringLog2 : ℤ}
    (hlog : ringLog2 < 2 ^ 31) {d' : Driver (Module Dev Board) P} {ring : Option Dma}
    (hring : d.ringFor (if alloc then some boardAlloc else none) (if free then some boardFree else none) ringLog2 =
      (d', ring)) :
    World k d' ∧ d'.dev = d.dev ∧
      ∀ buf ∈ ring, alloc = true ∧ free = true ∧ ForRing (BitVec.ofInt 32 ringLog2) buf d'.env.host.held := by
  have hid : (d.rd ptqId).1.dev = d.dev := by rw [rd_hooked h.hooked]
  have hcaps : ((d.rd ptqId).1.rd ptqCaps).2 = capsValue := by
    rw [rd_hooked (hid ▸ h.hooked), read32_ptq _ (by decide)]
    rfl
  have hdev : ((d.rd ptqId).1.rd ptqCaps).1.dev = d.dev := by
    rw [rd_hooked (hid ▸ h.hooked)]
    exact hid
  have hread : World k ((d.rd ptqId).1.rd ptqCaps).1 := (h.rd _).rd _
  unfold Driver.ringFor at hring
  rcases hrd : d.rd ptqId with ⟨d₁, id⟩
  rw [hrd] at hring hread hcaps hdev
  rcases hrd' : d₁.rd ptqCaps with ⟨d₂, caps⟩
  dsimp only at hring hread hcaps hdev
  rw [hrd'] at hring hread hcaps hdev
  have hnone : (d₂, none) = (d', ring) → World k d' ∧ d'.dev = d.dev ∧
      ∀ buf ∈ ring, alloc = true ∧ free = true ∧ ForRing (BitVec.ofInt 32 ringLog2) buf d'.env.host.held := by
    intro hsame
    cases hsame
    exact ⟨hread, hdev, fun buf hbuf => absurd hbuf (Option.not_mem_none buf)⟩
  cases alloc with
  | false => exact hnone hring
  | true =>
    cases free with
    | false => exact hnone hring
    | true =>
      dsimp only [if_true] at hring
      rw [if_pos rfl, if_pos rfl] at hring
      dsimp only at hring
      split at hring
      · exact hnone hring
      next hknown =>
      have hq₂ : d₂.dev.queue = false := by
        rw [hdev]
        exact hq
      rcases ha : boardAlloc d₂.env (PtaChiplet.slotBytes <<< ringLog2.toNat) with ⟨env, ok, buf⟩
      rw [ha] at hring
      dsimp only at hring
      obtain ⟨hsound, -, -, -, -, -, hgrant⟩ := alloc_spec hread.sound _ ha
      split at hring
      · -- what the allocator gave is no ring
        split at hring
        · cases hring
          exact ⟨(hread.off hq₂ hsound).off hq₂ (hsound.free buf), hdev, fun b hb => absurd hb (Option.not_mem_none b)⟩
        · cases hring
          exact ⟨hread.off hq₂ hsound, hdev, fun b hb => absurd hb (Option.not_mem_none b)⟩
      · next hgood =>
        cases hring
        refine ⟨hread.off hq₂ hsound, hdev, fun b hb => ?_⟩
        obtain rfl : buf = b := Option.some.inj hb
        obtain ⟨-, -, -, hnonneg, hmost⟩ : _ ∧ _ ∧ _ ∧ 0 ≤ ringLog2 ∧ ¬caps &&& 0x1F < BitVec.ofInt 32 ringLog2 := by
          simpa only [not_or, not_lt] using hknown
        have hmax : (capsValue &&& 0x1F).toNat = 10 := by decide
        dsimp only at hcaps
        have hlog2 : (BitVec.ofInt 32 ringLog2).toNat ≤ 10 := by
          rw [hcaps, BitVec.lt_def, hmax] at hmost
          omega
        have hsize : (PtaChiplet.slotBytes <<< ringLog2.toNat).toNat = 128 * 2 ^ (BitVec.ofInt 32 ringLog2).toNat := by
          have hsame := ofInt_toNat hnonneg hlog
          have hmost' : 2 ^ ringLog2.toNat ≤ 2 ^ 10 := Nat.pow_le_pow_right (by decide) (hsame ▸ hlog2)
          rw [hsame, BitVec.toNat_shiftLeft, Nat.shiftLeft_eq]
          have hslot : PtaChiplet.slotBytes.toNat = 128 := rfl
          rw [hslot, Nat.mod_eq_of_lt (by omega)]
        rcases hgrant with ⟨hheld, -⟩ | ⟨-, hno, -⟩
        · refine ⟨rfl, rfl, hlog2, ?_, ?_⟩
          · rw [← hsize]
            have hroom : ¬buf.bytes < PtaChiplet.slotBytes <<< ringLog2.toNat := fun hlt => hgood (.inr (.inr (.inl hlt)))
            exact BitVec.le_def.mp (BitVec.not_lt.mp hroom)
          · have heq : env.host.held = buf :: d₂.env.host.held := congrArg Config.host hheld
            exact heq ▸ List.mem_cons_self
        · refine absurd (.inl ?_) hgood
          rw [hno]
          rfl

/-! ### A ring is given to the queue -/

/-- The queue is off, and the module has nothing to end. -/
structure Off (d d' : Driver (Module Dev Board) P) : Prop where
  dev : d'.dev = d.dev
  sound : Sound d'.env
  held : d'.env.host.held = d.env.host.held
  calm : Calm d'.env
  enable : d'.env.enable = false

theorem Off.stop (h : Hooked k d.dev) (hs : Sound d.env) : Off d (d.wr ptqCtrl 0) := by
  have hstop : Stopped (pass k d.env) (d.wr ptqCtrl 0).env := by
    rw [wr_hooked h]
    exact writeCtrl_zero k _
  obtain ⟨hdev, hsound⟩ := wr_sound h hs ptqCtrl 0
  have hheld : (pass k d.env).host.held = d.env.host.held := congrArg Config.host (pass_config k d.env)
  refine ⟨hdev, hsound, ?_, ⟨hstop.orphan hs.pass.orphan, .inl hstop.enable⟩, hstop.enable⟩
  rw [hstop.host]
  exact hheld

/-- A register of a queue that is off. -/
theorem Off.wr {d' : Driver (Module Dev Board) P} (h : Hooked k d.dev) (ho : Off d d') {off : U32} (v : U32)
    (hoff : off = ptqBaseLo ∨ off = ptqBaseHi ∨ off = ptqSize) : Off d (d'.wr off v) := by
  have hstays : Stays d'.env (pass k d'.env) := pass_stays k ho.calm
  have henable : (pass k d'.env).enable = false := (congrArg Config.enable hstays.config).trans ho.enable
  have hheld : (pass k d'.env).host.held = d'.env.host.held := congrArg Config.host hstays.config
  have hwrite : ∃ lo hi size, (pass k d'.env).write32 board k off v =
      { pass k d'.env with baseLo := lo, baseHi := hi, sizeLog2 := size } := by
    unfold Module.write32
    rcases hoff with rfl | rfl | rfl
    · exact ⟨v &&& ~~~0xFFF, (pass k d'.env).baseHi, (pass k d'.env).sizeLog2, by simp [henable, ptq, ptqBaseLo, ptqCtrl]⟩
    · exact ⟨(pass k d'.env).baseLo, v, (pass k d'.env).sizeLog2, by simp [henable, ptq, ptqBaseLo, ptqBaseHi, ptqCtrl]⟩
    · refine ⟨(pass k d'.env).baseLo, (pass k d'.env).baseHi, if v ≤ ringLog2Max then v else (pass k d'.env).sizeLog2, ?_⟩
      by_cases hv : v ≤ ringLog2Max
      · simp [henable, hv, ptq, ptqBaseLo, ptqBaseHi, ptqSize, ptqCtrl]
      · rw [if_neg hv]
        have hno : ¬((!(pass k d'.env).enable) = true ∧ v ≤ ringLog2Max) := fun h => hv h.2
        exact if_neg hno
  obtain ⟨lo, hi, size, hwrite⟩ := hwrite
  have horphan := hstays.orphan ho.calm.orphan
  obtain ⟨hdev, hsound⟩ := wr_sound (ho.dev ▸ h) ho.sound off v
  have henv : (d'.wr off v).env = { pass k d'.env with baseLo := lo, baseHi := hi, sizeLog2 := size } := by
    rw [wr_hooked (ho.dev ▸ h)]
    exact hwrite
  refine ⟨hdev.trans ho.dev, hsound, ?_, ?_, ?_⟩
  · rw [henv]
    exact hheld.trans ho.held
  · rw [henv]
    exact ⟨horphan, .inl henable⟩
  · rw [henv]
    exact henable

/-- A ring that is programmed starts empty. -/
theorem program_spec (h : Hooked k d.dev) (hs : Sound d.env) (ring : Dma) (ringLog2 : U32) :
    (d.program ring ringLog2).dev = d.dev ∧ Sound (d.program ring ringLog2).env ∧
      (d.program ring ringLog2).env.host.held = d.env.host.held ∧ Empty 0 (d.program ring ringLog2).env := by
  have hoff : Off d ((((d.wr ptqCtrl 0).wr ptqBaseLo (ring.addr.truncate 32)).wr ptqBaseHi
      ((ring.addr >>> 32).truncate 32)).wr ptqSize ringLog2) :=
    (((Off.stop h hs).wr h _ (.inl rfl)).wr h _ (.inr (.inl rfl))).wr h _ (.inr (.inr rfl))
  have hon : Hooked k ((((d.wr ptqCtrl 0).wr ptqBaseLo (ring.addr.truncate 32)).wr ptqBaseHi
      ((ring.addr >>> 32).truncate 32)).wr ptqSize ringLog2).dev := hoff.dev ▸ h
  obtain ⟨hdev, hempty, -, -, hconfig, -⟩ := restart_spec hon hoff.calm hoff.enable 0
  have hheld := congrArg Config.host hconfig
  obtain ⟨htail, hsound⟩ := wr_sound hon hoff.sound ptqTail 0
  obtain ⟨-, hsound'⟩ := wr_sound (htail ▸ hon) hsound ptqCtrl ptqEnable
  exact ⟨hdev.trans hoff.dev, hsound', hheld.trans hoff.held, hempty⟩

/-- Registers of the queue that the driver has read. -/
structure Looked (d d' : Driver (Module Dev Board) P) : Prop where
  dev : d'.dev = d.dev
  sound : Sound d'.env
  stays : Stays d.env d'.env

theorem Looked.rd {d' : Driver (Module Dev Board) P} (h : Hooked k d.dev) (hc : Calm d.env) (hl : Looked d d')
    (off : U32) (hoff : ¬off < ptq) :
    Looked d (d'.rd off).1 ∧ (d'.rd off).2 = (d'.rd off).1.env.ptqWord off := by
  obtain ⟨hdev, hstays, hword⟩ := rd_calm (hl.dev ▸ h) (hl.stays.calm hc) off hoff
  have hsound : Sound (d'.rd off).1.env := by
    rw [rd_hooked (hl.dev ▸ h)]
    exact hl.sound.pass.aside (k := k) (.read32 off)
  exact ⟨⟨hdev.trans hl.dev, hsound, hl.stays.trans hstays⟩, hword⟩

/-- What has been read back is the ring that the module has. -/
theorem readBack_spec (h : Hooked k d.dev) (hs : Sound d.env) (hc : Calm d.env) (ring : Dma) (ringLog2 : U32)
    {d' : Driver (Module Dev Board) P} {ok : Bool} (hread : d.readBack ring ringLog2 = (d', ok)) :
    Looked d d' ∧ (ok = true → ((d'.env.baseHi.zeroExtend 64 <<< 32) ||| (d'.env.baseLo &&& ~~~0xFFF).zeroExtend 64 =
      ring.addr ∧ d'.env.sizeLog2 = ringLog2)) := by
  have hnone : Looked d d := ⟨rfl, hs, .refl d.env⟩
  obtain ⟨h₁, hstatus⟩ := hnone.rd h hc ptqStatus (by decide)
  unfold Driver.readBack at hread
  rcases hr₁ : d.rd ptqStatus with ⟨d₁, status⟩
  rw [hr₁] at hread h₁
  dsimp only at hread h₁
  split at hread
  · cases hread
    exact ⟨h₁, fun h => absurd h Bool.false_ne_true⟩
  obtain ⟨h₂, hlo⟩ := h₁.rd h hc ptqBaseLo (by decide)
  rcases hr₂ : d₁.rd ptqBaseLo with ⟨d₂, lo⟩
  rw [hr₂] at hread h₂ hlo
  dsimp only at hread h₂ hlo
  split at hread
  · cases hread
    exact ⟨h₂, fun h => absurd h Bool.false_ne_true⟩
  next hlo' =>
  obtain ⟨h₃, hhi⟩ := h₂.rd h hc ptqBaseHi (by decide)
  rcases hr₃ : d₂.rd ptqBaseHi with ⟨d₃, hi⟩
  rw [hr₃] at hread h₃ hhi
  dsimp only at hread h₃ hhi
  split at hread
  · cases hread
    exact ⟨h₃, fun h => absurd h Bool.false_ne_true⟩
  next hhi' =>
  obtain ⟨h₄, hsize⟩ := h₃.rd h hc ptqSize (by decide)
  rcases hr₄ : d₃.rd ptqSize with ⟨d₄, size⟩
  rw [hr₄] at hread h₄ hsize
  dsimp only at hread h₄ hsize
  cases hread
  refine ⟨h₄, fun hok => ?_⟩
  have hlow : d'.env.baseLo &&& ~~~0xFFF = ring.addr.truncate 32 := by
    have hsame : d'.env.baseLo = d₂.env.baseLo :=
      congrArg Config.baseLo (h₄.stays.config.trans h₂.stays.config.symm)
    rw [hsame]
    exact hlo.symm.trans (not_not.mp hlo')
  have hhigh : d'.env.baseHi = (ring.addr >>> 32).truncate 32 := by
    have hsame : d'.env.baseHi = d₃.env.baseHi :=
      congrArg Config.baseHi (h₄.stays.config.trans h₃.stays.config.symm)
    rw [hsame]
    exact hhi.symm.trans (not_not.mp hhi')
  rw [hlow, hhigh]
  exact ⟨halves ring.addr, hsize.symm.trans (beq_iff_eq.mp hok)⟩

variable (k) in
/-- A device whose queue has just been set up, or a queue that was not taken. -/
theorem World.giveRing (h : World k d) (hq : d.dev.queue = false) {ring : Dma} {ringLog2 : U32}
    (hfor : ForRing ringLog2 ring d.env.host.held) :
    World k (d.giveRing (boardHost k) (some boardAlloc) (some boardFree) ringLog2 ring).1 := by
  have hstored : Sound (storeBytes (P := P) (boardHost k) (List.replicate ring.bytes.toNat 0) ring.cpu d.env) :=
    Sound.storeBytes _ _ _ h.sound
  have hsame := storeBytes_held (P := P) k (List.replicate ring.bytes.toNat 0) ring.cpu d.env
  unfold Driver.giveRing
  dsimp only
  generalize storeBytes (P := P) (boardHost k) (List.replicate ring.bytes.toNat 0) ring.cpu d.env = env at *
  obtain ⟨hdev, hsound, hheld, hempty⟩ := program_spec (d := { d with env := env }) h.hooked hstored ring ringLog2
  rcases hread : Driver.readBack (Driver.program { d with env := env } ring ringLog2) ring ringLog2 with ⟨d', ok⟩
  obtain ⟨hl, hback⟩ := readBack_spec (hdev ▸ h.hooked) hsound hempty.calm ring ringLog2 hread
  have hdev' : d'.dev = d.dev := hl.dev.trans hdev
  cases ok with
  | false =>
    dsimp only
    obtain ⟨hstop, hsound'⟩ := wr_sound (hdev' ▸ h.hooked) hl.sound ptqCtrl 0
    have hq' : (d'.wr ptqCtrl 0).dev.queue = false := by
      rw [hstop, hdev']
      exact hq
    have hworld : World k (d'.wr ptqCtrl 0) := by
      refine ⟨?_, ?_, hsound', fun hon => absurd (hq'.symm.trans hon) Bool.false_ne_true,
        fun hon => absurd (hq'.symm.trans hon) Bool.false_ne_true⟩
      · rw [hstop, hdev']
        exact h.hooked
      · rw [hstop, hdev']
        exact h.alive
    exact (hworld.off hq' (hsound'.free ring)).fail _
  | true =>
    dsimp only
    obtain ⟨hbase, hsize⟩ := hback rfl
    have hhooked : Hooked k d'.dev := hdev' ▸ h.hooked
    have hheld' : d'.env.host.held = d.env.host.held :=
      (congrArg Config.host hl.stays.config).trans (hheld.trans hsame)
    refine ⟨⟨hhooked.read32, hhooked.write32, hhooked.submit, .inr rfl, .inr rfl⟩, rfl, hl.sound, fun _ => ?_,
      fun _ => ⟨rfl, hempty.lands hl.stays⟩⟩
    refine ⟨hl.sound.held, hfor.log2, ?_, hfor.room, hbase, hsize, .inl rfl⟩
    show ring ∈ d'.env.host.held
    rw [hheld']
    exact hfor.mem

theorem World.attachQueue (h : World k d) (alloc free : Bool) {ringLog2 : ℤ} (hlog : ringLog2 < 2 ^ 31) :
    World k (d.attachQueue (boardHost k) (if alloc then some boardAlloc else none)
      (if free then some boardFree else none) ringLog2).1 := by
  obtain ⟨hoff, hq⟩ := h.detachQueue
  unfold Driver.attachQueue
  split
  · exact h.fail _
  rcases hring : d.detachQueue.ringFor (if alloc then some boardAlloc else none)
    (if free then some boardFree else none) ringLog2 with ⟨d', ring⟩
  obtain ⟨hworld, hdev, hfor⟩ := hoff.ringFor hq alloc free hlog hring
  cases ring with
  | none => exact hworld.fail _
  | some ring =>
    obtain ⟨rfl, rfl, hgood⟩ := hfor ring rfl
    exact hworld.giveRing k (hdev ▸ hq) hgood

/-! ## The staging buffer -/

/-- Other memory is held, or has become the staging buffer. -/
theorem World.rehold (h : World k d) {held : List Dma} {stage : Dma} (hsound : Sound m)
    (hconfig : cfg m = { cfg d.env with host := held }) (hhead : m.head = d.env.head) (hcur : m.cur = d.env.cur)
    (hring : d.dev.queue = true → d.dev.ring ∈ held)
    (hstage : d.dev.queue = true → stage.bytes = 0 ∨ stage ∈ held ∧ stage.Apart d.dev.ring) :
    World k { d with env := m, dev := { d.dev with stage := stage } } := by
  have hhooked := h.hooked
  refine ⟨⟨hhooked.read32, hhooked.write32, hhooked.submit, hhooked.alloc, hhooked.free⟩, h.alive, hsound,
    fun hq => ?_, fun hq => ?_⟩
  · have hold := h.ring hq
    have hheld : m.host.held = held := congrArg Config.host hconfig
    refine ⟨hsound.held, hold.log2, ?_, hold.room, ?_, ?_, ?_⟩
    · show d.dev.ring ∈ m.host.held
      rw [hheld]
      exact hring hq
    · rw [hconfig]
      exact hold.base
    · rw [hconfig]
      exact hold.size
    · rw [hconfig]
      exact hstage hq
  · obtain ⟨hnone, hempty⟩ := h.empty hq
    refine ⟨hnone, ?_, hhead.trans hempty.head, ?_, ?_⟩
    · exact (congrArg Config.enable hconfig).trans hempty.enable
    · exact (congrArg Config.tail hconfig).trans hempty.tail
    · rw [hcur]
      exact hempty.orphan

theorem Ring.stage_ne {dev : Device (Module Dev Board) P} {c : Config (List Dma)} (h : Ring dev c) :
    dev.ring ≠ dev.stage := by
  intro hsame
  have hroom := h.room
  have hpos : 0 < 2 ^ dev.ringLog2.toNat := Nat.two_pow_pos _
  rcases h.stage with hnone | ⟨-, hapart, -⟩
  · rw [hsame, hnone] at hroom
    have hzero : (0 : U64).toNat = 0 := rfl
    omega
  · rw [← hsame] at hapart
    omega

/-- The staging buffer that is too small goes back. -/
theorem World.dropStage (h : World k d) (hq : d.dev.queue = true) :
    ∀ d₁, d₁ = (if d.dev.stage.cpu ≠ 0 then d.free d.dev.stage else d) →
      d₁.dev = d.dev ∧ World k { d₁ with dev := { d₁.dev with stage := {} } } := by
  rintro d₁ rfl
  have hring := h.ring hq
  have hsame : World k { d with dev := { d.dev with stage := {} } } :=
    h.rehold h.sound rfl rfl rfl (fun _ => hring.mem) fun _ => .inl rfl
  split
  · rcases free_cases h.hooked d.dev.stage with hfree | hfree
    · rw [hfree]
      exact ⟨rfl, hsame⟩
    · rw [hfree]
      refine ⟨rfl, h.rehold (h.sound.free _) rfl rfl rfl (fun _ => ?_) fun _ => .inl rfl⟩
      exact List.mem_filter.mpr ⟨hring.mem, decide_eq_true hring.stage_ne⟩
  · exact ⟨rfl, hsame⟩

theorem World.stageFor (h : World k d) (hq : d.dev.queue = true) {bytes : U64}
    {d' : Driver (Module Dev Board) P} {ok : Bool} (hstage : d.stageFor bytes = (d', ok)) :
    World k d' ∧ (∃ stage, d'.dev = { d.dev with stage := stage }) ∧ (ok = true → bytes ≤ d'.dev.stage.bytes) := by
  unfold Driver.stageFor at hstage
  split at hstage
  · next hfits =>
    cases hstage
    exact ⟨h, ⟨d.dev.stage, rfl⟩, fun _ => BitVec.not_lt.mp hfits⟩
  dsimp only at hstage
  generalize hd₁ : (if d.dev.stage.cpu ≠ 0 then d.free d.dev.stage else d) = d₁ at hstage
  obtain ⟨hdev, hdropped⟩ := h.dropStage hq d₁ hd₁.symm
  rw [hdev] at hstage hdropped
  have halloc := hdropped.hooked.alloc
  dsimp only at hstage halloc
  split at hstage
  · cases hstage
    exact ⟨hdropped, ⟨{}, rfl⟩, fun h => absurd h Bool.false_ne_true⟩
  next alloc hsome =>
  obtain rfl : alloc = boardAlloc := by
    rcases halloc with hnone | halloc
    · exact absurd (hnone.symm.trans hsome) (Option.some_ne_none alloc).symm
    · exact Option.some.inj (hsome.symm.trans halloc)
  rcases ha : boardAlloc d₁.env bytes with ⟨env, ok', buf⟩
  rw [ha] at hstage
  dsimp only at hstage
  obtain ⟨hsound, -, hhead, hcur, -, -, hgrant⟩ := alloc_spec hdropped.sound bytes ha
  have hring : d.dev.ring ∈ d₁.env.host.held := (hdropped.ring hq).mem
  rcases hgrant with ⟨hconfig, hapart⟩ | ⟨hconfig, rfl, rfl⟩
  · have hbuf : buf.Apart d.dev.ring := hapart _ hring
    have hnone : World k { d with env := env, dev := { d.dev with stage := {} } } :=
      hdropped.rehold hsound hconfig hhead hcur (fun _ => List.mem_cons_of_mem _ hring) fun _ => .inl rfl
    have hwith : World k { d with env := env, dev := { d.dev with stage := buf } } :=
      hdropped.rehold hsound hconfig hhead hcur (fun _ => List.mem_cons_of_mem _ hring) fun _ =>
        .inr ⟨List.mem_cons_self, hbuf⟩
    split at hstage
    · split at hstage
      · cases hstage
        have hne : d.dev.ring ≠ buf := by
          intro hsame
          have hpos : 0 < 2 ^ d.dev.ringLog2.toNat := Nat.two_pow_pos _
          have hroom : 128 * 2 ^ d.dev.ringLog2.toNat ≤ d.dev.ring.bytes.toNat := (hdropped.ring hq).room
          obtain ⟨hcpu, -⟩ := hbuf
          rw [← hsame] at hcpu
          omega
        have hkept : d.dev.ring ∈ (boardFree env buf).host.held := by
          have hheld : env.host.held = buf :: d₁.env.host.held := congrArg Config.host hconfig
          apply List.mem_filter.mpr
          exact ⟨hheld ▸ List.mem_cons_of_mem _ hring, decide_eq_true hne⟩
        refine ⟨?_, ⟨{}, ?_⟩, fun h => absurd h Bool.false_ne_true⟩
        · rcases free_cases hwith.hooked buf with hfree | hfree
          · rw [hfree]
            exact hnone
          · rw [hfree]
            exact hnone.rehold (hsound.free buf) rfl rfl rfl (fun _ => hkept) fun _ => .inl rfl
        · rcases free_cases hwith.hooked buf with hfree | hfree
          · rw [hfree]
          · rw [hfree]
      · cases hstage
        exact ⟨hnone, ⟨{}, rfl⟩, fun h => absurd h Bool.false_ne_true⟩
    · next hgood =>
        cases hstage
        refine ⟨hwith, ⟨buf, rfl⟩, fun _ => ?_⟩
        have hroom : ¬buf.bytes < bytes := fun hlt => hgood (.inr (.inr (.inl hlt)))
        exact BitVec.not_lt.mp hroom
  · -- the allocator has nothing to give
    have hnone : World k { d with env := env, dev := { d.dev with stage := {} } } :=
      hdropped.rehold hsound hconfig hhead hcur (fun _ => hring) fun _ => .inl rfl
    rw [if_pos (.inl rfl), if_neg (by decide)] at hstage
    cases hstage
    exact ⟨hnone, ⟨{}, rfl⟩, fun h => absurd h Bool.false_ne_true⟩

end Grxcp.PtaChiplet
