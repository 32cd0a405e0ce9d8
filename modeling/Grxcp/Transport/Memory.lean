import Grxcp.Transport.Invariant

/-!
# Whose a line of memory is

The slots of the ring and the buffers of the commands are apart from each other, so a store that belongs
to one command leaves what is said of the others (`Book.elsewhere`), and a line of a pending command's
lands on nothing that the host has ended (`Book.landing`).
-/

namespace Grxcp.BoardTransport

open Sim

variable {mem mem' : ℕ → Line} {idx idx' x : ℕ} {c c' : Published}

/-! ## What is said of a command rests on its own lines -/

/-- The buffers of a command have the lines they had. -/
def SameBuffers (mem mem' : ℕ → Line) (c : Published) : Prop :=
  ∀ y, c.act ≤ y → y < c.top → mem' y = mem y

theorem Published.Wf.out_line (h : c.Wf) {i : ℕ} (hi : i < c.outLines) :
    c.act ≤ c.out + i * LINE ∧ c.out + i * LINE < c.top := by
  have hmul : i * 64 < c.outLines * 64 := Nat.mul_lt_mul_of_pos_right hi (by decide)
  have hw : c.wgt = c.act + lines (c.M * c.K) * 64 := h.wgt
  have ho : c.out = c.wgt + lines (c.K * c.N) * 64 := h.out
  unfold Published.top
  change c.act ≤ c.out + i * 64 ∧ c.out + i * 64 < c.out + c.outLines * 64
  omega

theorem Published.Wf.act_line (h : c.Wf) {i : ℕ} (hi : i < lines (c.M * c.K)) :
    c.act ≤ c.act + i * LINE ∧ c.act + i * LINE < c.top := by
  have hmul : i * 64 < lines (c.M * c.K) * 64 := Nat.mul_lt_mul_of_pos_right hi (by decide)
  have hw : c.wgt = c.act + lines (c.M * c.K) * 64 := h.wgt
  have ho : c.out = c.wgt + lines (c.K * c.N) * 64 := h.out
  unfold Published.top
  change c.act ≤ c.act + i * 64 ∧ c.act + i * 64 < c.out + c.outLines * 64
  omega

theorem Published.Wf.wgt_line (h : c.Wf) {i : ℕ} (hi : i < lines (c.K * c.N)) :
    c.act ≤ c.wgt + i * LINE ∧ c.wgt + i * LINE < c.top := by
  have hmul : i * 64 < lines (c.K * c.N) * 64 := Nat.mul_lt_mul_of_pos_right hi (by decide)
  have hw : c.wgt = c.act + lines (c.M * c.K) * 64 := h.wgt
  have ho : c.out = c.wgt + lines (c.K * c.N) * 64 := h.out
  unfold Published.top
  change c.act ≤ c.wgt + i * 64 ∧ c.wgt + i * 64 < c.out + c.outLines * 64
  omega

theorem Untouched.congr (h : Untouched mem c) (hwf : c.Wf) (hb : SameBuffers mem mem' c) : Untouched mem' c :=
    fun i hi =>
  (hb _ (hwf.out_line hi).1 (hwf.out_line hi).2).trans (h i hi)

theorem Finished.congr {index : ℕ} (h : Finished mem c index) (hwf : c.Wf) (hb : SameBuffers mem mem' c) :
    Finished mem' c index := fun i hi =>
  (hb _ (hwf.out_line hi).1 (hwf.out_line hi).2).trans (h i hi)

theorem Operands.congr (h : Operands mem c) (hwf : c.Wf) (hb : SameBuffers mem mem' c) : Operands mem' c :=
  ⟨fun i hi => (hb _ (hwf.act_line hi).1 (hwf.act_line hi).2).trans (h.1 i hi),
    fun i hi => (hb _ (hwf.wgt_line hi).1 (hwf.wgt_line hi).2).trans (h.2 i hi)⟩

theorem Told.congr {st index : ℕ} (h : Told mem c st index) (hwf : c.Wf) (hb : SameBuffers mem mem' c) :
    Told mem' c st index :=
  h.imp (fun ⟨hst, hf⟩ => ⟨hst, hf.congr hwf hb⟩) fun ⟨hst, hi, hu⟩ => ⟨hst, hi, hu.congr hwf hb⟩

theorem Fresh.congr (h : Fresh mem idx c) (hwf : c.Wf) (hs : mem' (slotAddr idx) = mem (slotAddr idx))
    (hb : SameBuffers mem mem' c) : Fresh mem' idx c :=
  ⟨hs.trans h.1, h.2.1.congr hwf hb, h.2.2.congr hwf hb⟩

theorem Recorded.congr (h : Recorded mem idx c) (hwf : c.Wf) (hs : mem' (slotAddr idx) = mem (slotAddr idx))
    (hb : SameBuffers mem mem' c) : Recorded mem' idx c := by
  obtain ⟨st, index, hm, htold⟩ := h
  exact ⟨st, index, hs.trans hm, htold.congr hwf hb⟩

theorem Kept.congr (h : Kept mem idx c) (hs : mem' (slotAddr idx) = mem (slotAddr idx)) : Kept mem' idx c := by
  unfold Kept
  rw [hs]
  exact h

theorem Published.Wf.desc_length (h : c.Wf) : c.desc.length = LINE := by
  rw [h.desc]
  exact packDesc_length _ _ _ _ _ _ _ _ _

theorem Fresh.kept (h : Fresh mem idx c) (hwf : c.Wf) : Kept mem idx c := by
  unfold Kept
  rw [h.1]
  exact ⟨hwf.desc_length, rfl⟩

theorem Recorded.kept (h : Recorded mem idx c) (hwf : c.Wf) : Kept mem idx c := by
  obtain ⟨st, index, hm, -⟩ := h
  unfold Kept
  rw [hm]
  exact ⟨recordOf_length hwf.desc_length _ _, recordOf_take hwf.desc_length _ _⟩

/-! ## Slots and buffers -/

theorem slotAddr_lt (idx : ℕ) : slotAddr idx < BUF := by
  unfold slotAddr
  change 65536 + idx % 8 * 128 < 131072
  omega

/-- Two slots of a window of the ring are two lines. -/
theorem slotAddr_ne {lo : ℕ} (hi : lo ≤ idx) (hi' : idx < lo + 2 ^ RING_LOG2) (hj : lo ≤ idx')
    (hj' : idx' < lo + 2 ^ RING_LOG2) (hne : idx ≠ idx') : slotAddr idx ≠ slotAddr idx' := by
  unfold slotAddr
  change idx < lo + 8 at hi'
  change idx' < lo + 8 at hj'
  change 65536 + idx % 8 * 128 ≠ 65536 + idx' % 8 * 128
  omega

/-- The line is the slot of the command, or one of its results. -/
def Belongs (idx : ℕ) (c : Published) (x : ℕ) : Prop :=
  (∃ i, i < c.outLines ∧ x = c.out + i * LINE) ∨ x = slotAddr idx

namespace Book

variable {h : Host}

theorem window (hb : Book h) (hc : h.cmds idx = some c) : idx < h.hhead + 2 ^ RING_LOG2 :=
  ((hb.wf idx c hc).2.2).trans_le hb.room

/-- Slots are below every buffer. -/
theorem slot_ne (hb : Book h) (hc : h.cmds idx = some c) {y : ℕ} (hy : c.act ≤ y) : slotAddr idx' ≠ y :=
  ((slotAddr_lt idx').trans_le ((hb.wf idx c hc).1.above.trans hy)).ne

/-- What belongs to one pending command is no line of another. -/
theorem elsewhere (hb : Book h) (hle : h.hhead ≤ idx) (hc : h.cmds idx = some c) (hx : Belongs idx c x)
    (hle' : h.hhead ≤ idx') (hc' : h.cmds idx' = some c') (hne : idx' ≠ idx) :
    slotAddr idx' ≠ x ∧ ∀ y, c'.act ≤ y → y < c'.top → y ≠ x := by
  have hwf := (hb.wf idx c hc).1
  rcases hx with ⟨i, hi, rfl⟩ | rfl
  · obtain ⟨hlo, hhi⟩ := hwf.out_line hi
    refine ⟨hb.slot_ne hc hlo, fun y hy hy' he => ?_⟩
    subst he
    rcases Nat.lt_or_gt_of_ne hne with hlt | hlt
    · exact absurd (hy'.trans_le (hb.apart idx' idx c' c hlt hc' hc)) hlo.not_gt
    · exact absurd (hhi.trans_le (hb.apart idx idx' c c' hlt hc hc')) hy.not_gt
  · exact ⟨slotAddr_ne hle' (hb.window hc') hle (hb.window hc) hne, fun y hy _ => (hb.slot_ne hc' hy).symm⟩

/-- A pending command's line lands on nothing that the host has ended. -/
theorem landing {s : Sim} (hb : Book s.host) (hle : s.host.hhead ≤ idx) (hc : s.host.cmds idx = some c)
    (hx : Belongs idx c x) : s.landing x = s := by
  have hpending : idx ∉ s.host.ended := fun hin => absurd ((hb.ended idx).mp hin) hle.not_gt
  have hwf := (hb.wf idx c hc).1
  unfold Sim.landing
  dsimp only
  rcases hx with ⟨i, hi, rfl⟩ | rfl
  · simp only [hb.owner idx c hc i hi, if_neg hpending]
    -- a buffer is past the ring
    refine if_neg fun hring => ?_
    have hlo := hwf.above.trans (hwf.out_line hi).1
    change 131072 ≤ _ at hlo
    have hhi : c.out + i * LINE < 65536 + 8 * 128 := hring.2
    omega
  · have hnone : s.host.owner (slotAddr idx) = none := by
      cases how : s.host.owner (slotAddr idx) with
      | none => rfl
      | some idx' =>
        obtain ⟨c', hc', hlo, -⟩ := hb.owned _ _ how
        have hwf' := (hb.wf idx' c' hc').1
        have hlow := slotAddr_lt idx
        have habove := hwf'.above
        have hw : c'.wgt = c'.act + lines (c'.M * c'.K) * 64 := hwf'.wgt
        have ho : c'.out = c'.wgt + lines (c'.K * c'.N) * 64 := hwf'.out
        omega
    have hslot : (slotAddr idx - RING) / SLOT = idx % 2 ^ RING_LOG2 := by
      unfold slotAddr
      change (65536 + idx % 8 * 128 - 65536) / 128 = idx % 8
      omega
    have hof := hb.slotOf idx (hb.wf idx c hc).2.2 (hb.room.trans (Nat.add_le_add_right hle _))
    simp only [hnone, hslot, hof, if_neg hpending, ite_self]

/-- A store that belongs to a pending command leaves the others as they are. -/
theorem update_fresh (hb : Book h) (hle : h.hhead ≤ idx) (hc : h.cmds idx = some c) (hx : Belongs idx c x) (data : Line)
    (hle' : h.hhead ≤ idx') (hc' : h.cmds idx' = some c') (hne : idx' ≠ idx) (hf : Fresh mem idx' c') :
    Fresh (Function.update mem x data) idx' c' := by
  obtain ⟨hslot, hbuf⟩ := hb.elsewhere hle hc hx hle' hc' hne
  exact hf.congr (hb.wf idx' c' hc').1 (Function.update_of_ne hslot _ _) fun y hy hy' =>
    Function.update_of_ne (hbuf y hy hy') _ _

theorem update_recorded (hb : Book h) (hle : h.hhead ≤ idx) (hc : h.cmds idx = some c) (hx : Belongs idx c x)
    (data : Line)
    (hle' : h.hhead ≤ idx') (hc' : h.cmds idx' = some c') (hne : idx' ≠ idx) (hr : Recorded mem idx' c') :
    Recorded (Function.update mem x data) idx' c' := by
  obtain ⟨hslot, hbuf⟩ := hb.elsewhere hle hc hx hle' hc' hne
  exact hr.congr (hb.wf idx' c' hc').1 (Function.update_of_ne hslot _ _) fun y hy hy' =>
    Function.update_of_ne (hbuf y hy hy') _ _

theorem update_kept (hb : Book h) (hle : h.hhead ≤ idx) (hc : h.cmds idx = some c) (hx : Belongs idx c x) (data : Line)
    (hle' : h.hhead ≤ idx') (hc' : h.cmds idx' = some c') (hne : idx' ≠ idx) (hk : Kept mem idx' c') :
    Kept (Function.update mem x data) idx' c' :=
  hk.congr (Function.update_of_ne (hb.elsewhere hle hc hx hle' hc' hne).1 _ _)

/-- A store in a slot leaves every buffer. -/
theorem update_slot (hb : Book h) (hc : h.cmds idx = some c) (data : Line) :
    SameBuffers mem (Function.update mem (slotAddr idx') data) c := fun _ hy _ =>
  Function.update_of_ne (hb.slot_ne hc hy).symm _ _

/-- A store in a buffer leaves every slot. -/
theorem update_buffer (hb : Book h) (hc : h.cmds idx = some c) {y : ℕ} (hy : c.act ≤ y) (data : Line) :
    Function.update mem y data (slotAddr idx') = mem (slotAddr idx') :=
  Function.update_of_ne (hb.slot_ne hc hy) _ _

end Book

end Grxcp.BoardTransport
