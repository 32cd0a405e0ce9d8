import Grxcp.Transport.Reads
import Grxcp.Transport.Memory

/-!
# Publishing

`publish` stores a command's operands and its filled results' buffer past every buffer before, notes whose
the lines of results are, and writes the descriptor into a slot that the host has ended (`publish_eq`).
What the module is at is not touched (`Sim.Doing.publish`), and the books keep their shape
(`Book.publish`).
-/

namespace Grxcp.BoardTransport

open Agenda Runs Sim

variable {s s' : Sim} {a : Activity}

/-! ## Stores -/

theorem storeLines_eq (raw : Line) (x n : ℕ) (s : Sim) :
    ∃ mem, storeLines raw x n s = { s with mem := mem } ∧ (∀ i, i < n → mem (x + i * LINE) = lineOf raw i) ∧
      ∀ y, (y < x ∨ x + n * LINE ≤ y) → mem y = s.mem y := by
  induction n with
  | zero => exact ⟨s.mem, rfl, fun i hi => absurd hi (Nat.not_lt_zero i), fun _ _ => rfl⟩
  | succ n ih =>
    obtain ⟨mem, heq, hin, hout⟩ := ih
    refine ⟨Function.update mem (x + n * LINE) (lineOf raw n), ?_, fun i hi => ?_, fun y hy => ?_⟩
    · unfold storeLines
      rw [heq]
      rfl
    · rcases Nat.lt_succ_iff_lt_or_eq.mp hi with hi | rfl
      · have hne : x + i * LINE ≠ x + n * LINE := by
          change x + i * 64 ≠ x + n * 64
          omega
        rw [Function.update_of_ne hne]
        exact hin i hi
      · exact Function.update_self _ _ _
    · change y < x ∨ x + (n + 1) * 64 ≤ y at hy
      have hne : y ≠ x + n * 64 := by omega
      rw [Function.update_of_ne hne]
      refine hout y ?_
      change y < x ∨ x + n * 64 ≤ y
      omega

/-- A new buffer is where the last one ended. -/
theorem take_eq (s : Sim) (nbytes : ℕ) (fill : BitVec 8) (data : Line) :
    ∃ mem, s.take nbytes fill data =
        ({ s with mem := mem, host := { s.host with alloc := s.host.alloc + lines nbytes * LINE } }, s.host.alloc) ∧
      (∀ i, i < lines nbytes → mem (s.host.alloc + i * LINE) = lineOf (padded nbytes fill data) i) ∧
      ∀ y, (y < s.host.alloc ∨ s.host.alloc + lines nbytes * LINE ≤ y) → mem y = s.mem y := by
  obtain ⟨mem, heq, hin, hout⟩ := storeLines_eq (padded nbytes fill data) s.host.alloc (lines nbytes) s
  refine ⟨mem, ?_, hin, hout⟩
  unfold Sim.take
  dsimp only
  unfold padded at heq
  rw [heq]
  rfl

theorem own_eq (idx out n : ℕ) (s : Sim) :
    ∃ owner, own idx out n s = { s with host := { s.host with owner := owner } } ∧
      (∀ i, i < n → owner (out + i * LINE) = some idx) ∧
      ∀ y, (∀ i, i < n → y ≠ out + i * LINE) → owner y = s.host.owner y := by
  induction n with
  | zero => exact ⟨s.host.owner, rfl, fun i hi => absurd hi (Nat.not_lt_zero i), fun _ _ => rfl⟩
  | succ n ih =>
    obtain ⟨owner, heq, hin, hout⟩ := ih
    refine ⟨Function.update owner (out + n * LINE) (some idx), ?_, fun i hi => ?_, fun y hy => ?_⟩
    · unfold own
      rw [heq]
      rfl
    · by_cases hne : out + i * LINE = out + n * LINE
      · rw [hne]
        exact Function.update_self _ _ _
      · rw [Function.update_of_ne hne]
        refine hin i (lt_of_le_of_ne (Nat.le_of_lt_succ hi) fun he => hne ?_)
        rw [he]
    · rw [Function.update_of_ne (hy n (Nat.lt_succ_self n))]
      exact hout y fun i hi => hy i (Nat.lt_succ_of_lt hi)

theorem lineOf_fill (nbytes : ℕ) {i : ℕ} (hi : i < lines nbytes) :
    lineOf (padded nbytes SENTINEL []) i = List.replicate LINE SENTINEL := by
  unfold lineOf padded
  rw [List.nil_append, List.drop_replicate, List.take_replicate, List.length_nil, Nat.sub_zero]
  refine congrArg (List.replicate · SENTINEL) (Nat.min_eq_left ?_)
  have hmul : (i + 1) * 64 ≤ lines nbytes * 64 := Nat.mul_le_mul_right _ hi
  change 64 ≤ lines nbytes * 64 - i * 64
  omega

/-! ## A command is published -/

/-- A command that packs, and whose buffers are in the address space. -/
structure Cmd.Packs (c : Cmd) (alloc : ℕ) : Prop where
  pos : 0 < c.M ∧ 0 < c.K ∧ 0 < c.N
  fits : c.M < 2 ^ 32 ∧ c.N < 2 ^ 32 ∧ c.fmt < 2 ^ 32
  inner : c.K < 2 ^ 17
  target : (c.bank * 2 ^ 8 ||| c.flags) < 2 ^ 32
  lenA : c.A.length = c.M * c.K
  lenW : c.W.length = c.K * c.N
  space : alloc + (lines (c.M * c.K) + lines (c.K * c.N) + lines (c.M * c.N * R_BYTES)) * LINE ≤ 2 ^ 64

/-- What `publish` makes of a command. -/
def Cmd.published (c : Cmd) (alloc seed : ℕ) : Published :=
  let wgt := alloc + lines (c.M * c.K) * LINE
  let out := wgt + lines (c.K * c.N) * LINE
  { c with
    act := alloc, wgt := wgt, out := out, outLines := lines (c.M * c.N * R_BYTES), seed := seed,
    desc := packDesc (2 ^ 16 + 64) (c.bank * 2 ^ 8 ||| c.flags) c.fmt c.M c.K c.N alloc wgt out }

theorem Cmd.Packs.wf {c : Cmd} {alloc : ℕ} (h : c.Packs alloc) (habove : BUF ≤ alloc) (seed : ℕ) :
    (c.published alloc seed).Wf ∧
      (c.published alloc seed).top =
        alloc + (lines (c.M * c.K) + lines (c.K * c.N) + lines (c.M * c.N * R_BYTES)) * LINE := by
  have htop : (c.published alloc seed).top =
      alloc + (lines (c.M * c.K) + lines (c.K * c.N) + lines (c.M * c.N * R_BYTES)) * LINE := by
    unfold Published.top Cmd.published
    dsimp only
    rw [Nat.add_mul, Nat.add_mul, Nat.add_assoc, Nat.add_assoc, Nat.add_assoc]
  exact ⟨⟨h.pos, h.fits, h.inner, h.target, h.lenA, h.lenW, rfl, rfl, rfl, habove, htop.trans_le h.space, rfl⟩, htop⟩

/-- The books with one command more. -/
abbrev Host.publish (h : Host) (p : Published) (owner : ℕ → Option ℕ) : Host :=
  { h with
    alloc := p.top, owner := owner, slotOf := Function.update h.slotOf (h.next % 2 ^ RING_LOG2) (some h.next),
    cmds := Function.update h.cmds h.next (some p), next := h.next + 1 }

/-- What `publish` does: the slot and the buffers are stored, and the books have one command more. -/
theorem publish_eq (hb : Book s.host) (hroom : s.hasRoom) {c : Cmd} (hc : c.Packs s.host.alloc) :
    let p := c.published s.host.alloc s.host.seed
    ∃ mem owner, s.publish c = { s with mem := mem, host := s.host.publish p owner } ∧
      Fresh mem s.host.next p ∧
      (∀ y, y < s.host.alloc → y ≠ slotAddr s.host.next → mem y = s.mem y) ∧
      (∀ i, i < p.outLines → owner (p.out + i * LINE) = some s.host.next) ∧
      ∀ y, (∀ i, i < p.outLines → y ≠ p.out + i * LINE) → owner y = s.host.owner y := by
  intro p
  obtain ⟨hwf, htop⟩ := hc.wf hb.alloc s.host.seed
  obtain ⟨mem₁, heq₁, hin₁, hout₁⟩ := take_eq s (c.M * c.K) 0 c.A
  set s₁ : Sim := { s with
    mem := mem₁, host := { s.host with alloc := s.host.alloc + lines (c.M * c.K) * LINE } } with hs₁
  obtain ⟨mem₂, heq₂, hin₂, hout₂⟩ := take_eq s₁ (c.K * c.N) 0 c.W
  set s₂ : Sim := { s₁ with
    mem := mem₂, host := { s₁.host with alloc := s₁.host.alloc + lines (c.K * c.N) * LINE } } with hs₂
  obtain ⟨mem₃, heq₃, hin₃, hout₃⟩ := take_eq s₂ (c.M * c.N * R_BYTES) SENTINEL []
  set s₃ : Sim := { s₂ with
    mem := mem₃, host := { s₂.host with alloc := s₂.host.alloc + lines (c.M * c.N * R_BYTES) * LINE } } with hs₃
  obtain ⟨owner, heq₄, hin₄, hout₄⟩ := own_eq s.host.next p.out p.outLines s₃
  set s₄ : Sim := { s₃ with host := { s₃.host with owner := owner } } with hs₄
  have hslot := slotAddr_lt s.host.next
  have habove := hb.alloc
  refine ⟨Function.update mem₃ (slotAddr s.host.next) p.desc, owner, ?_, ?_, fun y hy hne => ?_, hin₄, hout₄⟩
  · -- the slot is free: what was in it has been ended
    have hfree : ∀ was, s.host.slotOf (s.host.next % 2 ^ RING_LOG2) = some was → was ∈ s.host.ended := by
      intro was hwas
      obtain ⟨hlt, hmod⟩ := hb.slotLt _ _ hwas
      refine (hb.ended was).mpr ?_
      unfold hasRoom at hroom
      change s.host.next - s.host.hhead < 8 at hroom
      change was % 8 = s.host.next % 8 at hmod
      omega
    have heq : own s.host.next s₂.host.alloc (lines (c.M * c.N * R_BYTES)) s₃ = s₄ := heq₄
    unfold Sim.publish
    dsimp only
    rw [heq₁]
    dsimp only
    rw [heq₂]
    dsimp only
    rw [heq₃]
    dsimp only
    rw [heq]
    split
    case h_1 was hwas =>
      rw [show (if was ∈ s₄.host.ended then s₄ else s₄.fail .C8) = s₄ from if_pos (hfree was hwas)]
      rfl
    case h_2 => rfl
  · have hne : ∀ {y}, s.host.alloc ≤ y → y ≠ slotAddr s.host.next := fun hy => (hslot.trans_le (habove.trans hy)).ne'
    have hw : p.wgt = s.host.alloc + lines (c.M * c.K) * 64 := rfl
    have ho : p.out = p.wgt + lines (c.K * c.N) * 64 := rfl
    refine ⟨Function.update_self _ _ _, fun i hi => ?_, fun i hi => ?_, fun i hi => ?_⟩
    · rw [Function.update_of_ne (hne (show s.host.alloc ≤ p.out + i * LINE by change _ ≤ p.out + i * 64; omega))]
      exact (hin₃ i hi).trans (lineOf_fill _ hi)
    · have hmul : i * 64 < lines (c.M * c.K) * 64 := Nat.mul_lt_mul_of_pos_right hi (by decide)
      change Function.update mem₃ _ _ (s.host.alloc + i * 64) = _
      rw [Function.update_of_ne (hne (by omega))]
      refine ((hout₃ _ (.inl ?_)).trans (hout₂ _ (.inl ?_))).trans (hin₁ i hi)
      · change s.host.alloc + i * 64 < s.host.alloc + lines (c.M * c.K) * 64 + lines (c.K * c.N) * 64
        omega
      · change s.host.alloc + i * 64 < s.host.alloc + lines (c.M * c.K) * 64
        omega
    · have hmul : i * 64 < lines (c.K * c.N) * 64 := Nat.mul_lt_mul_of_pos_right hi (by decide)
      change Function.update mem₃ _ _ (s.host.alloc + lines (c.M * c.K) * 64 + i * 64) = _
      rw [Function.update_of_ne (hne (by omega))]
      refine (hout₃ _ (.inl ?_)).trans (hin₂ i hi)
      change s.host.alloc + lines (c.M * c.K) * 64 + i * 64 < s.host.alloc + lines (c.M * c.K) * 64 + lines
        (c.K * c.N) * 64
      omega
  · rw [Function.update_of_ne hne]
    have hy₂ : y < s₁.host.alloc := hy.trans_le (Nat.le_add_right _ _)
    have hy₃ : y < s₂.host.alloc := hy₂.trans_le (Nat.le_add_right _ _)
    exact ((hout₃ y (.inl hy₃)).trans (hout₂ y (.inl hy₂))).trans (hout₁ y (.inl hy))

/-! ## The books have one command more -/

section OneMore

variable {h : Host} {p : Published} {owner : ℕ → Option ℕ}

theorem Book.publish_cmds (hb : Book h) {idx : ℕ} {c : Published} :
    (h.publish p owner).cmds idx = some c ↔ idx = h.next ∧ c = p ∨ idx < h.next ∧ h.cmds idx = some c := by
  change Function.update h.cmds h.next (some p) idx = some c ↔ _
  by_cases hidx : idx = h.next
  · subst hidx
    rw [Function.update_self]
    constructor
    · exact fun hc => .inl ⟨rfl, (Option.some.inj hc).symm⟩
    · rintro (⟨-, rfl⟩ | ⟨hlt, -⟩)
      · rfl
      · exact absurd hlt (Nat.lt_irrefl _)
  · rw [Function.update_of_ne hidx]
    exact ⟨fun hc => .inr ⟨(hb.wf idx c hc).2.2, hc⟩, fun hc => (hc.resolve_left fun he => hidx he.1).2⟩

theorem Book.publish (hb : Book h) (hroom : h.next - h.hhead < 2 ^ RING_LOG2) (hshort : h.next + 1 < 2 ^ 32)
    (hwf : p.Wf) (hact : h.alloc ≤ p.act) (hseed : p.seed = h.seed) (hown : ∀ i, i < p.outLines →
    owner (p.out + i * LINE) = some h.next)
    (hother : ∀ y, (∀ i, i < p.outLines → y ≠ p.out + i * LINE) → owner y = h.owner y) : Book (h.publish p owner) := by
  have hle : h.alloc ≤ p.top := by
    have hw : p.wgt = p.act + lines (p.M * p.K) * 64 := hwf.wgt
    have ho : p.out = p.wgt + lines (p.K * p.N) * 64 := hwf.out
    unfold Published.top
    omega
  have hlt8 : h.next < h.hhead + 8 := by
    change h.next - h.hhead < 8 at hroom
    have := hb.le
    omega
  have hcmds : ∀ {idx c}, (h.publish p owner).cmds idx = some c → idx = h.next ∧ c = p ∨ idx < h.next ∧
    h.cmds idx = some c :=
    fun hc => hb.publish_cmds.mp hc
  -- the lines of an older command are below the new one's
  have hbelow : ∀ {idx c}, h.cmds idx = some c → ∀ y, y < c.top → ∀ i, i < p.outLines → y ≠ p.out + i * LINE :=
    fun hc y hy i hi => (hy.trans_le ((hb.wf _ _ hc).2.1.trans (hact.trans (hwf.out_line hi).1))).ne
  constructor
  case le => exact hb.le.trans (Nat.le_succ _)
  case room => exact hlt8
  case short => exact hshort
  case ended => exact hb.ended
  case alloc => exact hb.alloc.trans hle
  case cmds =>
    intro idx hidx
    rcases Nat.lt_succ_iff_lt_or_eq.mp hidx with hidx | rfl
    · obtain ⟨c, hc⟩ := hb.cmds idx hidx
      exact ⟨c, hb.publish_cmds.mpr (.inr ⟨hidx, hc⟩)⟩
    · exact ⟨p, hb.publish_cmds.mpr (.inl ⟨rfl, rfl⟩)⟩
  case wf =>
    intro idx c hc
    rcases hcmds hc with ⟨rfl, rfl⟩ | ⟨hidx, hc⟩
    · exact ⟨hwf, le_rfl, Nat.lt_succ_self _⟩
    · exact ⟨(hb.wf idx c hc).1, (hb.wf idx c hc).2.1.trans hle, Nat.lt_succ_of_lt hidx⟩
  case apart =>
    intro i j c c' hij hc hc'
    rcases hcmds hc with ⟨rfl, rfl⟩ | ⟨hi, hci⟩
    · rcases hcmds hc' with ⟨rfl, -⟩ | ⟨hj, -⟩
      · exact absurd hij (Nat.lt_irrefl _)
      · exact absurd hij hj.not_gt
    · rcases hcmds hc' with ⟨rfl, rfl⟩ | ⟨-, hcj⟩
      · exact (hb.wf i c hci).2.1.trans hact
      · exact hb.apart i j c c' hij hci hcj
  case seeds =>
    intro idx c hge hc
    rcases hcmds hc with ⟨-, rfl⟩ | ⟨-, hc⟩
    · exact hseed
    · exact hb.seeds idx c hge hc
  case slotOf =>
    intro idx hidx hwin
    change Function.update h.slotOf (h.next % 8) (some h.next) (idx % 8) = some idx
    change h.next + 1 ≤ idx + 8 at hwin
    rcases Nat.lt_succ_iff_lt_or_eq.mp hidx with hidx | rfl
    · rw [Function.update_of_ne (by omega)]
      exact hb.slotOf idx hidx (by change h.next ≤ idx + 8; omega)
    · exact Function.update_self _ _ _
  case slotLt =>
    intro k idx hk
    change Function.update h.slotOf (h.next % 8) (some h.next) k = some idx at hk
    by_cases hkn : k = h.next % 8
    · subst hkn
      rw [Function.update_self] at hk
      obtain rfl := Option.some.inj hk
      exact ⟨Nat.lt_succ_self _, rfl⟩
    · rw [Function.update_of_ne hkn] at hk
      exact (hb.slotLt k idx hk).imp_left Nat.lt_succ_of_lt
  case owner =>
    intro idx c hc i hi
    rcases hcmds hc with ⟨rfl, rfl⟩ | ⟨-, hc⟩
    · exact hown i hi
    · refine (hother _ (hbelow hc _ ?_)).trans (hb.owner idx c hc i hi)
      exact ((hb.wf idx c hc).1.out_line hi).2
  case owned =>
    intro y idx hy
    change owner y = some idx at hy
    by_cases hin : ∃ i, i < p.outLines ∧ y = p.out + i * LINE
    · obtain ⟨i, hi, rfl⟩ := hin
      obtain rfl := Option.some.inj ((hown i hi).symm.trans hy)
      exact ⟨p, hb.publish_cmds.mpr (.inl ⟨rfl, rfl⟩), Nat.le_add_right _ _, (hwf.out_line hi).2⟩
    · rw [hother y fun i hi he => hin ⟨i, hi, he⟩] at hy
      obtain ⟨c, hc, hlo, hhi⟩ := hb.owned y idx hy
      exact ⟨c, hb.publish_cmds.mpr (.inr ⟨(hb.wf idx c hc).2.2, hc⟩), hlo, hhi⟩

end OneMore

/-- The lines that are read for the command at `head` are its own. -/
theorem Sim.Reading.own {g : ℕ} {c : Published} (h : s.Reading g c) (hwf : c.Wf) {mem' : ℕ → Line}
    (hslot : mem' (slotAddr s.module.head) = s.mem (slotAddr s.module.head)) (hbuf : SameBuffers s.mem mem' c) :
    ∀ x ∈ (s.reads g).addrs, mem' x = s.mem x := by
  intro x hx
  rcases h.what with ⟨-, haddrs⟩ | ⟨index, -, haddrs⟩ <;> rw [haddrs] at hx
  · obtain rfl := List.mem_singleton.mp hx
    exact hslot
  rcases List.mem_append.mp hx with hx | hx <;> obtain ⟨i, hi, rfl⟩ := List.mem_map.mp hx
  · obtain ⟨hlo, hhi⟩ := hwf.wgt_line (List.mem_range.mp hi)
    exact hbuf _ hlo hhi
  · obtain ⟨hlo, hhi⟩ := hwf.act_line (List.mem_range.mp hi)
    exact hbuf _ hlo hhi

/-- The module goes on with what it is at, and finds one command more. -/
theorem Sim.Doing.publish (hd : s.Doing a) (ht : a ≠ .torn) (hdead : a ≠ .dead) (hb : Book s.host)
    (hroom : s.host.next - s.host.hhead < 2 ^ RING_LOG2) {p : Published} {owner : ℕ → Option ℕ} {mem : ℕ → Line}
    (hfresh : Fresh mem s.host.next p) (hmem : ∀ y, y < s.host.alloc → y ≠ slotAddr s.host.next → mem y = s.mem y) :
    Sim.Doing { s with mem := mem, host := s.host.publish p owner } a := by
  have hlt8 : s.host.next < s.host.hhead + 8 := by
    change s.host.next - s.host.hhead < 8 at hroom
    have := hb.le
    omega
  have hcmds : ∀ {idx c}, (s.host.publish p owner).cmds idx = some c → idx = s.host.next ∧ c = p ∨
    idx < s.host.next ∧ s.host.cmds idx = some c :=
    fun hc => hb.publish_cmds.mp hc
  have hslot : ∀ {idx}, s.host.hhead ≤ idx → idx < s.host.next → mem (slotAddr idx) = s.mem (slotAddr idx) :=
    fun hge hlt =>
    hmem _ ((slotAddr_lt _).trans_le hb.alloc) (slotAddr_ne hge (hlt.trans hlt8) hb.le hlt8 hlt.ne)
  have hbuf : ∀ {idx c}, s.host.cmds idx = some c → SameBuffers s.mem mem c := fun hc y hlo hhi =>
    hmem y (hhi.trans_le (hb.wf _ _ hc).2.1) ((slotAddr_lt _).trans_le ((hb.wf _ _ hc).1.above.trans hlo)).ne'
  have hfresh' : ∀ {idx c}, s.host.hhead ≤ idx → (s.host.publish p owner).cmds idx = some c →
      (s.host.cmds idx = some c → Fresh s.mem idx c) → Fresh mem idx c := by
    intro idx c hge hc hold
    rcases hcmds hc with ⟨rfl, rfl⟩ | ⟨hlt, hc⟩
    · exact hfresh
    · exact (hold hc).congr (hb.wf idx c hc).1 (hslot hge hlt) (hbuf hc)
  have hup : s.Up → Sim.Up { s with mem := mem, host := s.host.publish p owner } := fun hu =>
    ⟨hu.enable, hu.enabled, hu.draining, hu.base, hu.size, hu.tail, hu.next.trans (Nat.le_succ _)⟩
  have hfront : s.Up → s.host.hhead ≤ s.module.head + 1 → s.Front →
      Sim.Front { s with mem := mem, host := s.host.publish p owner } := by
    refine fun hu hle hf => ⟨fun idx c hge hlt hc => ?_, fun idx c hlt hc => ?_⟩
    · rcases hcmds hc with ⟨rfl, -⟩ | ⟨hlt', hc⟩
      · exact absurd (hlt.trans_le (hu.tail.trans hu.next)) (Nat.lt_irrefl _)
      · exact (hf.before idx c hge hlt hc).congr (hb.wf idx c hc).1 (hslot hge hlt') (hbuf hc)
    · exact hfresh' (hle.trans hlt) hc (hf.later idx c hlt)
  have hhere : ∀ {c}, s.module.head < s.module.tail → s.Up → s.host.cmds s.module.head = some c →
      s.module.head < s.host.next ∧ (s.host.publish p owner).cmds s.module.head = some c := fun hlt hu hc =>
    ⟨hlt.trans_le hu.next, hb.publish_cmds.mpr (.inr ⟨hlt.trans_le hu.next, hc⟩)⟩
  cases a with
  | torn => exact absurd rfl ht
  | dead => exact absurd rfl hdead
  | off =>
    obtain ⟨he, hen, hdr, hw, hbusy, hr, hsh, hl, hf⟩ := hd
    exact ⟨he, hen, hdr, hw, hbusy, hr, hsh, hl, fun idx c hge hc => hfresh' hge hc (hf idx c hge)⟩
  | idle =>
    obtain ⟨hu, hf, hw, hbusy, hr, hsh, hl, hle, hm⟩ := hd
    exact ⟨hup hu, hfront hu (hle.trans (Nat.le_succ _)) hf, hw, hbusy, hr, hsh, hl, hle, fun c hc =>
      hfresh' hle hc (hm c)⟩
  | wedged =>
    obtain ⟨hu, hf, hw, hr, hsh, hl, hle, hm⟩ := hd
    exact ⟨hup hu, hfront hu (hle.trans (Nat.le_succ _)) hf, hw, hr, hsh, hl, hle, fun c hc => hfresh' hle hc (hm c)⟩
  | reading g =>
    obtain ⟨hu, hf, hw, hbusy, hsh, hl, hle, hlt, c, hc, hm, hr⟩ := hd
    obtain ⟨hnext, hc'⟩ := hhere hlt hu hc
    have hwf := (hb.wf _ c hc).1
    have hown := hr.own hwf (hslot hle hnext) (hbuf hc)
    refine ⟨hup hu, hfront hu (hle.trans (Nat.le_succ _)) hf, hw, hbusy, hsh, hl, hle, hlt, c, hc',
      hm.congr hwf (hslot hle hnext) (hbuf hc), ?_⟩
    exact ⟨hr.lt, hr.live, hr.only, hr.count, hr.nodup, hr.asked,
      fun x d hx => (hr.coming x d hx).imp_right fun hd => hd.trans (hown x (hr.coming x d hx).1).symm,
      fun x hx => (hr.got x hx).imp_right fun hd => hd.trans (hown x.1 (hr.got x hx).1).symm, hr.keys, hr.what⟩
  | shooting r =>
    obtain ⟨hu, hf, hw, hbusy, hr, hle, hlt, c, hc, hs⟩ := hd
    obtain ⟨hnext, hc'⟩ := hhere hlt hu hc
    have hwf := (hb.wf _ c hc).1
    refine ⟨hup hu, hfront hu (hle.trans (Nat.le_succ _)) hf, hw, hbusy, hr, hle, hlt, c, hc', ?_⟩
    refine ⟨hs.lt, hs.job, hs.idx, hs.d, hs.rows, hs.cols, hs.out, hs.status, hs.n, hs.raw,
      (hslot hle hnext).trans hs.slot, hs.shots,
      hs.one, hs.gos, hs.count, hs.sent, hs.ordered, fun i hi => (hs.written i hi).imp_left fun hm => ?_, hs.lands⟩
    obtain ⟨hlo, hhi⟩ := hwf.out_line (hi.trans_le hs.sent)
    exact (hbuf hc _ hlo hhi).trans hm
  | recording st index =>
    obtain ⟨hu, hf, hw, hbusy, hr, hsh, hle, hlt, c, hc, hs⟩ := hd
    obtain ⟨hnext, hc'⟩ := hhere hlt hu hc
    have hwf := (hb.wf _ c hc).1
    refine ⟨hup hu, hfront hu hle hf, hw, hbusy, hr, hsh, hle, hlt, c, hc', ?_⟩
    refine ⟨hs.told.congr hwf (hbuf hc), hs.gos, hs.count, fun hge => ?_, hs.one, fun x d hx => ?_⟩
    · have hsame := hslot hge hnext
      change mem _ = _ ∨ mem _ = _ ∧ _
      rw [hsame]
      exact hs.slot hge
    · obtain ⟨hxs, hds, hge, hm⟩ := hs.lands x d hx
      exact ⟨hxs, hds, hge, (hslot hge hnext).trans hm⟩

end Grxcp.BoardTransport
