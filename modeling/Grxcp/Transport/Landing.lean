import Grxcp.Transport.Lines
import Grxcp.Transport.Memory

/-!
# Lines that land

A line that lands is one of the command at `head`, which the host has not ended: a line of its results,
or its record. Once the queue is torn down it may still be on its way, and keeps the slot's fields.
-/

namespace Grxcp.BoardTransport

open Agenda Runs Sim

variable {s : Sim} {a : Activity} {e : Entry Event} {q : List (Entry Event)}

theorem land_spec (h : s.Safe a) {x : ℕ} {data : Line} (hq : s.q = e :: q) (hfn : e.fn = .land x data) :
    ((s.withQ q).land x data).Safe a := by
  have hx : s.Has (.land x data) := hfn ▸ has_head hq
  have hno : ¬s.NoLines := fun hl => hl.2 x data hx
  have hqueue := h.queue.drop hq (show e.fn.isGo = false from hfn ▸ rfl)
  have hstored : ∀ {idx c}, s.host.hhead ≤ idx → s.host.cmds idx = some c → Belongs idx c x →
      ((s.withQ q).store x data).Doing a → ((s.withQ q).land x data).Safe a := by
    intro idx c hle hc hbel hd
    have hland : (s.withQ q).land x data = (s.withQ q).store x data := by
      unfold Sim.land
      rw [Book.landing (s := s.withQ q) h.book hle hc hbel]
    have hctl : SameControl s ((s.withQ q).store x data) :=
      (SameControl.withQ hq (hfn ▸ rfl)).trans (.beside rfl rfl rfl rfl rfl rfl)
    rw [hland]
    refine ⟨?_, h.book, hd, hctl.still (fun _ he _ => mem_of_cons hq he) rfl id id h.wires, h.clean⟩
    exact hqueue.move rfl rfl rfl rfl rfl (fun _ _ => ⟨rfl, rfl⟩) le_rfl (fun _ _ => rfl) rfl le_rfl rfl
  have hcount : (s.withQ q).countOf Event.isGo = s.countOf Event.isGo := by
    rw [countOf_cons hq, hfn]
    rfl
  have hkeep : ∀ {y d}, s.Has (.land y d) → y ≠ x → (s.withQ q).Has (.land y d) := fun hy hne =>
    ((has_cons hq).mp hy).resolve_left fun he => hne (Event.land.inj (he.trans hfn)).1
  cases a with
  | off => exact absurd h.doing.2.2.2.2.2.2.2.1 hno
  | idle => exact absurd h.doing.2.2.2.2.2.2.1 hno
  | reading g => exact absurd h.doing.2.2.2.2.2.1 hno
  | wedged => exact absurd h.doing.2.2.2.2.2.1 hno
  | dead => exact absurd h.doing.2.2.2.1 hno
  | shooting r =>
    obtain ⟨hup, hf, hw, hb, hr, hle, hlt, c, hc, hs⟩ := h.doing
    obtain ⟨i, hi, rfl, rfl⟩ := hs.lands x data hx
    have hbel : Belongs s.module.head c (c.out + i * LINE) := .inl ⟨i, hi.trans_le hs.sent, rfl⟩
    have hlo := ((h.book.wf _ c hc).1.out_line (hi.trans_le hs.sent)).1
    refine hstored hle hc hbel ⟨hup.keep rfl, ⟨?_, ?_⟩, hw, hb,
      fun g hl => ⟨fun y hy => (hr g hl).1 y (Has.of_cons hq hy), fun y d hy =>
        (hr g hl).2 y d (Has.of_cons hq hy)⟩, hle, hlt, c,
      hc, ?_⟩
    · exact fun idx c' hge hlt' hc' => h.book.update_recorded hle hc hbel _ hge hc' hlt'.ne
        (hf.before idx c' hge hlt' hc')
    · exact fun idx c' hlt' hc' => h.book.update_fresh hle hc hbel _ (hle.trans hlt'.le) hc' hlt'.ne'
        (hf.later idx c' hlt' hc')
    refine ⟨hs.lt, hs.job, hs.idx, hs.d, hs.rows, hs.cols, hs.out, hs.status, hs.n, hs.raw, ?_,
      fun r' m hy => hs.shots r' m (Has.of_cons hq hy), (countOf_withQ_le hq _).trans hs.one,
      fun g y hy => hs.gos g y (Has.of_cons hq hy), (congrArg (· + _) hcount).trans hs.count, hs.sent, hs.ordered, ?_,
      fun y d hy => hs.lands y d (Has.of_cons hq hy)⟩
    · exact (h.book.update_buffer hc hlo _).trans hs.slot
    · intro j hj
      by_cases hji : j = i
      · subst hji
        exact .inl (Function.update_self _ _ _)
      have hne : c.out + j * LINE ≠ c.out + i * LINE := by
        change c.out + j * 64 ≠ c.out + i * 64
        omega
      rcases hs.written j hj with hm | hy
      · exact .inl ((Function.update_of_ne hne _ _).trans hm)
      · exact .inr (hkeep hy hne)
  | recording st index =>
    obtain ⟨hup, hf, hw, hb, hr, hsh, hle', hlt, c, hc, hs⟩ := h.doing
    obtain ⟨rfl, rfl, hle, -⟩ := hs.lands x data hx
    -- it is the only line in flight
    have hlast : (s.withQ q).countOf Event.isLand = 0 := by
      have hone := hs.one
      rw [countOf_cons hq, hfn] at hone
      exact Nat.le_zero.mp (Nat.le_of_succ_le_succ hone)
    have hbel : Belongs s.module.head c (slotAddr s.module.head) := .inr rfl
    refine hstored hle hc hbel ⟨hup.keep rfl, ⟨?_, ?_⟩, hw, hb,
      fun g hl => ⟨fun y hy => (hr g hl).1 y (Has.of_cons hq hy), fun y d hy => (hr g hl).2 y d (Has.of_cons hq hy)⟩,
      fun r m hy => hsh r m (Has.of_cons hq hy), hle', hlt, c, hc, ?_⟩
    · exact fun idx c' hge hlt' hc' => h.book.update_recorded hle hc hbel _ hge hc' hlt'.ne
        (hf.before idx c' hge hlt' hc')
    · exact fun idx c' hlt' hc' => h.book.update_fresh hle hc hbel _ (hle.trans hlt'.le) hc' hlt'.ne'
        (hf.later idx c' hlt' hc')
    exact ⟨hs.told.congr (h.book.wf _ c hc).1 (h.book.update_slot hc _), fun g y hy => hs.gos g y (Has.of_cons hq hy),
      hcount.trans hs.count, fun _ => .inl (Function.update_self _ _ _), hlast.trans_le (Nat.zero_le 1),
      fun y d hy => absurd (countOf_eq_zero hlast hy) Bool.noConfusion⟩
  | torn =>
    obtain ⟨he, hen, hw, hb, hba, hsz, hdr, hr, hsh, hg, hl, hbef, hk⟩ := h.doing
    obtain ⟨hle, c, hc, hwhere⟩ := hl x data hx
    have hbel : Belongs s.module.head c x := hwhere.imp_right fun hslot => hslot.1
    refine hstored hle hc hbel ⟨he, hen, hw, hb, hba, hsz, hdr,
      fun g hl' => ⟨fun y hy => (hr g hl').1 y (Has.of_cons hq hy), fun y d hy => (hr g hl').2 y d (Has.of_cons hq hy)⟩,
      fun r m hy => hsh r m (Has.of_cons hq hy), fun g y hy => hg g y (Has.of_cons hq hy), fun y d hy =>
        hl y d (Has.of_cons hq hy),
      ?_, ?_⟩
    · exact fun idx c' hge hlt' hc' => h.book.update_recorded hle hc hbel _ hge hc' hlt'.ne (hbef idx c' hge hlt' hc')
    · intro idx c' hge hge' hc'
      by_cases hidx : idx = s.module.head
      case neg => exact h.book.update_kept hle hc hbel _ hge hc' hidx (hk idx c' hge hge' hc')
      subst hidx
      obtain rfl := Option.some.inj (hc.symm.trans hc')
      rcases hwhere with ⟨i, hi, rfl⟩ | ⟨rfl, hlen, htake⟩
      · exact (hk _ c hge hge' hc).congr (h.book.update_buffer hc ((h.book.wf _ c hc).1.out_line hi).1 _)
      · change (Function.update s.mem _ data _).length = LINE ∧ (Function.update s.mem _ data _).take 0x30 = _
        rw [Function.update_self]
        exact ⟨hlen, htake⟩

/-- The interrupt is here. -/
theorem msi_spec (h : s.Safe a) (hq : s.q = e :: q) (hfn : e.fn = .msi) : (s.withQ q).msi.Safe a := by
  have hsafe : (s.withQ q).Safe a := h.idles hq (hfn ▸ trivial) (hfn ▸ rfl) (hfn ▸ rfl)
  have hbook : Book { s.host with msis := s.host.msis + 1 } :=
    h.book.notes rfl rfl rfl rfl rfl rfl rfl h.book.seeds
  exact (hsafe.setHost hbook rfl rfl rfl rfl rfl).check (.inr (.inr (.inl rfl))) _

end Grxcp.BoardTransport
