import Grxcp.Transport.Invariant

/-!
# What is in flight

How pushing an event and taking one off change what is in flight, and that the agenda stays in order.
The module's events and the register's are apart: what happens on one side of the link leaves what is
said of the other as it was.
-/

namespace Grxcp.BoardTransport

open Agenda Runs

namespace Sim

/-- The state with another agenda. -/
abbrev withQ (s : Sim) (q : List (Entry Event)) : Sim :=
  { s with q := q }

variable {s s' : Sim} {e : Entry Event} {q : List (Entry Event)} {dt prio : ℕ} {fn : Event}

/-! ## Pushing -/

@[simp] theorem has_after {f : Event} : (s.after dt prio fn).Has f ↔ f = fn ∨ s.Has f := by
  unfold Has after
  simp only [mem_push, exists_eq_or_imp, eq_comm (a := f)]

theorem countOf_after (p : Event → Bool) :
    (s.after dt prio fn).countOf p = s.countOf p + if p fn then 1 else 0 :=
  countP_push _ _ _

theorem writes_after (h : fn.write? = none) : (s.after dt prio fn).writes = s.writes :=
  filterMap_push_none (fun e : Entry Event => e.fn.write?) h _

theorem not_write (h : s.writes = []) (he : e ∈ s.q) : ¬e.fn.write?.isSome = true := by
  intro hw
  obtain ⟨w, hw⟩ := Option.isSome_iff_exists.mp hw
  have hin : w ∈ s.writes := List.mem_filterMap.mpr ⟨e, he, hw⟩
  rw [h] at hin
  exact List.not_mem_nil hin

/-- A register write comes after those in flight. -/
theorem writes_mmioWrite {off : Reg} {val : ℕ} (hsorted : Sorted s.q) (hnum : ∀ e ∈ s.q, e.n ≤ s.n)
    (hdue : ∀ e ∈ s.q, e.fn.write?.isSome = true → e.prio = 1 ∧ e.due ≤ s.t + L) :
    (s.mmioWrite off val).writes = s.writes ++ [(off, val)] := by
  refine filterMap_push_last (fun e : Entry Event => e.fn.write?) (by rfl) hsorted fun e' he' hw => ?_
  obtain ⟨hp, hd⟩ := hdue e' he' hw
  exact (before_of_later hd hp (Nat.lt_succ_of_le (hnum e' he'))).2

/-! ## Taking off -/

theorem has_cons (h : s.q = e :: q) {f : Event} : s.Has f ↔ f = e.fn ∨ (s.withQ q).Has f := by
  unfold Has
  rw [h]
  simp only [List.mem_cons, exists_eq_or_imp, eq_comm (a := f)]

theorem Has.of_cons (h : s.q = e :: q) {f : Event} (hf : (s.withQ q).Has f) : s.Has f :=
  (has_cons h).mpr (.inr hf)

theorem has_head (h : s.q = e :: q) : s.Has e.fn :=
  (has_cons h).mpr (.inl rfl)

theorem countOf_cons (h : s.q = e :: q) (p : Event → Bool) :
    s.countOf p = (s.withQ q).countOf p + if p e.fn then 1 else 0 := by
  unfold countOf
  rw [h, List.countP_cons]

theorem writes_cons (h : s.q = e :: q) (hw : e.fn.write? = none) : (s.withQ q).writes = s.writes := by
  unfold writes
  rw [h, List.filterMap_cons, hw]

theorem writes_cons_some (h : s.q = e :: q) {w : Reg × ℕ} (hw : e.fn.write? = some w) :
    s.writes = w :: (s.withQ q).writes := by
  unfold writes
  rw [h, List.filterMap_cons, hw]

theorem countOf_eq_zero {p : Event → Bool} (h : s.countOf p = 0) {f : Event} (hf : s.Has f) : p f = false := by
  obtain ⟨e, he, rfl⟩ := hf
  exact Bool.eq_false_iff.mpr (List.countP_eq_zero.mp h e he)

theorem countOf_pos {p : Event → Bool} {f : Event} (hf : s.Has f) (hp : p f = true) : 0 < s.countOf p := by
  obtain ⟨e, he, rfl⟩ := hf
  exact List.countP_pos_iff.mpr ⟨e, he, hp⟩

end Sim

/-! ## The agenda -/

open Sim

variable {s s' : Sim} {e : Entry Event} {q : List (Entry Event)} {dt prio : ℕ} {fn : Event}

/-- Events name what exists for as long as nothing is taken away. -/
theorem EvOk.mono (h : EvOk s fn) (hreads : s.readCt ≤ s'.readCt) (hruns : s.runCt ≤ s'.runCt)
    (hsame : ∀ r, r < s.runCt → (s'.runs r).job = (s.runs r).job) (hgen : s'.module.gen = s.module.gen)
    (hjob : s.module.job ≤ s'.module.job) : EvOk s' fn := by
  match fn with
  | .atHost g _ => exact lt_of_lt_of_le (show g < s.readCt from h) hreads
  | .back g _ _ => exact lt_of_lt_of_le (show g < s.readCt from h) hreads
  | .shot r _ =>
    obtain ⟨hr, hj⟩ := h
    exact ⟨hr.trans_le hruns, (hsame r hr).trans_le (hj.trans hjob)⟩
  | .go gen (.ordered r) =>
    obtain ⟨hg, hr, hj⟩ := h
    exact ⟨hg.trans hgen.symm, hr.trans_le hruns, (hsame r hr).trans_le (hj.trans hjob)⟩
  | .go gen (.ended _ _ job) => exact ⟨h.1.trans hgen.symm, h.2.trans hjob⟩
  | .write _ _ | .read _ _ | .append _ _ | .land _ _ | .msi | .reset => trivial

namespace Queue

/-- A change of state that leaves the agenda alone. -/
theorem move (h : Queue s) (hq : s'.q = s.q) (hn : s'.n = s.n) (ht : s'.t = s.t) (hturn : s'.turn = s.turn)
    (hreads : s'.readCt = s.readCt) (hread : ∀ g, g < s.readCt → (s'.reads g).job = (s.reads g).job ∧
    (s'.reads g).gen = (s.reads g).gen)
    (hruns : s.runCt ≤ s'.runCt) (hrun : ∀ r, r < s.runCt → (s'.runs r).job = (s.runs r).job)
    (hgen : s'.module.gen = s.module.gen) (hjob : s.module.job ≤ s'.module.job)
    (hinflight : s'.module.inflight = s.module.inflight) : Queue s' where
  sorted := hq ▸ h.sorted
  num := by rw [hq, hn]; exact h.num
  due := by rw [hq, ht, hturn]; exact h.due
  soon := by rw [hq, ht]; exact h.soon
  lands := by rw [hq]; exact h.lands
  ok := by
    rw [hq]
    exact fun e he => (h.ok e he).mono hreads.ge hruns hrun hgen hjob
  inflight := by
    unfold countOf
    rw [hq, hinflight]
    exact h.inflight
  jobs := by
    intro g hg
    rw [hreads] at hg
    obtain ⟨hr, hg'⟩ := hread g hg
    rw [hr, hg', hgen]
    exact ⟨(h.jobs g hg).1, fun heq => ((h.jobs g hg).2 heq).trans hjob⟩

/-- The module changes, but not what the agenda knows of it. -/
theorem setModule (h : Queue s) (m : Module) (hgen : m.gen = s.module.gen) (hjob : s.module.job ≤ m.job)
    (hinflight : m.inflight = s.module.inflight) : Queue (s.setModule m) :=
  h.move rfl rfl rfl rfl rfl (fun _ _ => ⟨rfl, rfl⟩) le_rfl (fun _ _ => rfl) hgen hjob hinflight

/-- Anything but a line of the module's is pushed. -/
theorem after (h : Queue s) (hdt : 1 ≤ dt) (hsoon : fn.isLine = true → dt ≤ 2 * L + JITTER)
    (hland : ∀ a d, fn ≠ .land a d) (hgo : fn.isGo = false) (hok : EvOk s fn) : Queue (s.after dt prio fn) where
  sorted := h.sorted.push _
  num := by
    intro e he
    rcases mem_push.mp he with rfl | he
    · exact le_rfl
    · exact (h.num e he).trans (Nat.le_succ _)
  due := by
    intro e he
    rcases mem_push.mp he with rfl | he
    · exact Nat.add_le_add_left ((Bool.toNat_le _).trans hdt) _
    · exact h.due e he
  soon := by
    intro e he hl
    rcases mem_push.mp he with rfl | he
    · exact Nat.add_le_add_left (hsoon hl) _
    · exact h.soon e he hl
  lands := by
    intro e he a d hfn
    rcases mem_push.mp he with rfl | he
    · exact absurd hfn (hland a d)
    · obtain ⟨e', he', hrest⟩ := h.lands e he a d hfn
      exact ⟨e', mem_push.mpr (.inr he'), hrest⟩
  ok := by
    intro e he
    rcases mem_push.mp he with rfl | he
    · exact hok.mono le_rfl le_rfl (fun _ _ => rfl) rfl le_rfl
    · exact (h.ok e he).mono le_rfl le_rfl (fun _ _ => rfl) rfl le_rfl
  inflight := by
    rw [countOf_after, hgo]
    exact h.inflight
  jobs := h.jobs

/-- A line of the module's own is written: where it lands is before the module's notice of it. -/
theorem writeLine (h : Queue s) {addr : ℕ} {data : Line} {x : After} (hok : EvOk s (.go s.module.gen x)) :
    Queue (s.writeLine addr data x) := by
  have hlag : s.lag ≤ L + JITTER := Nat.add_le_add_left (Nat.le_of_lt_succ (s.rng s.drawn).isLt) L
  have hpos : 1 ≤ s.lag := (show 1 ≤ L by decide).trans (Nat.le_add_right L _)
  constructor
  case sorted => exact (h.sorted.push _).push _
  case num =>
    intro e he
    rcases mem_push.mp he with rfl | he
    · exact le_rfl
    rcases mem_push.mp he with rfl | he
    · exact Nat.le_succ _
    · exact ((h.num e he).trans (Nat.le_succ _)).trans (Nat.le_succ _)
  case due =>
    intro e he
    rcases mem_push.mp he with rfl | he
    · exact Nat.add_le_add_left ((Bool.toNat_le _).trans (hpos.trans (Nat.le_add_right _ _))) _
    rcases mem_push.mp he with rfl | he
    · exact Nat.add_le_add_left ((Bool.toNat_le _).trans hpos) _
    · exact h.due e he
  case soon =>
    intro e he hl
    rcases mem_push.mp he with rfl | he
    · exact Nat.add_le_add_left (show s.lag + L ≤ 2 * L + JITTER by omega) _
    rcases mem_push.mp he with rfl | he
    · exact Nat.add_le_add_left (show s.lag ≤ 2 * L + JITTER by omega) _
    · exact h.soon e he hl
  case lands =>
    intro e he a d hfn
    rcases mem_push.mp he with rfl | he
    · exact Event.noConfusion hfn
    rcases mem_push.mp he with rfl | he
    · exact ⟨_, mem_push.mpr (.inl rfl), rfl, show s.t + s.lag < s.t + (s.lag + 4) by omega⟩
    · obtain ⟨e', he', hrest⟩ := h.lands e he a d hfn
      exact ⟨e', mem_push.mpr (.inr (mem_push.mpr (.inr he'))), hrest⟩
  case ok =>
    intro e he
    rcases mem_push.mp he with rfl | he
    · exact hok.mono le_rfl le_rfl (fun _ _ => rfl) rfl le_rfl
    rcases mem_push.mp he with rfl | he
    · trivial
    · exact (h.ok e he).mono le_rfl le_rfl (fun _ _ => rfl) rfl le_rfl
  case inflight =>
    change s.module.inflight + 1 = _
    unfold Sim.writeLine
    dsimp only
    rw [countOf_after, countOf_after, h.inflight]
    rfl
  case jobs => exact h.jobs

/-- Anything but a notice of a line is taken off. -/
theorem drop (h : Queue s) (hq : s.q = e :: q) (he : e.fn.isGo = false) : Queue (s.withQ q) where
  sorted := (hq ▸ h.sorted).tail
  num := fun e' he' => h.num e' (hq ▸ List.mem_cons_of_mem e he')
  due := fun e' he' => h.due e' (hq ▸ List.mem_cons_of_mem e he')
  soon := fun e' he' => h.soon e' (hq ▸ List.mem_cons_of_mem e he')
  lands := by
    intro e' he' a d hfn
    obtain ⟨e'', he'', hgo, hdue⟩ := h.lands e' (hq ▸ List.mem_cons_of_mem e he') a d hfn
    rw [hq] at he''
    rcases List.mem_cons.mp he'' with rfl | he''
    · exact absurd hgo (Bool.eq_false_iff.mp he)
    · exact ⟨e'', he'', hgo, hdue⟩
  ok := fun e' he' => (h.ok e' (hq ▸ List.mem_cons_of_mem e he')).mono le_rfl le_rfl (fun _ _ => rfl) rfl le_rfl
  inflight := by
    have hcount := countOf_cons hq Event.isGo
    rw [he] at hcount
    exact h.inflight.trans hcount
  jobs := h.jobs

/-- A notice of a line is taken off and counted: the line has landed. -/
theorem dropGo (h : Queue s) (hq : s.q = e :: q) (he : e.fn.isGo = true) :
    Queue ((s.withQ q).setModule { s.module with inflight := s.module.inflight - 1 }) where
  sorted := (hq ▸ h.sorted).tail
  num := fun e' he' => h.num e' (hq ▸ List.mem_cons_of_mem e he')
  due := fun e' he' => h.due e' (hq ▸ List.mem_cons_of_mem e he')
  soon := fun e' he' => h.soon e' (hq ▸ List.mem_cons_of_mem e he')
  lands := by
    intro e' he' a d hfn
    obtain ⟨e'', he'', hgo, hdue⟩ := h.lands e' (hq ▸ List.mem_cons_of_mem e he') a d hfn
    rw [hq] at he''
    rcases List.mem_cons.mp he'' with rfl | he''
    · -- what is next is due no later than what is left
      have hle := ((hq ▸ h.sorted : Sorted (e'' :: q)).head_le he').due_le
      exact absurd hdue hle.not_gt
    · exact ⟨e'', he'', hgo, hdue⟩
  ok := fun e' he' => (h.ok e' (hq ▸ List.mem_cons_of_mem e he')).mono le_rfl le_rfl (fun _ _ => rfl) rfl le_rfl
  inflight := by
    have hcount := countOf_cons hq Event.isGo
    rw [he, if_pos rfl] at hcount
    change s.module.inflight - 1 = (s.withQ q).countOf Event.isGo
    rw [h.inflight, hcount, Nat.add_sub_cancel]
  jobs := h.jobs

/-- With no notice to come, no line is in flight. -/
theorem noLines (h : Queue s) (hgo : s.countOf Event.isGo = 0) : s.NoLines := by
  have hnone : ∀ e ∈ s.q, ¬e.fn.isGo = true := fun e he =>
    Bool.eq_false_iff.mp (countOf_eq_zero hgo ⟨e, he, rfl⟩)
  refine ⟨fun gen x ⟨e, he, hfn⟩ => hnone e he (by rw [hfn]; rfl), fun a d ⟨e, he, hfn⟩ => ?_⟩
  obtain ⟨e', he', hg, -⟩ := h.lands e he a d hfn
  exact hnone e' he' hg

end Queue

end Grxcp.BoardTransport
