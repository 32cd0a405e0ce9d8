import Grxcp.Lib.Queues

/-!
# Waits on counters that are raised again

A wait passes once its counter has reached the value of one signal, but a later signal of the same
counter, in another queue, may get there first. `Guarded log y j` says that `j` comes after `y` if
every wait comes after what its own signal does, `Board.Timely` that the work of a board completes in
that order, and `Board.Admits` is what a new signal has to meet for it: each pending wait of the
counter is still held for the work its own signal comes after, or the new signal is.
-/

namespace Grxcp.Queues

variable {Q C W : Type*}

/-- What a command of the log does. -/
def bodyAt (log : Log Q C W) (i : ℕ) : Option (Body C W) :=
  log[i]?.map (·.body)

/-- The command is work. -/
def Works (log : Log Q C W) (i : ℕ) : Prop :=
  ∃ u, bodyAt log i = some (.work u)

/-- Command `w` waits for the value of the signal `r`. -/
def Awaits (log : Log Q C W) (r w : ℕ) : Prop :=
  r < w ∧ ∃ e v, bodyAt log r = some (.signal e v) ∧ bodyAt log w = some (.wait e v)

/-- A chain leads from command `y` to command `j` in which a wait follows what its signal does. -/
inductive Guarded (log : Log Q C W) (y : ℕ) : ℕ → Prop
  | edge {j : ℕ} (he : Edge log y j) : Guarded log y j
  | step {k j : ℕ} (h : Guarded log y k) (he : Edge log k j) : Guarded log y j
  | event {r w : ℕ} (h : Guarded log y r) (ha : Awaits log r w) : Guarded log y w

/-- Such a chain leads from the command to one that `w` is held for. -/
def Leads (log : Log Q C W) (y w : ℕ) : Prop :=
  ∃ k, Edge log k w ∧ (y = k ∨ Guarded log y k)

/-- Such a chain leads from the command to one that a new command is held for. -/
def Shields (log : Log Q C W) (c : Command Q C W) (y : ℕ) : Prop :=
  ∃ k, Feeds log c k ∧ (y = k ∨ Guarded log y k)

section Log

variable {log : Log Q C W} {c : Command Q C W} {i j y r w : ℕ} {b : Body C W}

theorem bodyAt_lt (h : bodyAt log i = some b) : i < log.length := by
  obtain ⟨a, ha, -⟩ := Option.map_eq_some_iff.mp h
  exact (List.getElem?_eq_some_iff.mp ha).1

theorem bodyAt_append_of_lt (h : i < log.length) : bodyAt (log ++ [c]) i = bodyAt log i := by
  rw [bodyAt, getElem?_append_of_lt h, bodyAt]

@[simp] theorem bodyAt_append_last (log : Log Q C W) (c : Command Q C W) :
    bodyAt (log ++ [c]) log.length = some c.body := by
  simp [bodyAt]

theorem bodyAt_append_mono (h : bodyAt log i = some b) : bodyAt (log ++ [c]) i = some b := by
  rw [bodyAt_append_of_lt (bodyAt_lt h), h]

theorem bodyAt_append_some (h : bodyAt (log ++ [c]) i = some b) :
    bodyAt log i = some b ∨ i = log.length ∧ b = c.body := by
  obtain ⟨a, ha, rfl⟩ := Option.map_eq_some_iff.mp h
  rcases getElem?_append_some ha with ha | ⟨hi, rfl⟩
  · exact .inl (by rw [bodyAt, ha, Option.map_some])
  · exact .inr ⟨hi, rfl⟩

theorem bodyAt_of_getElem? {a : Command Q C W} (h : log[i]? = some a) :
    bodyAt log i = some a.body := by
  rw [bodyAt, h, Option.map_some]

theorem Awaits.lt_length (h : Awaits log r w) : w < log.length := by
  obtain ⟨-, e, v, -, hw⟩ := h
  exact bodyAt_lt hw

theorem awaits_append_of_lt (h : w < log.length) : Awaits (log ++ [c]) r w ↔ Awaits log r w := by
  refine and_congr_right fun hrw => ?_
  rw [bodyAt_append_of_lt h, bodyAt_append_of_lt (hrw.trans h)]

theorem Guarded.lt (h : Guarded log y j) : y < j := by
  induction h with
  | edge he => exact he.lt
  | step _ he ih => exact ih.trans he.lt
  | event _ ha ih => exact ih.trans ha.1

theorem Guarded.lt_length (h : Guarded log y j) : j < log.length := by
  cases h with
  | edge he => exact he.lt_length
  | step _ he => exact he.lt_length
  | event _ ha => exact ha.lt_length

theorem Guarded.of_before (h : Before log y j) : Guarded log y j := by
  induction h with
  | single he => exact .edge he
  | tail _ he ih => exact .step ih he

theorem Guarded.append (h : Guarded log y j) : Guarded (log ++ [c]) y j := by
  induction h with
  | edge he => exact .edge he.append
  | step _ he ih => exact .step ih he.append
  | event _ ha ih => exact .event ih ((awaits_append_of_lt ha.lt_length).mpr ha)

theorem guarded_append_of_lt (hj : j < log.length) :
    Guarded (log ++ [c]) y j ↔ Guarded log y j := by
  refine ⟨fun h => ?_, Guarded.append⟩
  induction h with
  | edge he => exact .edge ((edge_append_of_lt hj).mp he)
  | step _ he ih =>
    have he := (edge_append_of_lt hj).mp he
    exact .step (ih (he.lt.trans hj)) he
  | event _ ha ih =>
    have ha := (awaits_append_of_lt hj).mp ha
    exact .event (ih (ha.1.trans hj)) ha

theorem Leads.append (h : Leads log y w) : Leads (log ++ [c]) y w := by
  obtain ⟨k, he, rfl | hg⟩ := h
  · exact ⟨y, he.append, .inl rfl⟩
  · exact ⟨k, he.append, .inr hg.append⟩

theorem Shields.guarded (h : Shields log c y) : Guarded (log ++ [c]) y log.length := by
  obtain ⟨k, hf, rfl | hg⟩ := h
  · exact .edge (edge_last.mpr hf)
  · exact .step hg.append (edge_last.mpr hf)

theorem works_append_of_lt (h : y < log.length) : Works (log ++ [c]) y ↔ Works log y := by
  rw [Works, bodyAt_append_of_lt h, Works]

end Log

namespace Board

/-- What a command has to meet when it is issued. A wait is for the value of the last signal. A
signal's value is above all earlier ones, and each pending wait of the counter is held for all the
pending work before its own signal, or the new signal comes after that. -/
structure Admits (b : Board Q C W) (c : Command Q C W) : Prop where
  wait : ∀ e v, c.body = .wait e v →
    (∃ r, bodyAt b.log r = some (.signal e v)) ∧
      ∀ r v', bodyAt b.log r = some (.signal e v') → v' ≤ v
  rise : ∀ e v, c.body = .signal e v →
    0 < v ∧ ∀ r v', bodyAt b.log r = some (.signal e v') → v' < v
  signal : ∀ e v, c.body = .signal e v → ∀ r w v', bodyAt b.log w = some (.wait e v') →
    Awaits b.log r w → w ∉ b.done → ∀ y, Works b.log y → Guarded b.log y r → y ∉ b.done →
      Leads b.log y w ∨ Shields b.log c y

/-- Counters only rise, each wait is for a signal before it, and work completes in the order in which
waits follow what their signals do. -/
structure Timely (b : Board Q C W) : Prop extends b.Closed where
  positive : ∀ i e v, bodyAt b.log i = some (.signal e v) → 0 < v
  rising : ∀ i j e v v', i < j → bodyAt b.log i = some (.signal e v) →
    bodyAt b.log j = some (.signal e v') → v < v'
  reached : ∀ e v, 0 < v → v ≤ b.counter e →
    ∃ i v', i ∈ b.done ∧ bodyAt b.log i = some (.signal e v') ∧ v ≤ v'
  kept : ∀ y j, Works b.log y → Guarded b.log y j → j ∈ b.done → y ∈ b.done
  safe : ∀ r w r' e v', Awaits b.log r w → r < r' → bodyAt b.log r' = some (.signal e v') →
    (∃ v, bodyAt b.log w = some (.wait e v)) → ∀ y, Works b.log y → Guarded b.log y r →
      y ∈ b.done ∨ Leads b.log y w ∨ Guarded b.log y r'

theorem Timely.empty : ({} : Board Q C W).Timely where
  toClosed := .empty
  positive := by
    intro i e v h
    cases h
  rising := by
    intro i j e v v' _ h
    cases h
  reached := by
    intro e v hv h
    exact absurd h (Nat.not_le.mpr hv)
  kept := by
    intro y j _ _ hj
    cases hj
  safe := by
    intro r w r' e v' _ _ h
    cases h

variable {b : Board Q C W} {c : Command Q C W} {i j y r w : ℕ}

/-- A command that is done has all that leads to it done. -/
theorem Timely.leads (h : b.Timely) (hc : b.log[w]? = some c) (hf : b.Free w c)
    (hy : Works b.log y) (hl : Leads b.log y w) : y ∈ b.done := by
  obtain ⟨k, he, rfl | hg⟩ := hl
  · exact Free.edge hc hf he
  · exact h.kept y k hy hg (Free.edge hc hf he)

/-- When a wait passes, what its signal comes after is done, whichever signal let it pass. -/
theorem Timely.passes (h : b.Timely) (hc : b.log[w]? = some c) (hf : b.Free w c)
    (ha : Awaits b.log r w) (hy : Works b.log y) (hg : Guarded b.log y r) : y ∈ b.done := by
  have ha' := ha
  obtain ⟨-, e, v, hr, hw⟩ := ha'
  have hbody : c.body = .wait e v := by
    rw [bodyAt_of_getElem? hc] at hw
    exact Option.some.inj hw
  have hpass := hf.2.2
  rw [hbody] at hpass
  obtain ⟨r', v', hdone, hr', hle⟩ := h.reached e v (h.positive r e v hr) hpass
  rcases lt_trichotomy r r' with hlt | rfl | hlt
  · rcases h.safe r w r' e v' ha hlt hr' ⟨v, hw⟩ y hy hg with hd | hl | hg'
    · exact hd
    · exact h.leads hc hf hy hl
    · exact h.kept y r' hy hg' hdone
  · exact h.kept y r hy hg hdone
  · have := h.rising r' r e v' v hlt hr' hr
    omega

theorem Timely.complete [DecidableEq Q] [DecidableEq C] (h : b.Timely) (i : ℕ) :
    (b.complete i).Timely := by
  have hclosed := h.toClosed.complete i
  rcases b.complete_cases i with heq | ⟨c, hc, hf, heq⟩
  · rw [heq]
    exact h
  · rw [heq] at hclosed ⊢
    refine ⟨hclosed, h.positive, h.rising, ?_, ?_, ?_⟩
    · intro e v hv hle
      simp only [Finset.mem_insert]
      by_cases hold : v ≤ b.counter e
      · obtain ⟨k, v', hk, hrest⟩ := h.reached e v hv hold
        exact ⟨k, v', .inr hk, hrest⟩
      · -- the counter has just been raised, so the command is the signal
        cases hbody : c.body with
        | work u =>
          rw [hbody] at hle
          exact absurd hle hold
        | wait e' v' =>
          rw [hbody] at hle
          exact absurd hle hold
        | signal e' v' =>
          rw [hbody] at hle
          simp only [Body.raise] at hle
          by_cases he : e = e'
          · subst he
            rw [Function.update_self] at hle
            exact ⟨i, v', .inl rfl, by rw [bodyAt_of_getElem? hc, hbody], by omega⟩
          · rw [Function.update_of_ne he] at hle
            exact absurd hle hold
    · intro y j hy hg hj
      refine Finset.mem_insert_of_mem ?_
      rcases Finset.mem_insert.mp hj with rfl | hj
      · cases hg with
        | edge he => exact Free.edge hc hf he
        | step hg he => exact h.kept y _ hy hg (Free.edge hc hf he)
        | event hg ha => exact h.passes hc hf ha hy hg
      · exact h.kept y j hy hg hj
    · intro r w r' e v' ha hlt hr' hw y hy hg
      rcases h.safe r w r' e v' ha hlt hr' hw y hy hg with hd | hrest
      · exact .inl (Finset.mem_insert_of_mem hd)
      · exact .inr hrest

theorem Timely.issue (h : b.Timely) (ha : b.Admits c) : (b.issue c).Timely where
  toClosed := h.toClosed.issue c
  positive := by
    intro i e v hi
    rcases bodyAt_append_some hi with hi | ⟨-, hb⟩
    · exact h.positive i e v hi
    · exact (ha.rise e v hb.symm).1
  rising := by
    intro i j e v v' hij hi hj
    rcases bodyAt_append_some hj with hj | ⟨rfl, hb⟩
    · rw [issue_log, bodyAt_append_of_lt (hij.trans (bodyAt_lt hj))] at hi
      exact h.rising i j e v v' hij hi hj
    · rw [issue_log, bodyAt_append_of_lt hij] at hi
      exact (ha.rise e v' hb.symm).2 i v hi
  reached := by
    intro e v hv hle
    obtain ⟨i, v', hd, hi, hle⟩ := h.reached e v hv hle
    exact ⟨i, v', hd, bodyAt_append_mono hi, hle⟩
  kept := by
    intro y j hy hg hj
    have hg := (guarded_append_of_lt (h.issued j hj)).mp hg
    exact h.kept y j ((works_append_of_lt (hg.lt.trans hg.lt_length)).mp hy) hg hj
  safe := by
    rintro r w r' e v' haw hlt hr' ⟨v, hw⟩ y hy hg
    obtain ⟨hrw, e', u, hr, hw'⟩ := haw
    obtain ⟨rfl, rfl⟩ : e = e' ∧ v = u := by
      rw [hw] at hw'
      cases hw'
      exact ⟨rfl, rfl⟩
    rcases bodyAt_append_some hw with hw | ⟨rfl, hb⟩
    · -- an earlier wait
      have hwl := bodyAt_lt hw
      rw [issue_log, bodyAt_append_of_lt (hrw.trans hwl)] at hr
      have haw : Awaits b.log r w := ⟨hrw, e, v, hr, hw⟩
      have hg := (guarded_append_of_lt (hrw.trans hwl)).mp hg
      have hy := (works_append_of_lt (hg.lt.trans hg.lt_length)).mp hy
      rcases bodyAt_append_some hr' with hr' | ⟨rfl, hb⟩
      · rcases h.safe r w r' e v' haw hlt hr' ⟨v, hw⟩ y hy hg with hd | hl | hg'
        · exact .inl hd
        · exact .inr (.inl hl.append)
        · exact .inr (.inr hg'.append)
      · -- the new command is a later signal
        by_cases hyd : y ∈ b.done
        · exact .inl hyd
        · have hwd : w ∉ b.done := fun hwd => hyd (h.kept y w hy (.event hg haw) hwd)
          rcases ha.signal e v' hb.symm r w v hw haw hwd y hy hg hyd with hl | hs
          · exact .inr (.inl hl.append)
          · exact .inr (.inr hs.guarded)
    · -- the new command is the wait: no signal is later than its own
      rw [issue_log, bodyAt_append_of_lt hrw] at hr
      rcases bodyAt_append_some hr' with hr' | ⟨-, hb'⟩
      · have := h.rising r r' e v v' hlt hr hr'
        have := (ha.wait e v hb.symm).2 r' v' hr'
        omega
      · rw [← hb] at hb'
        cases hb'

/-- Nothing after a wait completes before the work that the wait's signal comes after. -/
theorem Timely.wait_guards (h : b.Timely) {x : ℕ} (ha : Awaits b.log r w) (hx : Before b.log w x)
    (hy : Works b.log y) (hg : Guarded b.log y r) (hd : x ∈ b.done) : y ∈ b.done :=
  h.kept y w hy (.event hg ha) (h.before hx hd)

end Board

end Grxcp.Queues
