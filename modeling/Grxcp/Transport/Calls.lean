import Grxcp.Transport.Delivery
import Grxcp.Transport.Ending
import Grxcp.Transport.Publishing

/-!
# The script's calls

What the host's script does in its turn keeps what holds in every state, for commands that pack and a seed
that changes with nothing pending (`Op.Allowed`): it publishes and rings, ends the oldest slot, writes a
register. A write that it makes leads on from where those in flight do (`Leads.append`).
-/

namespace Grxcp.BoardTransport

open Agenda Runs Sim

variable {s s' : Sim} {a : Activity} {off : Reg} {val : ℕ} {ws : List (Reg × ℕ)}

/-! ## The script has its turn -/

/-- What holds while nothing is asked of the registers, but for where the writes lead. -/
structure Resting (s : Sim) (a : Activity) : Prop where
  queue : Queue s
  book : Book s.host
  doing : s.Doing a
  due : ∀ e ∈ s.q, e.fn.write?.isSome = true → e.prio = 1 ∧ e.due ≤ s.t + L
  boxes : ∀ b, s.boxCt ≤ b → s.boxes b = none
  answers : s.NoAnswers
  reset : ¬s.Has .reset
  clean : s.Clean

theorem Sim.Safe.resting (h : s.Safe a) (hans : s.NoAnswers) (hreset : ¬s.Has .reset) : Resting s a :=
  ⟨h.queue, h.book, h.doing, h.wires.due, h.wires.boxes, hans, hreset, h.clean⟩

theorem countOf_isAnswer_of_noAnswers (h : s.NoAnswers) : s.countOf Event.isAnswer = 0 := by
  refine List.countP_eq_zero.mpr fun e he hans => ?_
  cases hfn : e.fn <;> rw [hfn] at hans <;>
    first | exact absurd hans Bool.false_ne_true | exact h.1 _ _ ⟨e, he, hfn⟩ | exact h.2 _ _ ⟨e, he, hfn⟩

namespace Resting

theorem safe (h : Resting s a) (hp : s.host.phase = .script) (ht : a ≠ .torn) (hd : a ≠ .dead)
    (hl : a = .wedged ∨ Leads s s.writes) :
    s.Safe a := by
  refine ⟨h.queue, h.book, h.doing, ⟨h.due, h.boxes, (countOf_isAnswer_of_noAnswers h.answers).trans_le
    (Nat.zero_le 1), ?_⟩, h.clean⟩
  rw [hp]
  exact ⟨ht, hd, h.answers, h.reset, hl⟩

/-- The host's own notes. -/
theorem setHost (h : Resting s a) {h' : Host} (hbook : Book h') (hhead : h'.hhead = s.host.hhead)
    (hnext : h'.next = s.host.next) (hcmds : h'.cmds = s.host.cmds) : Resting (s.setHost h') a := by
  have hdata : SameData s (s.setHost h') :=
    .beside rfl rfl rfl rfl rfl rfl rfl hhead hnext hcmds
  refine ⟨?_, hbook, hdata.doing h.doing, h.due, h.boxes, h.answers, h.reset, h.clean⟩
  exact h.queue.move rfl rfl rfl rfl rfl (fun _ _ => ⟨rfl, rfl⟩) le_rfl (fun _ _ => rfl) rfl le_rfl rfl

/-- The module's own fields that its work does not look at. -/
theorem wedgeAt (h : Resting s a) (w : Option ℕ) : Resting (s.setModule { s.module with wedgeAt := w }) a := by
  have hdata : SameData s (s.setModule { s.module with wedgeAt := w }) :=
    .setModule s _ rfl rfl rfl rfl rfl rfl rfl rfl rfl rfl rfl le_rfl id
  exact ⟨h.queue.setModule _ rfl le_rfl rfl, h.book, hdata.doing h.doing, h.due, h.boxes, h.answers, h.reset, h.clean⟩

/-- A register write is on its way, after those before it. -/
theorem mmioWrite (h : Resting s a) (off : Reg) (val : ℕ) :
    Resting (s.mmioWrite off val) a ∧ (s.mmioWrite off val).writes = s.writes ++ [(off, val)] := by
  refine ⟨?_, writes_mmioWrite h.queue.sorted h.queue.num h.due⟩
  refine ⟨h.queue.after (by decide) Bool.noConfusion (fun _ _ he => Event.noConfusion he) rfl trivial, h.book,
    (SameData.push s rfl).doing h.doing, fun e he hw => ?_, h.boxes,
    ⟨fun r b hx => h.answers.1 r b ((has_after.mp hx).resolve_left Event.noConfusion),
      fun b v hx => h.answers.2 b v ((has_after.mp hx).resolve_left Event.noConfusion)⟩,
    fun hx => h.reset ((has_after.mp hx).resolve_left Event.noConfusion), h.clean⟩
  rcases mem_push.mp he with rfl | he
  · exact ⟨rfl, le_rfl⟩
  · exact h.due e he hw

/-- `Host.write`. -/
theorem hostWrite (h : Resting s a) (off : Reg) (val : ℕ) :
    Resting (s.hostWrite off val) a ∧ (s.hostWrite off val).writes = s.writes ++ [(off, val)] ∧
      ∃ ctrl, (s.hostWrite off val).host = { s.host with ctrl := ctrl } := by
  unfold Sim.hostWrite
  split
  · have hset : Resting (s.setHost { s.host with ctrl := val }) a :=
      h.setHost (h.book.notes rfl rfl rfl rfl rfl rfl rfl h.book.seeds) rfl rfl rfl
    exact ⟨(hset.mmioWrite off val).1, (hset.mmioWrite off val).2, val, rfl⟩
  · exact ⟨(h.mmioWrite off val).1, (h.mmioWrite off val).2, s.host.ctrl, rfl⟩

end Resting

@[simp] theorem hostWrite_module (s : Sim) (off : Reg) (val : ℕ) : (s.hostWrite off val).module = s.module := by
  unfold Sim.hostWrite
  split <;> rfl

@[simp] theorem hostWrite_t (s : Sim) (off : Reg) (val : ℕ) : (s.hostWrite off val).t = s.t := by
  unfold Sim.hostWrite
  split <;> rfl

/-! ## Where the writes lead -/

/-- Writes of the ring's place: an enabled queue lets them go by, and the tail is not theirs. -/
theorem Track.apply_place (σ : Track) (v : ℕ) (h : off = .baseLo ∨ off = .baseHi ∨ off = .size) :
    (σ.enable = true → σ.apply (off, v) = σ) ∧ (σ.apply (off, v)).tail = σ.tail := by
  rcases h with rfl | rfl | rfl <;>
    exact ⟨fun hon => if_pos hon, (apply_ite Track.tail (σ.enable = true) σ _).trans (ite_self _)⟩

/-- Along the writes the tail moves forward. -/
theorem Track.tail_le {h : Host} {σ : Track} (halong : Along Track.apply (Track.Ok h) σ ws) :
    σ.tail ≤ (Runs.after Track.apply σ ws).tail := by
  induction ws generalizing σ with
  | nil => exact le_rfl
  | cons w ws ih =>
    obtain ⟨hok, hrest⟩ := halong
    refine le_trans ?_ (ih hrest)
    obtain ⟨off, v⟩ := w
    cases off with
    | tail => exact hok.1
    | baseLo => exact (σ.apply_place v (.inl rfl)).2.ge
    | baseHi => exact (σ.apply_place v (.inr (.inl rfl))).2.ge
    | size => exact (σ.apply_place v (.inr (.inr rfl))).2.ge
    | _ => exact le_rfl

/-- One write more, where it is in its place at the end of the others. -/
theorem Leads.append (hl : Leads s ws) (hm : s'.module = s.module) (hhead : s'.host.hhead = s.host.hhead)
    (hnext : s'.host.next = s.host.next) (hcmds : s'.host.cmds = s.host.cmds)
    (hok : ∀ σ : Track, σ.enable = true → σ.seed = s.host.seed → σ.tail ≤ s'.host.next →
      Track.Ok s'.host σ (off, val) ∧ (σ.apply (off, val)).enable = true ∧ (σ.apply (off, val)).seed = s'.host.seed ∧
        (σ.apply (off, val)).tail ≤ s'.host.next) : Leads s' (ws ++ [(off, val)]) := by
  obtain ⟨σ, hs, halong, hen, hseed, htail⟩ := hl
  obtain ⟨hlast, hen', hseed', htail'⟩ := hok _ hen hseed (htail.trans_eq hnext.symm)
  refine ⟨σ, ⟨?_, ?_, ?_, ?_, ?_, ?_, ?_⟩, (along_append σ ws _).mpr ⟨halong.mono fun σ w hw => ?_, hlast, trivial⟩,
    ?_, ?_, ?_⟩
  · rw [hm]; exact hs.enable
  · rw [hm]; exact hs.base
  · rw [hm]; exact hs.size
  · rw [hm]; exact hs.seed
  · rw [hm]; exact hs.tail
  · rw [hm]; exact hs.exact
  · rw [hm, hhead, hcmds]; exact hs.seeds
  · obtain ⟨r, v⟩ := w
    cases r <;> simp only [Track.Ok, hhead, hnext, hcmds] at hw ⊢ <;> exact hw
  · rw [after_append]; exact hen'
  · rw [after_append]; exact hseed'
  · rw [after_append]; exact htail'

/-- A host whose slots have been ended further: the enabled queue does not look back. -/
theorem Leads.shorter (hl : Leads s ws) (hon : s.module.enable = true) (hm : s'.module = s.module)
    (hhead : s.host.hhead ≤ s'.host.hhead) (hnext : s'.host.next = s.host.next) (hcmds : s'.host.cmds = s.host.cmds)
    (hseed : s'.host.seed = s.host.seed) : Leads s' ws := by
  obtain ⟨σ, hs, halong, hen, hseed', htail⟩ := hl
  refine ⟨σ, hs.of_module hm hhead hcmds, ?_, hen, hseed'.trans hseed.symm, htail.trans_eq hnext.symm⟩
  have hσ : σ.enable = true := hs.enable.trans hon
  clear hs hen hseed' htail
  induction ws generalizing σ with
  | nil => trivial
  | cons w ws ih =>
    obtain ⟨hok, hrest⟩ := halong
    obtain ⟨r, v⟩ := w
    have hstep : Track.Ok s'.host σ (r, v) ∧ (σ.apply (r, v)).enable = true := by
      cases r with
      | ctrl => exact ⟨⟨hok.1, fun hoff => absurd (hσ.symm.trans hoff) Bool.noConfusion⟩, decide_eq_true hok.1⟩
      | tail =>
        refine ⟨⟨hok.1, hok.2.1.trans_eq hnext.symm, fun idx c hge hlt hc => ?_⟩, hσ⟩
        exact hok.2.2 idx c (hhead.trans hge) hlt (hcmds ▸ hc)
      | seed => exact ⟨fun idx c hge hlt hc => hok idx c (hhead.trans hge) hlt (hcmds ▸ hc), hσ⟩
      | baseLo => exact ⟨trivial, ((σ.apply_place v (.inl rfl)).1 hσ).symm ▸ hσ⟩
      | baseHi => exact ⟨trivial, ((σ.apply_place v (.inr (.inl rfl))).1 hσ).symm ▸ hσ⟩
      | size => exact ⟨trivial, ((σ.apply_place v (.inr (.inr rfl))).1 hσ).symm ▸ hσ⟩
      | _ => exact ⟨trivial, hσ⟩
    exact ⟨hstep.1, ih _ hrest hstep.2⟩

/-- One command more, under the seed in force. -/
theorem Leads.publish (hl : Leads s ws) {p : Published} {owner : ℕ → Option ℕ} {mem : ℕ → Line} :
    Leads { s with mem := mem, host := s.host.publish p owner } ws := by
  obtain ⟨σ, hs, halong, hen, hseed, htail⟩ := hl
  -- the new command is past every tail that the writes carry
  -- below the tail the commands are the same
  have hold : ∀ {idx c n}, idx < n → n ≤ s.host.next → (s.host.publish p owner).cmds idx = some c →
    s.host.cmds idx = some c := by
    intro idx c n hlt hn hc
    change Function.update s.host.cmds s.host.next (some p) idx = some c at hc
    rwa [Function.update_of_ne (hlt.trans_le hn).ne] at hc
  have hσ : σ.tail ≤ s.host.next := (Track.tail_le halong).trans htail
  refine ⟨σ, ⟨hs.enable, hs.base, hs.size, hs.seed, hs.tail, hs.exact, fun idx c hge hlt hc => ?_⟩, ?_, hen, hseed,
    htail.trans (Nat.le_succ _)⟩
  · exact hs.seeds idx c hge hlt (hold (hlt.trans_le hs.tail) hσ hc)
  clear hs hen hseed hσ
  induction ws generalizing σ with
  | nil => trivial
  | cons w ws ih =>
    obtain ⟨hok, hrest⟩ := halong
    have hnow : (σ.apply w).tail ≤ s.host.next := (Track.tail_le hrest).trans htail
    refine ⟨?_, ih _ hrest htail⟩
    obtain ⟨r, v⟩ := w
    cases r with
    | ctrl => exact hok
    | tail => exact ⟨hok.1, hok.2.1.trans (Nat.le_succ _), fun idx c hge hlt hc =>
        hok.2.2 idx c hge hlt (hold hlt hnow hc)⟩
    | seed => exact fun idx c hge hlt hc => hok idx c hge hlt (hold hlt hnow hc)
    | _ => trivial

/-! ## The calls of a script that is free -/

/-- What the driver may call: a command packs and has an index, and the seed changes with nothing pending. -/
def Sim.Op.Allowed (s : Sim) : Op → Prop
  | .publish c => c.Packs s.host.alloc ∧ s.host.next + 1 < 2 ^ 32
  | .setSeed _ => s.host.hhead = s.host.next
  | _ => True

theorem Sim.free_iff : s.free ↔ s.host.phase = .script := by
  unfold Sim.free
  cases s.host.phase <;> simp

theorem Sim.Safe.script (h : s.Safe a) (hp : s.host.phase = .script) :
    Resting s a ∧ a ≠ .torn ∧ a ≠ .dead ∧ (a = .wedged ∨ Leads s s.writes) := by
  have hphase := h.wires.phase
  rw [hp] at hphase
  obtain ⟨ht, hd, hans, hreset, hlead⟩ := hphase
  exact ⟨h.resting hans hreset, ht, hd, hlead⟩

/-- A register write of the script's. -/
theorem hostWrite_spec (h : s.Safe a) (hp : s.host.phase = .script)
    (hok : ∀ σ : Track, σ.enable = true → σ.seed = s.host.seed → σ.tail ≤ s.host.next →
      Track.Ok s.host σ (off, val) ∧ (σ.apply (off, val)).enable = true ∧ (σ.apply (off, val)).seed = s.host.seed ∧
        (σ.apply (off, val)).tail ≤ s.host.next) : (s.hostWrite off val).Safe a := by
  obtain ⟨hr, ht, hd, hlead⟩ := h.script hp
  obtain ⟨hr', hws, ctrl, hhost⟩ := hr.hostWrite off val
  refine hr'.safe (by rw [hhost]; exact hp) ht hd (hlead.imp_right fun hl => ?_)
  rw [hws]
  refine hl.append (hostWrite_module s off val) ?_ ?_ ?_ fun σ hon hseed htail => ?_ <;> rw [hhost]
  · rw [hhost] at htail
    obtain ⟨hok', hrest⟩ := hok σ hon hseed htail
    refine ⟨?_, hrest⟩
    cases off <;> exact hok'

/-- The doorbell moves over what has been published. -/
theorem ring_spec (h : s.Safe a) (hp : s.host.phase = .script) : s.ring.Safe a :=
  hostWrite_spec h hp fun _ hon hseed htail =>
    ⟨⟨htail, le_rfl, fun idx c hge _ hc => (h.book.seeds idx c hge hc).trans hseed.symm⟩, hon, hseed, le_rfl⟩

/-- The interrupt's enable is written, and ENABLE stays. -/
theorem irqEn_spec (h : s.Safe a) (hp : s.host.phase = .script) (on : Bool) :
    (s.hostWrite .ctrl (if on then 3 else 1)).Safe a := by
  have hodd : (if on then 3 else 1) % 2 = 1 := by cases on <;> rfl
  exact hostWrite_spec h hp fun σ hon hseed htail =>
    ⟨⟨hodd, fun hoff => absurd (hon.symm.trans hoff) Bool.noConfusion⟩, decide_eq_true hodd, hseed, htail⟩

/-- Where the interrupt is due is written. -/
theorem irqAt_spec (h : s.Safe a) (hp : s.host.phase = .script) :
    ((s.setHost { s.host with irqAt := s.host.next }).hostWrite .irqAt s.host.next).Safe a := by
  have hset : (s.setHost { s.host with irqAt := s.host.next }).Safe a :=
    h.setHost (h.book.notes rfl rfl rfl rfl rfl rfl rfl h.book.seeds) rfl rfl rfl rfl rfl
  exact hostWrite_spec hset hp fun σ hon hseed htail => ⟨trivial, hon, hseed, htail⟩

/-- The module is to stop answering at a command. -/
theorem wedgeAt_spec (h : s.Safe a) (hp : s.host.phase = .script) (w : Option ℕ) :
    (s.setModule { s.module with wedgeAt := w }).Safe a := by
  obtain ⟨hr, ht, hd, hlead⟩ := h.script hp
  refine (hr.wedgeAt w).safe hp ht hd (hlead.imp_right fun hl => ?_)
  exact (SameControl.setModule s { s.module with wedgeAt := w } rfl rfl rfl rfl rfl).leads hl

/-- The seed changes, with nothing pending. -/
theorem setSeed_spec (h : s.Safe a) (hp : s.host.phase = .script) (hidle : s.host.hhead = s.host.next) (seed : ℕ) :
    (s.setSeed seed).Safe a := by
  obtain ⟨hr, ht, hd, hlead⟩ := h.script hp
  obtain ⟨hr', hws⟩ := hr.mmioWrite .seed seed
  have hb := h.book
  have hnone : ∀ idx c, s.host.hhead ≤ idx → s.host.cmds idx ≠ some c := fun idx c hge hc =>
    absurd (hb.wf idx c hc).2.2 (hidle ▸ hge).not_gt
  have hbook : Book { s.host with seed := seed, restart := true } :=
    hb.notes rfl rfl rfl rfl rfl rfl rfl fun idx c hge hc => absurd hc (hnone idx c hge)
  refine (hr'.setHost hbook rfl rfl rfl).safe hp ht hd (hlead.imp_right fun hl => ?_)
  change Leads _ (s.mmioWrite .seed seed).writes
  rw [hws]
  refine hl.append rfl rfl rfl rfl fun σ hon _ htail => ⟨?_, hon, rfl, htail⟩
  exact fun idx c hge _ hc => absurd hc (hnone idx c hge)

/-- A command is published. -/
theorem publish_spec (h : s.Safe a) (hp : s.host.phase = .script) (hroom : s.hasRoom) {c : Cmd}
    (hc : c.Packs s.host.alloc) (hshort : s.host.next + 1 < 2 ^ 32) : (s.publish c).Safe a := by
  obtain ⟨hr, ht, hd, hlead⟩ := h.script hp
  obtain ⟨hwf, -⟩ := hc.wf h.book.alloc s.host.seed
  obtain ⟨mem, owner, heq, hfresh, hmem, hown, hother⟩ := publish_eq h.book hroom hc
  rw [heq]
  refine Resting.safe ⟨?_, h.book.publish hroom hshort hwf le_rfl rfl hown hother,
    h.doing.publish ht hd h.book hroom hfresh hmem,
    hr.due, hr.boxes, hr.answers, hr.reset, hr.clean⟩ hp ht hd (hlead.imp_right fun hl => hl.publish)
  exact h.queue.move rfl rfl rfl rfl rfl (fun _ _ => ⟨rfl, rfl⟩) le_rfl (fun _ _ => rfl) rfl le_rfl rfl

/-! ## The oldest slot is ended -/

/-- A pending slot with a status has its record, and is behind the module's head unless the record has not been
counted yet. -/
theorem Sim.Doing.recorded (hd : s.Doing a) (ht : a ≠ .torn) (hdead : a ≠ .dead) (hb : Book s.host) {idx : ℕ}
    {c : Published} (hge : s.host.hhead ≤ idx) (hc : s.host.cmds idx = some c) (hst : s.status idx ≠ PENDING) :
    Recorded s.mem idx c ∧ s.Up ∧ s.Front ∧ idx ≤ s.module.head ∧ (idx = s.module.head →
      ∃ st index, a = .recording st index) := by
  have hwf := (hb.wf _ c hc).1
  have hpending : s.mem (slotAddr idx) ≠ c.desc := by
    intro hm
    unfold Sim.status at hst
    rw [hm] at hst
    exact hst hwf.desc_pending
  -- past the head a slot is fresh, and at the head it is unless a record is on its way
  have hsplit : s.Up → s.Front → (∀ c', s.host.cmds s.module.head = some c' → s.host.hhead ≤ s.module.head →
      s.mem (slotAddr s.module.head) = c'.desc ∨ Recorded s.mem s.module.head c' ∧
      ∃ st index, a = .recording st index) →
      Recorded s.mem idx c ∧ s.Up ∧ s.Front ∧ idx ≤ s.module.head ∧
      (idx = s.module.head → ∃ st index, a = .recording st index) := by
    intro hu hf hhere
    rcases Nat.lt_trichotomy idx s.module.head with hlt | rfl | hgt
    · exact ⟨hf.before idx c hge hlt hc, hu, hf, hlt.le, fun he => absurd he hlt.ne⟩
    · rcases hhere c hc hge with hm | ⟨hrec, ha⟩
      · exact absurd hm hpending
      · exact ⟨hrec, hu, hf, le_rfl, fun _ => ha⟩
    · exact absurd (hf.later idx c hgt hc).1 hpending
  cases a with
  | torn => exact absurd rfl ht
  | dead => exact absurd rfl hdead
  | off => exact absurd (hd.2.2.2.2.2.2.2.2 idx c hge hc).1 hpending
  | idle =>
    obtain ⟨hu, hf, -, -, -, -, -, -, hm⟩ := hd
    exact hsplit hu hf fun c' hc' _ => .inl (hm c' hc').1
  | wedged =>
    obtain ⟨hu, hf, -, -, -, -, -, hm⟩ := hd
    exact hsplit hu hf fun c' hc' _ => .inl (hm c' hc').1
  | reading g =>
    obtain ⟨hu, hf, -, -, -, -, -, -, c₁, hc₁, hm, -⟩ := hd
    refine hsplit hu hf fun c' hc' _ => .inl ?_
    obtain rfl := Option.some.inj (hc₁.symm.trans hc')
    exact hm.1
  | shooting r =>
    obtain ⟨hu, hf, -, -, -, -, -, c₁, hc₁, hs⟩ := hd
    refine hsplit hu hf fun c' hc' _ => .inl ?_
    obtain rfl := Option.some.inj (hc₁.symm.trans hc')
    exact hs.slot
  | recording st index =>
    obtain ⟨hu, hf, -, -, -, -, -, -, c₁, hc₁, hs⟩ := hd
    refine hsplit hu hf fun c' hc' hle => ?_
    obtain rfl := Option.some.inj (hc₁.symm.trans hc')
    rcases hs.slot hle with hm | ⟨hm, -⟩
    · exact .inr ⟨⟨st, index, hm, hs.told⟩, st, index, rfl⟩
    · exact .inl hm

/-- The host's head moves past a slot that has its record. -/
theorem Sim.Doing.oldest (hd : s.Doing a) (ht : a ≠ .torn) (hdead : a ≠ .dead) (hb : Book s.host) {c : Published}
    (hc : s.host.cmds s.host.hhead = some c) (hst : s.status s.host.hhead ≠ PENDING) {f : Finset Check} {h' : Host}
    (he : Ends s.host h') (hhead : h'.hhead = s.host.hhead + 1) : Sim.Doing { s with fired := f, host := h' } a := by
  obtain ⟨-, -, -, hle, hhere⟩ := hd.recorded ht hdead hb le_rfl hc hst
  have hbehind : (∀ st index, a ≠ .recording st index) → h'.hhead ≤ s.module.head := fun hno =>
    hhead.trans_le (lt_of_le_of_ne hle fun heq => by
      obtain ⟨st, index, ha⟩ := hhere heq
      exact hno st index ha)
  have hfront : s.Front → Sim.Front { s with fired := f, host := h' } := by
    refine fun hf => ⟨fun idx c' hge hlt hc' => ?_, fun idx c' hlt hc' => ?_⟩
    · exact hf.before idx c' (Nat.le_of_succ_le (hhead.symm.trans_le hge)) hlt (he.cmds ▸ hc')
    · exact hf.later idx c' hlt (he.cmds ▸ hc')
  have hup : s.Up → Sim.Up { s with fired := f, host := h' } := fun hu =>
    ⟨hu.enable, hu.enabled, hu.draining, hu.base, hu.size, hu.tail, hu.next.trans_eq he.next.symm⟩
  cases a with
  | torn => exact absurd rfl ht
  | dead => exact absurd rfl hdead
  | off =>
    obtain ⟨hon, hen, hdr, hw, hbusy, hr, hsh, hl, hm⟩ := hd
    exact ⟨hon, hen, hdr, hw, hbusy, hr, hsh, hl,
      fun idx c' hge hc' => hm idx c' (Nat.le_of_succ_le (hhead.symm.trans_le hge)) (he.cmds ▸ hc')⟩
  | idle =>
    obtain ⟨hu, hf, hw, hbusy, hr, hsh, hl, -, hm⟩ := hd
    exact ⟨hup hu, hfront hf, hw, hbusy, hr, hsh, hl, hbehind fun _ _ => Activity.noConfusion, fun c' hc' =>
      hm c' (he.cmds ▸ hc')⟩
  | wedged =>
    obtain ⟨hu, hf, hw, hr, hsh, hl, -, hm⟩ := hd
    exact ⟨hup hu, hfront hf, hw, hr, hsh, hl, hbehind fun _ _ => Activity.noConfusion, fun c' hc' =>
      hm c' (he.cmds ▸ hc')⟩
  | reading g =>
    obtain ⟨hu, hf, hw, hbusy, hsh, hl, -, hlt, c₁, hc₁, hm, hr⟩ := hd
    exact ⟨hup hu, hfront hf, hw, hbusy, hsh, hl, hbehind fun _ _ => Activity.noConfusion, hlt, c₁, he.cmds ▸ hc₁, hm,
      ⟨hr.lt, hr.live, hr.only, hr.count, hr.nodup, hr.asked, hr.coming, hr.got, hr.keys, hr.what⟩⟩
  | shooting r =>
    obtain ⟨hu, hf, hw, hbusy, hr, -, hlt, c₁, hc₁, hs⟩ := hd
    exact ⟨hup hu, hfront hf, hw, hbusy, hr, hbehind fun _ _ => Activity.noConfusion, hlt, c₁, he.cmds ▸ hc₁,
      ⟨hs.lt, hs.job, hs.idx, hs.d, hs.rows, hs.cols, hs.out, hs.status, hs.n, hs.raw, hs.slot, hs.shots, hs.one,
      hs.gos, hs.count,
        hs.sent, hs.ordered, hs.written, hs.lands⟩⟩
  | recording st index =>
    obtain ⟨hu, hf, hw, hbusy, hr, hsh, -, hlt, c₁, hc₁, hs⟩ := hd
    refine ⟨hup hu, hfront hf, hw, hbusy, hr, hsh, hhead.trans_le (Nat.succ_le_succ hle), hlt, c₁, he.cmds ▸ hc₁, ?_⟩
    refine ⟨hs.told, hs.gos, hs.count, fun hge => hs.slot (Nat.le_of_succ_le (hhead.symm.trans_le hge)), hs.one,
      fun x d hx => ?_⟩
    obtain ⟨hxs, hds, hge, hm⟩ := hs.lands x d hx
    refine ⟨hxs, hds, hhead.trans_le (lt_of_le_of_ne hge fun heq => ?_), hm⟩
    -- a record still on its way has not been seen
    unfold Sim.status at hst
    rw [heq] at hst hc
    obtain rfl := Option.some.inj (hc₁.symm.trans hc)
    rw [hm] at hst
    exact hst (hb.wf _ c₁ hc₁).1.desc_pending

/-- The script ends the oldest slot, where it has a status. -/
theorem tryEnd_spec (h : s.Safe a) (hp : s.host.phase = .script) (htry : s.tryEnd = some s') : s'.Safe a := by
  obtain ⟨hr, ht, hd, hlead⟩ := h.script hp
  obtain ⟨c, hc, hst, rfl⟩ := tryEnd_eq htry
  obtain ⟨hrec, hup, -⟩ := h.doing.recorded ht hd h.book le_rfl hc hst
  obtain ⟨f, h', heq, hends, hhead, hended, hfired⟩ := complete_eq (h.book.wf _ c hc).1 (.inl hrec)
  have hbook : Book h' := by
    refine h.book.ends hends (hhead ▸ Nat.le_succ _) (hhead ▸ (h.book.wf _ c hc).2.2) fun idx => ?_
    rw [hended, hhead, Finset.mem_insert, h.book.ended]
    omega
  rw [heq]
  have hclean : Sim.Clean { s with fired := f, host := h' } := fun c hc => by
    rcases hfired c hc with hc | rfl | rfl
    · exact h.clean c hc
    · exact .inl rfl
    · exact .inr (.inl rfl)
  refine Resting.safe ⟨?_, hbook, h.doing.oldest ht hd h.book hc hst hends hhead, hr.due, hr.boxes, hr.answers,
    hr.reset, hclean⟩
    (hends.phase.trans hp) ht hd (hlead.imp_right fun hl => ?_)
  · exact h.queue.move rfl rfl rfl rfl rfl (fun _ _ => ⟨rfl, rfl⟩) le_rfl (fun _ _ => rfl) rfl le_rfl rfl
  · exact hl.shorter hup.enable rfl (hhead ▸ Nat.le_succ _) hends.next hends.cmds hends.seed

end Grxcp.BoardTransport
